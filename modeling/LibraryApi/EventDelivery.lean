import LibraryApi.FirstOfClass
import LibraryApi.NotificationHandlers

/-! The event bus over its `defaultdict`, and what a sequence of calls makes it deliver.
A lookup of a type nobody subscribed for inserts an empty list, duplicates are found in
the flattened table, and a publication goes to the first handler of each class. -/
namespace LibraryApi.EventDelivery
open KeyedTable FirstOfClass
open NotificationHandlers (EventType HandlerClass)

universe u

section Table
variable {T H C : Type} [DecidableEq T] [DecidableEq C]

abbrev Handlers (T H : Type) := Table (fun row : T × List H => row.1)

def getitem (handlers : Handlers T H) (eventType : T) : List H × Handlers T H := match handlers.find eventType with
  | some row => (row.2,handlers)
  | none => ([],(handlers.insert (eventType,[])).getD handlers)

def subscribe (cls : H → C) (handlers : Handlers T H) (eventType : T) (handler : H) : Handlers T H :=
  let existingHandlerKeys := handlers.rows.flatMap fun row => row.2.map fun h => (row.1,cls h)
  if (eventType,cls handler) ∈ existingHandlerKeys then handlers
  else (getitem handlers eventType).2.modify eventType (fun row => (row.1,row.2 ++ [handler])) fun _ => rfl

def called (handlers : Handlers T H) (eventType : T) : List H := (getitem handlers eventType).1

variable {handlers : Handlers T H} {k t : T} {h : H} {cls : H → C}

theorem calledFound : called handlers t = ((handlers.find t).map Prod.snd).getD [] := by
  unfold called getitem
  cases handlers.find t <;> rfl

theorem getitemFind : (getitem handlers k).2.find t = if t = k then some (k,called handlers k) else handlers.find t := by
  unfold called getitem
  cases found : handlers.find k with
  | some row =>
    dsimp only
    split
    · rename_i here
      rw [here,found,← (Table.findSound found).2]
    · rfl
  | none =>
    obtain ⟨handlers',added⟩ := Table.insertFresh (r := (k,[])) found
    simp only [added,Option.getD_some]
    rw [Table.findInsert added]
    exact if_congr eq_comm rfl rfl

theorem calledTouched : called (getitem handlers k).2 t = called handlers t := by
  rw [calledFound,getitemFind]
  split
  · rename_i here
    rw [here]
    rfl
  · exact calledFound.symm

omit [DecidableEq C] in
theorem existingKeys (c : C) : (k,c) ∈ handlers.rows.flatMap (fun row => row.2.map fun h => (row.1,cls h)) ↔
    c ∈ (called handlers k).map cls := by
  rw [calledFound,List.mem_flatMap]
  constructor
  · rintro ⟨row,mem,inside⟩
    obtain ⟨h,there,same⟩ := List.mem_map.mp inside
    cases same
    rw [Table.findComplete mem]
    exact List.mem_map_of_mem there
  · cases found : handlers.find k with
    | none => exact fun none => absurd none List.not_mem_nil
    | some row =>
      intro there
      obtain ⟨mem,rfl⟩ := Table.findSound found
      obtain ⟨h,inside,rfl⟩ := List.mem_map.mp there
      exact ⟨row,mem,List.mem_map.mpr ⟨h,inside,rfl⟩⟩

theorem calledSubscribe : called (subscribe cls handlers k h) t =
    if t = k ∧ cls h ∉ (called handlers k).map cls then called handlers k ++ [h] else called handlers t := by
  unfold subscribe
  simp only [existingKeys]
  by_cases there : cls h ∈ (called handlers k).map cls
  · rw [if_pos there,if_neg (fun new => new.2 there)]
  · rw [if_neg there,calledFound,Table.findModify,getitemFind]
    by_cases here : t = k
    · rw [if_pos here,if_pos here,if_pos ⟨here,there⟩]
      rfl
    · rw [if_neg here,if_neg here,if_neg (fun new => here new.1)]
      exact calledFound.symm

end Table

structure Classes (Session H C : Type) where
  cls : H → C
  build : HandlerClass → Session → H
  classOf : HandlerClass → C
  built : ∀ c db, cls (build c db) = classOf c

inductive Call (Session T H Event : Type) where
  | subscribe (eventType : T) (handler : H)
  | publish (event : Event)
  | registerEventHandlers (db : Session)

section Calls
variable {Session T H C Event : Type} [DecidableEq T] [DecidableEq C] (o : Classes Session H C) (type : EventType → T)
  (typeOf : Event → T)

def registerEventHandlers (eventBus : Handlers T H) (db : Session) : Handlers T H :=
  let eventBus := subscribe o.cls eventBus (type .loanCreated) (o.build .loanCreatedNotificationHandler db)
  let eventBus := subscribe o.cls eventBus (type .loanReturned) (o.build .loanReturnedNotificationHandler db)
  let eventBus := subscribe o.cls eventBus (type .loanCancelled) (o.build .loanCancelledNotificationHandler db)
  let eventBus := subscribe o.cls eventBus (type .reservationCreated) (o.build .reservationCreatedNotificationHandler db)
  subscribe o.cls eventBus (type .reservationCancelled) (o.build .reservationCancelledNotificationHandler db)

def step (handlers : Handlers T H) : Call Session T H Event → Handlers T H
  | .subscribe eventType handler => subscribe o.cls handlers eventType handler
  | .publish event => (getitem handlers (typeOf event)).2
  | .registerEventHandlers db => registerEventHandlers o type handlers db

section Effects
variable {m : Type → Type u} [Monad m] (handle : H → Event → m Unit)

def handleAll (event : Event) : List H → m Unit
  | [] => pure ()
  | handler :: rest => do
    handle handler event
    handleAll event rest

def publish (handlers : Handlers T H) (event : Event) : m (Handlers T H) := do
  let (found,handlers) := getitem handlers (typeOf event)
  handleAll handle event found
  return handlers

def run (handlers : Handlers T H) : List (Call Session T H Event) → m (Handlers T H)
  | [] => pure handlers
  | .subscribe eventType handler :: rest => run (subscribe o.cls handlers eventType handler) rest
  | .publish event :: rest => do
    let handlers ← publish typeOf handle handlers event
    run handlers rest
  | .registerEventHandlers db :: rest => run (registerEventHandlers o type handlers db) rest

def deliver : List (Event × List H) → m Unit
  | [] => pure ()
  | (event,handlers) :: rest => do
    handleAll handle event handlers
    deliver rest

end Effects

section Meaning

def registrations : List (EventType × HandlerClass) :=
  [(.loanCreated,.loanCreatedNotificationHandler),(.loanReturned,.loanReturnedNotificationHandler),
    (.loanCancelled,.loanCancelledNotificationHandler),(.reservationCreated,.reservationCreatedNotificationHandler),
    (.reservationCancelled,.reservationCancelledNotificationHandler)]

def subscriptions : Call Session T H Event → List (T × H)
  | .subscribe eventType handler => [(eventType,handler)]
  | .publish _ => []
  | .registerEventHandlers db => registrations.map fun r => (type r.1,o.build r.2 db)

def subscribes : Call Session T H Event → Bool
  | .publish _ => false
  | _ => true

def subscribedFor (eventType : T) (made : List (T × H)) : List H :=
  (made.filter fun s => s.1 = eventType).map Prod.snd

def deliveries (made : List (T × H)) : List (Call Session T H Event) → List (Event × List H)
  | [] => []
  | .publish event :: rest => (event,firsts o.cls (subscribedFor (typeOf event) made)) :: deliveries made rest
  | call :: rest => deliveries (made ++ subscriptions o type call) rest

def registeredOnce (done : Bool) : List (Call Session T H Event) → List (Call Session T H Event)
  | [] => []
  | .registerEventHandlers db :: rest =>
    if done then registeredOnce true rest else .registerEventHandlers db :: registeredOnce true rest
  | call :: rest => call :: registeredOnce done rest

variable {made more : List (T × H)} {handlers : Handlers T H} {k t : T} {h : H}

omit [DecidableEq C] in
theorem subscribedAppend : subscribedFor t (made ++ more) = subscribedFor t made ++ subscribedFor t more := by
  rw [subscribedFor,List.filter_append,List.map_append]
  rfl

def Holds (handlers : Handlers T H) (made : List (T × H)) : Prop :=
  ∀ t, called handlers t = firsts o.cls (subscribedFor t made)

variable {o}

theorem holdsEmpty : Holds o (.empty : Handlers T H) [] := fun _ => rfl

theorem holdsTouched (holds : Holds o handlers made) : Holds o (getitem handlers k).2 made :=
  fun t => calledTouched.trans (holds t)

theorem holdsSubscribe (holds : Holds o handlers made) : Holds o (subscribe o.cls handlers k h) (made ++ [(k,h)]) := by
  intro t
  rw [calledSubscribe,subscribedAppend]
  by_cases here : t = k
  · subst here
    have one : subscribedFor t [(t,h)] = [h] := by simp [subscribedFor]
    have known : o.cls h ∈ (called handlers t).map o.cls ↔ o.cls h ∈ (subscribedFor t made).map o.cls := by
      rw [holds t]
      exact firstsClasses o.cls _ _
    rw [one,firstsSnoc,← holds t]
    by_cases there : o.cls h ∈ (called handlers t).map o.cls
    · rw [if_neg fun new => new.2 there,if_pos (known.mp there)]
    · rw [if_pos ⟨rfl,there⟩,if_neg fun old => there (known.mpr old)]
  · have none : subscribedFor t [(k,h)] = [] := by simp [subscribedFor,Ne.symm here]
    rw [if_neg fun new => here new.1,none,List.append_nil]
    exact holds t

theorem holdsAll (holds : Holds o handlers made) (more : List (T × H)) :
    Holds o (more.foldl (fun table s => subscribe o.cls table s.1 s.2) handlers) (made ++ more) := by
  induction more generalizing handlers made with
  | nil => rwa [List.append_nil]
  | cons s rest ih =>
    have next := ih (holdsSubscribe (k := s.1) (h := s.2) holds)
    rwa [List.append_assoc] at next

theorem registeredInOrder (handlers : Handlers T H) (db : Session) : registerEventHandlers o type handlers db =
    (registrations.map fun r => (type r.1,o.build r.2 db)).foldl (fun table s => subscribe o.cls table s.1 s.2) handlers := by
  simp only [registerEventHandlers,registrations,List.map_cons,List.map_nil,List.foldl_cons,List.foldl_nil]

theorem holdsStep (holds : Holds o handlers made) (call : Call Session T H Event) :
    Holds o (step o type typeOf handlers call) (made ++ subscriptions o type call) := by
  cases call with
  | subscribe eventType handler => exact holdsSubscribe holds
  | publish event =>
    rw [subscriptions,List.append_nil]
    exact holdsTouched holds
  | registerEventHandlers db =>
    rw [step,registeredInOrder]
    exact holdsAll holds _

theorem holdsAfter (holds : Holds o handlers made) (calls : List (Call Session T H Event)) :
    Holds o (calls.foldl (step o type typeOf) handlers) (made ++ calls.flatMap (subscriptions o type)) := by
  induction calls generalizing handlers made with
  | nil => rwa [List.flatMap_nil,List.append_nil]
  | cons call rest ih =>
    have next := ih (holdsStep type typeOf holds call)
    rwa [List.append_assoc] at next

def Registered (o : Classes Session H C) (made : List (T × H)) : Prop :=
  ∀ r ∈ registrations, o.classOf r.2 ∈ (subscribedFor (type r.1) made).map o.cls

omit [DecidableEq C] in
theorem registeredThen (db : Session) : Registered type o (made ++ subscriptions o type (.registerEventHandlers db : Call Session T H Event)) := by
  intro r mem
  rw [subscribedAppend,List.map_append]
  refine List.mem_append_right _ (List.mem_map.mpr ⟨o.build r.2 db,?_,o.built _ _⟩)
  exact List.mem_map.mpr ⟨_,List.mem_filter.mpr ⟨List.mem_map_of_mem mem,decide_eq_true rfl⟩,rfl⟩

omit [DecidableEq C] in
theorem registeredStill (held : Registered type o made) : Registered type o (made ++ more) := by
  intro r mem
  rw [subscribedAppend,List.map_append]
  exact List.mem_append_left _ (held r mem)

theorem registeredAgain (held : Registered type o made) (db : Session) (t : T) :
    firsts o.cls (subscribedFor t (made ++ subscriptions o type (.registerEventHandlers db : Call Session T H Event))) =
      firsts o.cls (subscribedFor t made) := by
  rw [subscribedAppend]
  refine firstsAgain o.cls fun z mem => ?_
  obtain ⟨s,inside,rfl⟩ := List.mem_map.mp mem
  obtain ⟨listed,here⟩ := List.mem_filter.mp inside
  obtain ⟨r,registered,rfl⟩ := List.mem_map.mp listed
  rw [o.built,← of_decide_eq_true here]
  exact held r registered

/- The two sequences differ in registrations that add nothing, so the firsts stay the same. -/
theorem deliveriesOnce {made' : List (T × H)} {done : Bool}
    (same : ∀ t, firsts o.cls (subscribedFor t made) = firsts o.cls (subscribedFor t made'))
    (held : done = true → Registered type o made) (calls : List (Call Session T H Event)) :
    deliveries o type typeOf made calls = deliveries o type typeOf made' (registeredOnce done calls) := by
  induction calls generalizing made made' done with
  | nil => rfl
  | cons call rest ih =>
    cases call with
    | publish event =>
      rw [registeredOnce,deliveries,deliveries,same,ih same held]
      nofun
    | subscribe eventType handler =>
      rw [registeredOnce,deliveries,deliveries]
      · refine ih (fun t => ?_) fun known => registeredStill type (held known)
        rw [subscribedAppend,subscribedAppend]
        exact firstsAppend o.cls (same t) _
      all_goals nofun
    | registerEventHandlers db =>
      rw [registeredOnce,deliveries]
      · split
        · rename_i known
          exact ih (fun t => (registeredAgain type (held known) db t).trans (same t)) fun _ => registeredStill type (held known)
        · rw [deliveries]
          · refine ih (fun t => ?_) fun _ => registeredThen type db
            rw [subscribedAppend,subscribedAppend]
            exact firstsAppend o.cls (same t) _
          · nofun
      · nofun

omit [DecidableEq T] [DecidableEq C] in
theorem notPublished (calls : List (Call Session T H Event)) :
    (calls.filter subscribes).flatMap (subscriptions o type) = calls.flatMap (subscriptions o type) := by
  induction calls with
  | nil => rfl
  | cons call rest ih => cases call <;> simp [List.filter_cons,subscribes,subscriptions,ih]

end Meaning

section Delivering
variable {m : Type → Type u} [Monad m] [LawfulMonad m] (handle : H → Event → m Unit) {o} {made : List (T × H)}
  {handlers : Handlers T H}

omit [LawfulMonad m] in
theorem publishHolds (holds : Holds o handlers made) (event : Event) : publish typeOf handle handlers event = (do
    handleAll handle event (firsts o.cls (subscribedFor (typeOf event) made))
    return (getitem handlers (typeOf event)).2) := by
  rw [← holds (typeOf event)]
  rfl

theorem runDelivers (holds : Holds o handlers made) (calls : List (Call Session T H Event)) :
    run o type typeOf handle handlers calls = (do
      deliver handle (deliveries o type typeOf made calls)
      return calls.foldl (step o type typeOf) handlers) := by
  induction calls generalizing handlers made with
  | nil => rw [run,deliveries,deliver,pure_bind,List.foldl_nil]
  | cons call rest ih =>
    have next := ih (holdsStep type typeOf holds call)
    rw [List.foldl_cons]
    cases call with
    | publish event =>
      rw [subscriptions,List.append_nil,step] at next
      rw [run,publishHolds typeOf handle holds,deliveries,deliver,step]
      simp only [bind_assoc,pure_bind,next]
    | subscribe eventType handler =>
      rw [step] at next ⊢
      rw [run,next,deliveries]
      nofun
    | registerEventHandlers db =>
      rw [step] at next ⊢
      rw [run,next,deliveries]
      nofun

omit [LawfulMonad m] in
theorem classesOnce (calls : List (Call Session T H Event)) (made : List (T × H)) :
    ∀ d ∈ deliveries o type typeOf made calls, (d.2.map o.cls).Nodup := by
  induction calls generalizing made with
  | nil => exact fun _ none => absurd none List.not_mem_nil
  | cons call rest ih =>
    cases call with
    | publish event =>
      rw [deliveries]
      intro d mem
      rcases List.mem_cons.mp mem with rfl | later
      · exact firstsUnique o.cls _
      · exact ih made d later
    | subscribe eventType handler =>
      rw [deliveries]
      · exact ih _
      · nofun
    | registerEventHandlers db =>
      rw [deliveries]
      · exact ih _
      · nofun

/-- For all calls on a fresh bus, whatever the handlers do: each publication calls the
handlers that were the first of their class to be subscribed for the type of its event
before it, in that order and each once; the publications in between do not matter, and
neither do the registrations after the first. -/
theorem eventsDelivered (calls : List (Call Session T H Event)) :
    run o type typeOf handle .empty calls = (do
      deliver handle (deliveries o type typeOf [] calls)
      return calls.foldl (step o type typeOf) .empty) ∧
    (∀ before event rest, calls = before ++ .publish event :: rest →
      called (before.foldl (step o type typeOf) .empty) (typeOf event) =
        firsts o.cls (subscribedFor (typeOf event) (before.flatMap (subscriptions o type)))) ∧
    (∀ d ∈ deliveries o type typeOf [] calls, (d.2.map o.cls).Nodup) ∧
    (∀ t, called (calls.foldl (step o type typeOf) .empty) t =
      called ((calls.filter subscribes).foldl (step o type typeOf) .empty) t) ∧
    deliveries o type typeOf [] calls = deliveries o type typeOf [] (registeredOnce false calls) ∧
    Functor.discard (run o type typeOf handle .empty calls) =
      Functor.discard (run o type typeOf handle .empty (registeredOnce false calls)) := by
  have once : deliveries o type typeOf [] calls = deliveries o type typeOf [] (registeredOnce false calls) :=
    deliveriesOnce type typeOf (fun _ => rfl) (fun done => by contradiction) calls
  refine ⟨runDelivers type typeOf handle holdsEmpty calls,fun before event _ _ => ?_,classesOnce type typeOf calls [],fun t => ?_,once,?_⟩
  · exact holdsAfter type typeOf holdsEmpty before (typeOf event)
  · rw [holdsAfter type typeOf holdsEmpty calls t,holdsAfter type typeOf holdsEmpty _ t,notPublished]
  · rw [runDelivers type typeOf handle holdsEmpty calls,runDelivers type typeOf handle holdsEmpty _,once]
    simp only [Functor.discard,map_const,Function.comp_apply,Function.const_apply,map_bind,map_pure]

end Delivering
end Calls

section Pairs
variable {T H C Event : Type} [DecidableEq T] [DecidableEq C] {m : Type → Type 1} [Monad m] {cls : H → C}
  {object : H → EventBus.Handler C Event m} {bus : EventBus.Bus T C Event m} {handlers : Handlers T H}

def Paired (object : H → EventBus.Handler C Event m) (bus : EventBus.Bus T C Event m) (handlers : Handlers T H) : Prop :=
  ∀ t, (bus.handlers.filter fun h => h.1 == t).map Prod.snd = (called handlers t).map object

omit [Monad m] in
theorem pairedSubscribe (same : ∀ h, (object h).cls = cls h) (paired : Paired object bus handlers) (k : T) (h : H) :
    Paired object (EventBus.subscribe bus k (object h)) (subscribe cls handlers k h) := by
  have known : bus.handlers.any (fun x => x.1 == k && x.2.cls == (object h).cls) = true ↔ cls h ∈ (called handlers k).map cls := by
    have classes : (called handlers k).map cls = ((bus.handlers.filter fun x => x.1 == k).map Prod.snd).map EventBus.Handler.cls := by
      rw [paired k,List.map_map]
      exact List.map_congr_left fun x _ => (same x).symm
    rw [classes,List.any_eq_true,same]
    simp only [List.map_map,List.mem_map,List.mem_filter,Function.comp_apply,Bool.and_eq_true,beq_iff_eq,and_assoc]
  intro t
  rw [calledSubscribe]
  unfold EventBus.subscribe
  by_cases there : cls h ∈ (called handlers k).map cls
  · rw [if_pos (known.mpr there),if_neg fun new => new.2 there]
    exact paired t
  · rw [if_neg fun old => there (known.mp old)]
    by_cases here : t = k
    · rw [if_pos ⟨here,there⟩,here,List.filter_append,List.map_append,paired k,List.map_append]
      simp
    · rw [if_neg fun new => here new.1,List.filter_append,List.map_append,paired t]
      simp [Ne.symm here]

omit [DecidableEq C] in
theorem pairedPublish (paired : Paired object bus handlers) (typeOf : Event → T) (event : Event) :
    EventBus.publish bus typeOf event = handleAll (fun h => (object h).handle) event (called handlers (typeOf event)) := by
  have delivered (pairs : List (T × EventBus.Handler C Event m)) (found : List H) (alike : pairs.map Prod.snd = found.map object) :
      EventBus.deliver pairs event = handleAll (fun h => (object h).handle) event found := by
    induction pairs generalizing found with
    | nil =>
      rw [List.map_nil,eq_comm,List.map_eq_nil_iff] at alike
      rw [alike]
      rfl
    | cons p rest ih =>
      cases found with
      | nil => contradiction
      | cons h others =>
        obtain ⟨head,tail⟩ := List.cons.inj alike
        rw [EventBus.deliver,handleAll,ih others tail,head]
  exact delivered _ _ (paired (typeOf event))

end Pairs

section Service
open NotificationHandlers

def serviceClasses : Classes Unit HandlerClass HandlerClass := ⟨id,fun c _ => c,id,fun _ _ => rfl⟩

def handlerOf : HandlerClass → EventHandler
  | .loanCreatedNotificationHandler => loanCreatedNotificationHandler
  | .loanReturnedNotificationHandler => loanReturnedNotificationHandler
  | .loanCancelledNotificationHandler => loanCancelledNotificationHandler
  | .reservationCreatedNotificationHandler => reservationCreatedNotificationHandler
  | .reservationCancelledNotificationHandler => reservationCancelledNotificationHandler

theorem requestBusPaired : Paired handlerOf requestBus (registerEventHandlers serviceClasses id .empty ()) := by
  have same (c : HandlerClass) : (handlerOf c).cls = serviceClasses.cls c := by cases c <;> rfl
  have start : Paired handlerOf (EventBus.empty : ServiceBus) .empty := fun _ => rfl
  have created := pairedSubscribe same start .loanCreated .loanCreatedNotificationHandler
  have returned := pairedSubscribe same created .loanReturned .loanReturnedNotificationHandler
  have cancelled := pairedSubscribe same returned .loanCancelled .loanCancelledNotificationHandler
  have reserved := pairedSubscribe same cancelled .reservationCreated .reservationCreatedNotificationHandler
  exact pairedSubscribe same reserved .reservationCancelled .reservationCancelledNotificationHandler

theorem publishedThroughTable (event : DomainEvent) : NotificationHandlers.publish event =
    handleAll (fun c => (handlerOf c).handle) event (called (registerEventHandlers serviceClasses id .empty ()) event.type) :=
  pairedPublish requestBusPaired DomainEvent.type event

end Service

section Samples

def notingClasses : Classes Nat (HandlerClass × Nat) HandlerClass := ⟨Prod.fst,fun c db => (c,db),id,fun _ _ => rfl⟩

def noting (h : HandlerClass × Nat) (event : EventType) : StateM (List ((HandlerClass × Nat) × EventType)) Unit :=
  modify fun log => log ++ [(h,event)]

def registeredTwice : List (Call Nat EventType (HandlerClass × Nat) EventType) :=
  [.publish .loanCreated,.registerEventHandlers 1,.publish .loanCreated,.registerEventHandlers 2,
    .subscribe .loanCreated (.loanReturnedNotificationHandler,3),.subscribe .loanCreated (.loanCreatedNotificationHandler,4),
    .publish .loanCreated,.publish .loanCancelled]

theorem firstSessionNotes : ((run notingClasses id id noting .empty registeredTwice).run []).2 =
    [((.loanCreatedNotificationHandler,1),.loanCreated),((.loanCreatedNotificationHandler,1),.loanCreated),
      ((.loanReturnedNotificationHandler,3),.loanCreated),((.loanCancelledNotificationHandler,1),.loanCancelled)] := by
  rw [(eventsDelivered id id noting registeredTwice).1]
  decide

end Samples
end LibraryApi.EventDelivery
