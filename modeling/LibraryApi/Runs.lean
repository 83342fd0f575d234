import LibraryApi.RelyRules
import LibraryApi.ServiceRules

/-! Runs of the service: requests served one after another, and pools of clients
whose awaits interleave in any order. Either way the committed history is a path
of allowed effects; what differs is how fresh an unlocked read is at the commit. -/
namespace LibraryApi.Runs
open Models CacheService Requests Effects ServiceRules
open Program (mine mineCons Path Rooted seenLast seenIn stateAfter clockAfter firstCommit Env)

def settled (d : Database) (x : Cache) (t : Int) : World := ⟨d,fun _ => none,x,t,[]⟩

theorem countedSame {α : Type} {p : α → Bool} {xs : List α} (once : xs.countP p ≤ 1) {a b : α}
    (ha : a ∈ xs) (hb : b ∈ xs) (left : p a = true) (right : p b = true) : a = b := by
  rw [List.countP_eq_length_filter] at once
  have ha' := List.mem_filter.mpr ⟨ha,left⟩
  have hb' := List.mem_filter.mpr ⟨hb,right⟩
  rcases Nat.le_one_iff_eq_zero_or_eq_one.mp once with none | one
  · rw [List.length_eq_zero_iff.mp none] at ha'; contradiction
  · obtain ⟨x,one⟩ := List.length_eq_one_iff.mp one
    rw [one] at ha' hb'
    rw [List.mem_singleton.mp ha',List.mem_singleton.mp hb']

theorem firstEffect {seen : Log → Int → Seen} {requests : Nat → Option Request} {d : Database}
    {t : Int} {h l : Log} {m : Commit} {j : Nat} {r : Request}
    (path : Path (allowed seen requests) d t h) (own : mine j h = l ++ [m])
    (sent : requests j = some r) : m ∈ h ∧ m.client = j ∧ Program.execAll m.writes m.before = .ok m.after ∧
      ∃ seen, Effect seen [] m.before r m.writes := by
  obtain ⟨after,rest,rfl,client,first,tail⟩ := firstCommit path own
  refine ⟨by simp,client,?_⟩
  cases tail with
  | commit _ before ran _ effect =>
    obtain ⟨r',sent',e⟩ := effect
    rw [client] at sent' e
    rw [first] at e
    cases Option.some.inj (sent.symm.trans sent')
    exact ⟨ran,_,e⟩

theorem latestEffect {seen : Log → Int → Seen} {requests : Nat → Option Request} {d : Database}
    {t : Int} {h earlier : Log} {m : Commit} {j : Nat} {r : Request}
    (path : Path (allowed seen requests) d t h) (own : mine j h = m :: earlier)
    (sent : requests j = some r) : ∃ seen, Effect seen earlier m.before r m.writes := by
  induction path with
  | start => contradiction
  | @commit c h rest before ran clock effect ih =>
    rw [mineCons] at own
    split at own
    · rename_i client
      obtain ⟨rfl,rfl⟩ := List.cons.inj own
      obtain ⟨r',sent',e⟩ := effect
      rw [client] at sent' e
      cases Option.some.inj (sent.symm.trans sent')
      exact ⟨_,e⟩
    · exact ih own

section Alone
variable {α : Type} {k : Nat} {c : ServiceRules.Contract} {respond : α → Response} {w : World}
  {env : Oracle} {ok : Response → List Write → World → Prop} {err : ApiError → World → Prop}

theorem endedLock {loanId : String} {loan : LoanModel} {e : ApiError} {f : LoanModel → Service α}
    (found : w.db.loans.find loanId = some loan) (active : loan.status = .active)
    (rest : Program.Ended c ok err (Program.alone k (answer respond (f loan)) []
      (w.acquire k [.loan loan.id]) fun n => env (n+1))) :
    Program.Ended c ok err (Program.alone k (answer respond (do
      let loan ← require e (← Repositories.LoanRepository.findActiveByIdForUpdate loanId)
      f loan)) [] w env) := by
  have row : (w.db.loans.find loanId).filter (fun l => l.status == .active) = some loan := by
    rw [found]; simp [active]
  show Program.Ended c ok err (Program.alone k (Repositories.LoanRepository.findActiveByIdForUpdate loanId >>= fun row =>
    answer respond (require e row >>= f)) [] w env)
  rw [Repositories.LoanRepository.findActiveByIdForUpdate,Program.aloneLock row]
  exact rest

theorem endedNow {pending : List Write} {f : Int → Service α}
    (rest : Program.Ended c ok err (Program.alone k (answer respond (f (w.clock + (env 0).elapsed))) pending
      {w with clock := w.clock + (env 0).elapsed} fun n => env (n+1))) :
    Program.Ended c ok err (Program.alone k (answer respond (do
      let t ← Program.now
      f t)) pending w env) := rest

end Alone

section Sequential

def requestsOf (calls : List (Request × Oracle)) (k : Nat) : Option Request :=
  (calls[k]?).map Prod.fst

theorem requestsEarlier {calls : List (Request × Oracle)} {call : Request × Oracle} {k : Nat}
    {r : Request} (sent : requestsOf calls k = some r) : requestsOf (calls ++ [call]) k = some r := by
  unfold requestsOf at sent ⊢
  obtain ⟨x,hx,rfl⟩ := Option.map_eq_some_iff.mp sent
  rw [List.getElem?_append_left (List.getElem?_eq_some_iff.mp hx).1,hx]; rfl

theorem requestsLast (calls : List (Request × Oracle)) (r : Request) (env : Oracle) :
    requestsOf (calls ++ [(r,env)]) calls.length = some r := by simp [requestsOf]

/-- Paths of requests served one after another, from the database `d` at `t`. -/
abbrev SequentialPath (requests : Nat → Option Request) (d : Database) (t : Int) : Log → Prop :=
  Path (allowed (seenLast d t) requests) d t

structure Reached (requests : Nat → Option Request) (d : Database) (t : Int) (k : Nat) (w : World) :
    Prop where
  path : SequentialPath requests d t w.history
  root : Rooted d t w
  fresh : ∀ m ∈ w.history, m.client < k

theorem reachedIdle {requests d t k w} (h : Reached requests d t k w) : mine k w.history = [] := by
  refine List.filter_eq_nil_iff.mpr fun m mem => ?_
  have := h.fresh m mem
  simp only [beq_iff_eq]
  omega

theorem reachedLater {requests d t k w w'} (h : Reached requests d t k w)
    (later : Program.Quiet k w w') : Reached requests d t k w' := by
  refine ⟨by rw [later.history]; exact h.path,⟨by rw [later.db,later.history]; exact h.root.db,?_⟩,
    by rw [later.history]; exact h.fresh⟩
  rw [later.history]
  exact Int.le_trans h.root.clock later.clock

def aloneAs (seen : Log → Int → Seen) (k : Nat) (r : Request) (admits : Answer → Prop) : Contract :=
  Program.still k admits fun h m => Effect (seen h m.clock) (mine k h) m.before r m.writes

structure ServedAs (admits : Answer → Prop) (k : Nat) (r : Request) (w w' : World)
    (result : Except ApiError Response) : Prop where
  own : ∃ later, w'.history = later ++ w.history ∧ (∀ m ∈ later, m.client = k) ∧
    mine k w'.history = later
  clock : w.clock ≤ w'.clock
  ended : match result with
    | .ok answer => Completed r answer (mine k w'.history)
    | .error e => Failed admits e (mine k w'.history)

theorem serveReached {requests d t k w r} {env : Oracle} {A : Answer → Prop}
    (h : Reached requests d t k w) (sent : requests k = some r) (admitted : ∀ n, A (env n).answer) :
    Reached requests d t (k+1) (serve k r w env).2 ∧
      ServedAs A k r w (serve k r w env).2 (serve k r w env).1 := by
  let c := aloneAs (seenLast d t) k r A
  have serving : Serving (seenLast d t) c r w := by
    refine ⟨Program.stillFair,reachedIdle h,fun h' m client effect => ?_,?_⟩
    · exact effect
    · exact Program.stillWitnessed h.root
  have run : Program.Served c _ _ (allowed (seenLast d t) requests) d t w (serve k r w env) :=
    Program.aloneSound (fun w => Program.Quiet.refl k w)
      (fun h' m client effect => ⟨r,by rw [show m.client = k from client]; exact sent,
        by rw [show m.client = k from client]; exact effect⟩)
      admitted h.path h.root (handleRule serving)
  obtain ⟨later,grown,others⟩ := run.own
  replace grown : (serve k r w env).2.history = later ++ w.history := grown
  replace others : ∀ m ∈ later, m.client = k := others
  have own : mine k (serve k r w env).2.history = later := by
    rw [grown]
    have kept : later.filter (fun m => m.client == k) = later :=
      List.filter_eq_self.mpr fun m mem => by simpa using others m mem
    rw [mine,List.filter_append,kept,show w.history.filter _ = [] from reachedIdle h,List.append_nil]
  refine ⟨⟨run.path,run.root,fun m mem => ?_⟩,⟨later,grown,others,own⟩,run.clock,?_⟩
  · rw [grown] at mem
    rcases List.mem_append.mp mem with new | old
    · rw [others m new]; exact Nat.lt_succ_self k
    · exact Nat.lt_succ_of_lt (h.fresh m old)
  · have ended := run.ended
    cases outcome : serve k r w env with
    | mk result last =>
      rw [outcome] at ended
      cases result with
      | ok answer => obtain ⟨_,w',post,rfl⟩ := ended; exact post
      | error e => obtain ⟨w',post,rfl⟩ := ended; exact post

theorem serveAny {requests d t k w r} (h : Reached requests d t k w) (sent : requests k = some r)
    (env : Oracle) : Reached requests d t (k+1) (serve k r w env).2 ∧
      ServedAs (fun _ => True) k r w (serve k r w env).2 (serve k r w env).1 :=
  serveReached h sent fun _ => trivial

theorem servedOnce {requests d t k w r} {env : Oracle} {main : Commit} (h : Reached requests d t k w)
    (sent : requests k = some r) (own : mine k (serve k r w env).2.history = [main]) :
    (serve k r w env).2.history = main :: w.history ∧ main.client = k ∧ main.before = w.db ∧
      Effect (seenLast d t w.history main.clock) [] w.db r main.writes ∧
      Program.execAll main.writes w.db = .ok (serve k r w env).2.db := by
  obtain ⟨last,served⟩ := serveAny h sent env
  obtain ⟨later,grown,clients,own'⟩ := served.own
  obtain rfl : later = [main] := own'.symm.trans own
  rw [List.cons_append,List.nil_append] at grown
  have path := last.path
  have final := last.root.db
  rw [grown] at path final
  have client : main.client = k := clients main (by simp)
  cases path with
  | commit _ before ran _ effect =>
    obtain ⟨r',sent',e⟩ := effect
    rw [client] at sent' e
    cases Option.some.inj (sent.symm.trans sent')
    have found : main.before = w.db := before.trans h.root.db.symm
    rw [reachedIdle h,found] at e
    exact ⟨grown,client,found,e,by rw [final,← found]; exact ran⟩

theorem servedTwice {requests d t k w r} {env : Oracle} {note main : Commit}
    (h : Reached requests d t k w) (sent : requests k = some r)
    (own : mine k (serve k r w env).2.history = [note,main]) :
    (serve k r w env).2.history = note :: main :: w.history ∧ main.client = k ∧
      main.before = w.db ∧ Program.execAll main.writes w.db = .ok main.after ∧
      Effect (seenLast d t w.history main.clock) [] w.db r main.writes ∧
      ∃ n, note.writes = [.insertNotification n] ∧ Announces r main.writes n ∧
        Program.execAll note.writes main.after = .ok (serve k r w env).2.db := by
  obtain ⟨last,served⟩ := serveAny h sent env
  obtain ⟨later,grown,clients,own'⟩ := served.own
  obtain rfl : later = [note,main] := own'.symm.trans own
  rw [List.cons_append,List.cons_append,List.nil_append] at grown
  have path := last.path
  have final := last.root.db
  rw [grown] at path final
  have client : main.client = k := clients main (by simp)
  cases path with
  | commit rest before ran _ effect =>
    cases rest with
    | commit _ before' ran' _ effect' =>
      obtain ⟨r₁,sent₁,e₁⟩ := effect'
      obtain ⟨r₂,sent₂,e₂⟩ := effect
      rw [client] at sent₁ e₁
      rw [clients note (by simp)] at sent₂ e₂
      cases Option.some.inj (sent.symm.trans sent₁)
      cases Option.some.inj (sent.symm.trans sent₂)
      have found : main.before = w.db := before'.trans h.root.db.symm
      rw [reachedIdle h,found] at e₁
      have second : mine k (main :: w.history) = [main] := by
        rw [mineCons,if_pos client,reachedIdle h]
      obtain ⟨_,n,same,writes,about⟩ := secondEffect e₂ (by rw [second]; nofun)
      cases second.symm.trans same
      refine ⟨grown,client,found,found ▸ ran',e₁,n,writes,about,?_⟩
      rw [final,show main.after = note.before from before.symm]
      exact ran

theorem answeredTwice {requests d t k w r} {env : Oracle} {answer : Response}
    (h : Reached requests d t k w) (sent : requests k = some r) (two : commitsOf r = 2)
    (done : (serve k r w env).1 = .ok answer) :
    ∃ note main, mine k (serve k r w env).2.history = [note,main] := by
  have ended := (serveAny h sent env).2.ended
  rw [done] at ended
  exact List.length_eq_two.mp (ended.length.trans two)

inductive Whole (requests : Nat → Option Request) (d : Database) (t : Int) (w : World) (r : Request) :
    Database → Prop where
  | nothing : Whole requests d t w r w.db
  | once {main : Commit} {after} (one : commitsOf r = 1)
      (effect : Effect (seenLast d t w.history main.clock) [] w.db r main.writes)
      (ran : Program.execAll main.writes w.db = .ok after) : Whole requests d t w r after
  | twice {main : Commit} {n after} (two : commitsOf r = 2)
      (effect : Effect (seenLast d t w.history main.clock) [] w.db r main.writes)
      (ran : Program.execAll main.writes w.db = .ok main.after)
      (about : Announces r main.writes n)
      (note : Program.execAll ([.insertNotification n] : List Write) main.after = .ok after) :
      Whole requests d t w r after

theorem servedNever {requests d t k w r} {env : Oracle} (h : Reached requests d t k w)
    (sent : requests k = some r) (none : mine k (serve k r w env).2.history = []) :
    (serve k r w env).2.db = w.db := by
  obtain ⟨last,served⟩ := serveAny h sent env
  obtain ⟨later,grown,_,own⟩ := served.own
  obtain rfl : later = [] := own.symm.trans none
  rw [last.root.db,grown,h.root.db]; rfl

theorem failedNever {requests d t k w r} {env : Oracle} {e : ApiError} (h : Reached requests d t k w)
    (sent : requests k = some r) (up : ∀ n, (env n).answer.redisUp = true)
    (failed : (serve k r w env).1 = .error e) : (serve k r w env).2.db = w.db := by
  have ended := (serveReached (A := fun a => a.redisUp = true) h sent up).2.ended
  rw [failed] at ended
  rcases ended with none | ⟨_,a,admitted,down⟩
  · exact servedNever h sent none
  · rw [admitted] at down; contradiction

theorem servedWhole {requests d t k w r} {env : Oracle} (h : Reached requests d t k w)
    (sent : requests k = some r) (up : ∀ n, (env n).answer.redisUp = true) :
    Whole requests d t w r (serve k r w env).2.db := by
  have ended := (serveReached (A := fun a => a.redisUp = true) h sent up).2.ended
  cases answer : (serve k r w env).1 with
  | error e => rw [failedNever h sent up answer]; exact .nothing
  | ok a =>
    rw [answer] at ended
    have length := ended.length
    match own : mine k (serve k r w env).2.history with
    | [] => rw [servedNever h sent own]; exact .nothing
    | [main] =>
      rw [own] at length
      obtain ⟨_,_,_,e,ran⟩ := servedOnce h sent own
      exact .once length.symm e ran
    | [note,main] =>
      rw [own] at length
      obtain ⟨_,_,_,ran,e,n,writes,about,final⟩ := servedTwice h sent own
      rw [writes] at final
      exact .twice length.symm e ran about final
    | _ :: _ :: _ :: _ =>
      rw [own] at length
      cases r <;> simp [commitsOf] at length

theorem reachedEnded {requests d t k w} {α : Type} {c : Contract} {p : Service α}
    {pending : List Write} {env : Oracle} {ok : α → List Write → World → Prop}
    {err : ApiError → World → Prop} (h : Reached requests d t k w) (client : c.client = k)
    (idle : ∀ w, c.rely w w) (admitted : ∀ n, c.admits (env n).answer)
    (rule : Program.wp c ok err p pending w) :
    Program.Ended c ok err (Program.alone k p pending w env) := by
  subst client
  have run : Program.Served c ok err (fun _ _ => True) d t w (Program.alone c.client p pending w env) :=
    Program.aloneSound idle (fun _ _ _ _ => trivial) admitted (h.path.mono fun _ _ _ => trivial) h.root
      rule
  exact run.ended

theorem answerEnded {requests d t k w} {α : Type} {c : Contract} {p : Service α}
    {pending : List Write} {ok : α → List Write → World → Prop} {err : ApiError → World → Prop}
    (respond : α → Response) (env : Oracle) (h : Reached requests d t k w) (client : c.client = k)
    (idle : ∀ w, c.rely w w) (admitted : ∀ n, c.admits (env n).answer)
    (rule : Program.wp c ok err p pending w) :
    match Program.alone k (answer respond p) pending w env with
    | (.ok a,w') => ∃ b pending w₁, a = respond b ∧ ok b pending w₁ ∧ w' = w₁.release k
    | (.error e,w') => ∃ w₁, err e w₁ ∧ w' = w₁.release k := by
  have rule' : Program.wp c (fun a pending w' => ∃ b, a = respond b ∧ ok b pending w') err
      (answer respond p) pending w :=
    Program.wpBind.mpr (Program.wpMono
      (fun b pending' w₁ post => show ∃ b', respond b = respond b' ∧ ok b' pending' w₁ from
        ⟨b,rfl,post⟩) (fun _ _ h => h) rule)
  have ended := reachedEnded (c := c) h client idle admitted rule'
  subst client
  split <;> rename_i outcome <;> rw [show Program.alone c.client _ pending w env = _ from outcome] at ended
  · obtain ⟨pending',w₁,⟨b,same,post⟩,last⟩ := ended
    exact ⟨b,pending',w₁,same,post,last⟩
  · exact ended

theorem answeredPost {requests d t k w} {α : Type} {c : Contract} {r : Request} {p : Service α}
    {P : World → Prop} {respond : α → Response} {env : Oracle} {a : Response}
    (h : Reached requests d t k w) (client : c.client = k) (idle : ∀ w, c.rely w w)
    (admitted : ∀ n, c.admits (env n).answer) (same : handle r = answer respond p)
    (rule : Program.wp c (fun _ _ w' => P (w'.release k)) (fun _ _ => True) p [] w)
    (done : (serve k r w env).1 = .ok a) : P (serve k r w env).2 := by
  have ended := answerEnded respond env h client idle admitted rule
  unfold serve at done ⊢
  rw [same] at done ⊢
  split at ended <;> rename_i outcome <;> rw [outcome] at done ⊢
  · obtain ⟨_,_,w₁,_,post,rfl⟩ := ended; exact post
  · contradiction

theorem openingReached (requests : Nat → Option Request) (t : Int) :
    Reached requests .empty t 0 (opening t) :=
  ⟨.start,⟨rfl,Int.le_refl t⟩,nofun⟩

theorem serveLast (w : World) (calls : List (Request × Oracle)) (r : Request) (env : Oracle) :
    serveAll 0 w (calls ++ [(r,env)]) =
      ((serveAll 0 w calls).1 ++ [⟨r,(serve calls.length r (serveAll 0 w calls).2 env).1⟩],
        (serve calls.length r (serveAll 0 w calls).2 env).2) := by
  rw [serveAllAppend,Nat.zero_add]; rfl

theorem reachedAll {t : Int} {calls : List (Request × Oracle)} {requests : Nat → Option Request}
    (sent : ∀ k r, requestsOf calls k = some r → requests k = some r) :
    Reached requests .empty t calls.length (serveAll 0 (opening t) calls).2 := by
  induction calls using List.reverseRecOn with
  | nil => exact openingReached requests t
  | append_singleton calls call ih =>
    obtain ⟨r,env⟩ := call
    rw [serveLast,List.length_append]
    have before := ih fun k r' found => sent k r' (requestsEarlier found)
    have here : requests calls.length = some r := sent _ r (requestsLast calls r env)
    exact (serveAny before here env).1

theorem servedKeeps {requests d t k w r} {P : Database → Prop} {env : Oracle} (h : Reached requests d t k w)
    (sent : requests k = some r) (start : P w.db)
    (step : ∀ (seen : Seen) own before writes after, (∀ Q, seen Q → ∃ d t, Q d t) → (own = [] → before = w.db) →
      Effect seen own before r writes → Program.execAll writes before = .ok after → P before → P after) :
    P (serve k r w env).2.db := by
  obtain ⟨last,served⟩ := serveAny h sent env
  obtain ⟨later,grown,clients,-⟩ := served.own
  have path := last.path
  have final := last.root.db
  rw [grown] at path final
  rw [final]
  clear final grown
  induction later with
  | nil => exact h.root.db ▸ start
  | cons m rest ih =>
    cases path with
    | commit tail before ran _ effect =>
      obtain ⟨r',sent',e⟩ := effect
      have client : m.client = k := clients m List.mem_cons_self
      have others : ∀ m ∈ rest, m.client = k := fun m mem => clients m (List.mem_cons_of_mem _ mem)
      rw [client] at sent' e
      cases Option.some.inj (sent.symm.trans sent')
      have own : mine k (rest ++ w.history) = rest := by
        have kept : rest.filter (fun m => m.client == k) = rest :=
          List.filter_eq_self.mpr fun m mem => by simpa using others m mem
        rw [mine,List.filter_append,kept,show w.history.filter _ = [] from reachedIdle h,List.append_nil]
      rw [show mine k (rest.append w.history) = rest from own] at e
      refine step _ _ _ _ _ (fun Q held => ?_) (fun first => ?_) e ran (before ▸ ih others tail)
      · obtain ⟨t₀,_,_,held⟩ := held
        exact ⟨_,t₀,held⟩
      · subst first
        exact before.trans h.root.db.symm

theorem runKeeps {P : Database → Prop} {t : Int} {calls : List (Request × Oracle)} (start : P .empty)
    (step : ∀ done r env rest, calls = done ++ (r,env) :: rest → ∀ (seen : Seen) own before writes after,
      (∀ Q, seen Q → ∃ d t, Q d t) → (own = [] → before = (serveAll 0 (opening t) done).2.db) →
      Effect seen own before r writes → Program.execAll writes before = .ok after → P before → P after) :
    P (serveAll 0 (opening t) calls).2.db := by
  induction calls using List.reverseRecOn with
  | nil => exact start
  | append_singleton calls call ih =>
    obtain ⟨r,env⟩ := call
    rw [serveLast]
    have reached : Reached (requestsOf (calls ++ [(r,env)])) .empty t calls.length (serveAll 0 (opening t) calls).2 :=
      reachedAll fun _ _ => requestsEarlier
    refine servedKeeps reached (requestsLast calls r env) (ih fun done r' env' rest same => ?_) (step calls r env [] rfl)
    exact step done r' env' (rest ++ [(r,env)]) (by rw [same,List.append_assoc]; rfl)

end Sequential

section Interleaved

abbrev PoolPath (requests : Nat → Option Request) (d : Database) (t : Int) : Log → Prop :=
  Path (allowed (seenIn d t) requests) d t

def sentBy (requests : Nat → Option Request) (d : Database) (t : Int) (j : Nat) (h : Log)
    (m : Commit) : Prop :=
  ∃ r, requests j = some r ∧ Effect (seenIn d t h m.clock) (mine j h) m.before r m.writes

def answeredBy (requests : Nat → Option Request) (j : Nat) (answer : Response) (own : Log) : Prop :=
  ∀ r, requests j = some r → Completed r answer own

def failedBy (admits : Answer → Prop) (_ : Nat) (e : ApiError) (own : Log) : Prop :=
  Failed admits e own

abbrev PoolGood (requests : Nat → Option Request) (admits : Answer → Prop)
    (G : Database → Database → Prop) (d : Database) (t : Int) : State → Prop :=
  Program.Good G admits (sentBy requests d t) (answeredBy requests) (failedBy admits) d t

theorem beginGood {requests : Nat → Option Request} {admits : Answer → Prop}
    {G : Database → Database → Prop} (refl : ∀ d, G d d)
    (trans : ∀ {a b c}, G a b → G b c → G a c) (d : Database) (x : Cache) (t : Int) :
    PoolGood requests admits G d t (begin (settled d x t) requests) := by
  refine Program.startGood (w := settled d x t) rfl fun j p found => ?_
  obtain ⟨r,sent,rfl⟩ := Option.map_eq_some_iff.mp found
  have serving : Serving (seenIn d t) (Program.pooled j G admits (sentBy requests d t j)) r
      (settled d x t) :=
    ⟨Program.pooledFair refl trans,rfl,fun h m client effect => ⟨r,sent,effect⟩,
      Program.pooledWitnessed (Program.freshRooted (w := settled d x t) rfl)⟩
  refine Program.wpMono (fun a _ w done => ?_) (fun _ _ h => h) (handleRule serving)
  intro r' sent'
  cases Option.some.inj (sent.symm.trans sent')
  exact done

theorem poolGood {requests : Nat → Option Request} {admits : Answer → Prop} (d : Database)
    (x : Cache) (t : Int) (moves : Moves) (admitted : ∀ m ∈ moves, admits m.2.answer) :
    PoolGood requests admits (fun _ _ => True) d t ((begin (settled d x t) requests).run moves) :=
  Program.runGood (fun _ => trivial) (fun _ _ => trivial) (fun _ => trivial)
    (beginGood (fun _ => trivial) (fun _ _ => trivial) d x t) moves admitted

theorem poolPath {requests : Nat → Option Request} (d : Database) (x : Cache) (t : Int) (moves : Moves) :
    let s := (begin (settled d x t) requests).run moves
    PoolPath requests d t s.world.history ∧ s.world.db = stateAfter d s.world.history := by
  have good : PoolGood requests (fun _ => True) (fun _ _ => True) d t
      ((begin (settled d x t) requests).run moves) := poolGood d x t moves fun _ _ => trivial
  exact ⟨good.path,good.root.db⟩

theorem poolRaises {requests : Nat → Option Request} {d : Database} {x : Cache} {t : Int}
    {moves : Moves} {I : Database → Prop} {R : ApiError → Prop} {j : Nat} {r : Request}
    (rule : ∀ w, Program.wp (Program.seeing j I fun _ => True) (fun _ _ _ => True)
      (fun e _ => R e) (handle r) [] w)
    (sent : requests j = some r) (start : I d) {e : ApiError} :
    let s := (begin (settled d x t) requests).run moves
    (∀ m ∈ s.world.history, I m.after) → s.pool j = some (.finished (.error e)) → R e := by
  intro s all failed
  have held : ∀ x, s.pool j = some x →
      Program.Held (Program.seeing j I fun _ => True) (fun _ _ => True) (fun e _ => R e) s.world x := by
    refine Program.runHeld Program.seeingSteady (fun _ _ _ _ h => h) (fun _ _ _ _ h => h) start
      (fun _ _ => trivial) (Program.withinCommitted start all) fun thread found => ?_
    obtain ⟨p,hp,rfl⟩ := Option.map_eq_some_iff.mp found
    obtain ⟨r',sent',rfl⟩ := Option.map_eq_some_iff.mp hp
    cases Option.some.inj (sent.symm.trans sent')
    exact rule _
  exact held _ failed

def succeeded (s : State) (j : Nat) : Bool := match s.pool j with
  | some (.finished (.ok _)) => true
  | _ => false

def finished (s : State) (j : Nat) : Prop := ∃ result, s.pool j = some (.finished result)

instance (s : State) (j : Nat) : Decidable (finished s j) := match found : s.pool j with
  | some (.finished result) => isTrue ⟨result,found⟩
  | some (.running _ _) => isFalse fun ⟨_,h⟩ => by rw [found] at h; cases h
  | none => isFalse fun ⟨_,h⟩ => by rw [found] at h; cases h

theorem finishedWhole {requests : Nat → Option Request} {admits : Answer → Prop}
    {G : Database → Database → Prop} {d : Database} {t : Int} {s : State} {j : Nat} {r : Request}
    (good : PoolGood requests admits G d t s) (up : ∀ a, admits a → a.redisUp = true)
    (sent : requests j = some r) (done : finished s j) :
    mine j s.world.history = [] ∨ (mine j s.world.history).length = commitsOf r := by
  obtain ⟨result,found⟩ := done
  have sound := good.threads j _ found
  cases result with
  | ok answer => exact .inr (sound r sent).length
  | error e =>
    rcases sound with none | ⟨_,a,admitted,down⟩
    · exact .inl none
    · rw [up a admitted] at down; contradiction

theorem succeededCompleted {requests : Nat → Option Request} {admits : Answer → Prop}
    {G : Database → Database → Prop} {d : Database} {t : Int} {s : State} {j : Nat} {r : Request}
    (good : PoolGood requests admits G d t s) (sent : requests j = some r)
    (done : succeeded s j = true) : ∃ answer, Completed r answer (mine j s.world.history) := by
  unfold succeeded at done
  split at done <;> try contradiction
  rename_i answer found
  exact ⟨answer,good.threads j _ found r sent⟩

theorem succeededFirst {requests : Nat → Option Request} {admits : Answer → Prop}
    {G : Database → Database → Prop} {d : Database} {t : Int} {s : State} {j : Nat} {r : Request}
    (good : PoolGood requests admits G d t s) (sent : requests j = some r)
    (done : succeeded s j = true) (commits : commitsOf r ≠ 0) :
    ∃ later m, mine j s.world.history = later ++ [m] := by
  obtain ⟨answer,completed⟩ := succeededCompleted good sent done
  have some : mine j s.world.history ≠ [] := fun none => commits (by
    rw [← completed.length,none]; rfl)
  exact ⟨_,_,(List.dropLast_append_getLast some).symm⟩

end Interleaved

section Samples

def sampleId (n : Nat) : Uuid :=
  ⟨"01970000-0000-7000-8000-00000000000" ++ toString (n % 10),by
    have digits : ∀ i : Fin 10, ("01970000-0000-7000-8000-00000000000" ++ toString i.val).length = 36 ∧
        ("01970000-0000-7000-8000-00000000000" ++ toString i.val).toList.all uuidChar = true := by decide
    exact digits ⟨n % 10,Nat.mod_lt n (by decide)⟩⟩

def sampleAuthor : AuthorModel := ⟨sampleId 1,"Machado de Assis",none,0,true⟩

def sampleUser : UserModel := ⟨sampleId 2,"Ana","ana@example.com","hash",0,true,.user⟩

def sampleBook (copies : Int) : BookModel :=
  ⟨sampleId 3,"Dom Casmurro","9788535910663","Romance",copies,copies,sampleId 1,0,true⟩

def sampleShelf (copies : Int) : Database :=
  {Database.empty with
    users := ⟨[sampleUser],by decide⟩
    authors := ⟨[sampleAuthor],by decide⟩
    books := ⟨[sampleBook copies],by simp⟩}

def tick (n : Nat) : Env Answer := ⟨0,⟨sampleId n,some,true,[],[],id⟩⟩

def borrowing (copies : Int) : List (Request × Oracle) :=
  [(.createAuthor ⟨"Machado de Assis",none⟩,fun _ => tick 1),
    (.createUser ⟨"Ana","ana@example.com","segredo"⟩,fun _ => tick 2),
    (.createBook ⟨"Dom Casmurro","9788535910663","Romance",copies,(sampleId 1).text⟩,fun _ => tick 3),
    (.createLoan ⟨(sampleId 2).text,(sampleId 3).text⟩,fun _ => tick 4)]

def lentOnce : World := (serveAll 0 (opening 0) (borrowing 1)).2

end Samples
end LibraryApi.Runs
