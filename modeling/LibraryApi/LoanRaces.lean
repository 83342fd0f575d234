import LibraryApi.LoanHistory

/-! One loan under concurrent requests that close, renew or pay it. All of them
lock its row while it is ACTIVE, so the first closing that commits is the last;
its notification is a second commit of the same session. -/
namespace LibraryApi.LoanRaces
open Models CacheService KeyedTable Repositories Requests Effects Runs CommittedRows LoanHistory
open Program (execAll Path stateAfter mine mineCons)

def onLoan (k : String) : Request → Bool
  | .returnLoan loanId => loanId == k
  | .cancelLoan loanId => loanId == k
  | .renewLoan loanId => loanId == k
  | .payFine loanId => loanId == k
  | _ => false

structure Stamped (l : LoanModel) : Prop where
  returned : l.status = .returned ↔ l.returnedAt.isSome = true
  cancelled : l.status = .cancelled ↔ l.cancelledAt.isSome = true

def tellsClosing (k : String) (n : NotificationModel) : Bool :=
  (n.type == .loanReturned || n.type == .loanCancelled) && n.loanId.map Uuid.text == some k

def told (d : Database) (k : String) : List NotificationType :=
  (d.notifications.filter (tellsClosing k)).map (fun n => n.type)

def news : LoanStatus → List NotificationType
  | .active => []
  | .returned => [.loanReturned]
  | .cancelled => [.loanCancelled]

structure Consistent (d : Database) (k : String) : Prop where
  absent : d.loans.find k = none → told d k = []
  present : ∀ l, d.loans.find k = some l → Stamped l ∧ told d k = news l.status

section Steps
variable {seen : Seen} {own : Log} {before after : Database} {r : Request} {writes : List Write}
  {k : String} {l l' : LoanModel}

theorem stampedActive (active : l.status = .active) (stamped : Stamped l) :
    l.returnedAt = none ∧ l.cancelledAt = none := by
  have returned := stamped.returned
  have cancelled := stamped.cancelled
  rw [active] at returned cancelled
  simpa using And.intro returned cancelled

theorem stampedStep (step : LoanStep seen k l r l') (stamped : Stamped l) : Stamped l' := by
  cases step with
  | returned active =>
    obtain ⟨_,none⟩ := stampedActive active stamped
    exact ⟨by simp [LoanService.returned],by simp [LoanService.returned,none]⟩
  | cancelled active =>
    obtain ⟨none,_⟩ := stampedActive active stamped
    exact ⟨by simp [LoanService.cancelled,none],by simp [LoanService.cancelled]⟩
  | _ => exact ⟨stamped.returned,stamped.cancelled⟩

theorem stampedNew (id : Uuid) (user : UserModel) (book : BookModel) (now createdAt : Int) :
    Stamped (LoanService.newLoan id user book now createdAt) :=
  ⟨by simp [LoanService.newLoan],by simp [LoanService.newLoan]⟩

theorem mainTells (e : Effect seen [] before r writes) (ran : execAll writes before = .ok after) :
    after.notifications = before.notifications := by
  refine Program.execAllKeeps (R := fun d d' => d'.notifications = d.notifications) (fun _ => rfl)
    (fun {a b c} (x : b.notifications = a.notifications)
      (y : c.notifications = b.notifications) => y.trans x) (fun x mem d d' step => ?_) ran
  cases x with
  | insertNotification n =>
    cases e with
    | deleteAuthor => simp [AuthorRepository.deactivate] at mem
    | notify second => contradiction
    | _ => simp at mem
  | insertUser row => obtain ⟨_,_,_,rfl⟩ := Database.insertUserRan step; rfl
  | insertAuthor row => obtain ⟨_,_,rfl⟩ := Database.insertAuthorRan step; rfl
  | insertBook row => obtain ⟨_,_,_,rfl⟩ := Database.insertBookRan step; rfl
  | insertLoan row => obtain ⟨_,_,rfl⟩ := Database.insertLoanRan step; rfl
  | insertReservation row => obtain ⟨_,_,rfl⟩ := Database.insertReservationRan step; rfl
  | updateUser => obtain rfl := Database.updateUserRan step; rfl
  | updateAuthor => obtain rfl := Database.updateAuthorRan step; rfl
  | updateBook => obtain rfl := Database.updateBookRan step; rfl
  | updateLoan => cases step; rfl
  | updateReservation => cases step; rfl

theorem mainTold (e : Effect seen [] before r writes) (ran : execAll writes before = .ok after)
    (k : String) : told after k = told before k := by
  unfold told; rw [mainTells e ran]

theorem noteTells {n : NotificationModel}
    (ran : execAll ([.insertNotification n] : List Write) before = .ok after) :
    after.loans = before.loans ∧
      told after k = told before k ++ if tellsClosing k n then [n.type] else [] := by
  cases ran
  refine ⟨rfl,?_⟩
  simp only [told,List.filter_append,List.map_append]
  split <;> rename_i tells <;> simp [tells]

theorem closingTold {status : LoanStatus} {n : NotificationModel}
    (e : Effect seen [] before r writes) (exit : Exits k r status) (about : Announces r writes n) :
    (if tellsClosing k n then [n.type] else []) = news status := by
  cases exit with
  | returning =>
    cases e with
    | returnLoan _ found =>
      obtain ⟨_,_,l,_,same,type,id⟩ := about
      have here := (Table.findSound found).2
      simp only [List.cons.injEq,Write.updateLoan.injEq] at same
      obtain ⟨_,⟨rfl,_⟩,_⟩ := same
      simp [tellsClosing,type,id,here,news]
    | notify second => contradiction
  | cancelling =>
    cases e with
    | cancelLoan _ found =>
      obtain ⟨_,_,l,_,same,type,id⟩ := about
      have here := (Table.findSound found).2
      simp only [List.cons.injEq,Write.updateLoan.injEq] at same
      obtain ⟨_,⟨rfl,_⟩,_⟩ := same
      simp [tellsClosing,type,id,here,news]
    | notify second => contradiction

theorem tellingCloses {n : NotificationModel} (e : Effect seen [] before r writes)
    (about : Announces r writes n) (tells : tellsClosing k n = true) : closes k writes = true := by
  have named : n.loanId.map Uuid.text = some k := by simp_all [tellsClosing]
  cases e with
  | returnLoan =>
    obtain ⟨_,_,l,_,same,_,id⟩ := about
    simp only [List.cons.injEq,Write.updateLoan.injEq] at same
    obtain ⟨_,⟨rfl,_⟩,_⟩ := same
    rw [id,Option.map_some,Option.some.injEq] at named
    simp [closes,LoanService.returned,named]
  | cancelLoan =>
    obtain ⟨_,_,l,_,same,_,id⟩ := about
    simp only [List.cons.injEq,Write.updateLoan.injEq] at same
    obtain ⟨_,⟨rfl,_⟩,_⟩ := same
    rw [id,Option.map_some,Option.some.injEq] at named
    simp [closes,LoanService.cancelled,named]
  | createLoan => obtain ⟨_,_,_,_,type,_⟩ := about; simp [tellsClosing,type] at tells
  | createReservation => obtain ⟨_,_,type,_⟩ := about; simp [tellsClosing,type] at tells
  | cancelReservation => obtain ⟨_,_,_,type,_⟩ := about; simp [tellsClosing,type] at tells
  | notify second => contradiction
  | _ => exact about.elim

theorem exitAnnounces {n : NotificationModel} (on : onLoan k r = true)
    (about : Announces r writes n) : ∃ status, Exits k r status := by
  cases r with
  | returnLoan loanId =>
    obtain rfl : loanId = k := by simpa [onLoan] using on
    exact ⟨_,.returning⟩
  | cancelLoan loanId =>
    obtain rfl : loanId = k := by simpa [onLoan] using on
    exact ⟨_,.cancelling⟩
  | renewLoan => exact about.elim
  | payFine => exact about.elim
  | _ => contradiction

theorem exitsSame {a b : LoanStatus} (left : Exits k r a) (right : Exits k r b) : a = b := by
  cases left <;> cases right <;> rfl

end Steps

section Paths
variable {seen : Log → Int → Seen} {requests : Nat → Option Request} {d : Database} {t : Int}
  {h : Log} {k : String} {l : LoanModel}

theorem nobodyClosed {c : Commit} (first : mine c.client h = []) {m : Commit} (mem : m ∈ h) :
    m.client ≠ c.client := by
  simpa using List.filter_eq_nil_iff.mp first m mem

structure Story (requests : Nat → Option Request) (d : Database) (k : String) (h : Log) : Prop where
  quiet : (∀ m ∈ h, closes k m.writes = false) → told (stateAfter d h) k = told d k
  closed : ∀ m ∈ h, closes k m.writes = true → ∀ r status, requests m.client = some r →
    Exits k r status → (mine m.client h = [m] ∧ told (stateAfter d h) k = told d k) ∨
      ∃ n, mine m.client h = [n,m] ∧ told (stateAfter d h) k = told d k ++ news status

theorem pathStory (only : ∀ j r, requests j = some r → onLoan k r = true)
    (path : Path (allowed seen requests) d t h) : Story requests d k h := by
  induction path with
  | start => exact ⟨fun _ => rfl,nofun⟩
  | @commit c h rest before ran clock effect ih =>
    obtain ⟨r,sent,e⟩ := effect
    by_cases first : mine c.client h = []
    · rw [first] at e
      have same : told c.after k = told (stateAfter d h) k := by
        rw [← before]; exact mainTold e ran k
      refine ⟨fun none => same.trans (ih.quiet fun m mem => none m (List.mem_cons_of_mem _ mem)),
        fun m mem closed r' status sent' exit => ?_⟩
      rcases List.mem_cons.mp mem with rfl | inside
      · refine .inl ⟨by rw [mineCons,if_pos rfl,first],same.trans (ih.quiet fun m' mem' => ?_)⟩
        by_contra again
        have twice := closedSame (.commit rest before ran clock ⟨r,sent,first ▸ e⟩)
          (List.mem_cons_self) (List.mem_cons_of_mem _ mem') closed (by simpa using again)
        exact nobodyClosed first mem' (by rw [twice])
      · have other := nobodyClosed first inside
        rw [mineCons,if_neg (Ne.symm other)]
        have old := ih.closed m inside closed r' status sent' exit
        rwa [← same] at old
    · obtain ⟨main,n,second,writes,about⟩ := secondEffect e first
      obtain ⟨status,exit⟩ := exitAnnounces (only _ r sent) about
      obtain ⟨inside,client,_,_,e'⟩ := firstEffect (l := []) rest second sent
      have closed := mainCloses e' exit
      rw [writes] at ran
      have tells := (noteTells (k := k) ran).2
      rw [closingTold e' exit about] at tells
      have old : told c.before k = told d k := by
        rw [before]
        rcases ih.closed main inside closed r status (client ▸ sent) exit with ⟨_,same⟩ | ⟨_,two,_⟩
        · exact same
        · rw [client,second] at two; simp at two
      rw [old] at tells
      refine ⟨fun none => ?_,fun m mem again r' status' sent' exit' => ?_⟩
      · rw [none main (List.mem_cons_of_mem _ inside)] at closed; contradiction
      rcases List.mem_cons.mp mem with rfl | before'
      · rw [writes] at again; simp [closes] at again
      obtain rfl := closedSame rest before' inside again closed
      rw [client] at sent' ⊢
      cases Option.some.inj (sent.symm.trans sent')
      cases exitsSame exit exit'
      exact .inr ⟨c,by rw [mineCons,if_pos rfl,second],tells⟩

theorem pathStatus (found : d.loans.find k = some l) (path : Path (allowed seen requests) d t h)
    (none : ∀ m ∈ h, closes k m.writes = false) :
    ∃ l', (stateAfter d h).loans.find k = some l' ∧ l'.status = l.status := by
  induction path with
  | start => exact ⟨l,found,rfl⟩
  | @commit c h rest before ran clock effect ih =>
    obtain ⟨r,_,e⟩ := effect
    obtain ⟨l₁,found₁,same₁⟩ := ih fun m mem => none m (List.mem_cons_of_mem _ mem)
    rw [← before] at found₁
    obtain ⟨l₂,found₂,same₂⟩ := statusSame e ran found₁ (none c List.mem_cons_self)
    exact ⟨l₂,found₂,same₂.trans same₁⟩

theorem closedPath (path : Path (allowed seen requests) d t h) {m : Commit} (mem : m ∈ h)
    (closed : closes k m.writes = true) : ∃ r status l', requests m.client = some r ∧
      Exits k r status ∧ m.after.loans.find k = some l' ∧ l'.status = status ∧
      (∀ l, d.loans.find k = some l → l.status = .active) ∧
      ∃ last, (stateAfter d h).loans.find k = some last ∧ last.status = status := by
  induction path with
  | start => contradiction
  | @commit c h rest before ran clock effect ih =>
    obtain ⟨r,sent,e⟩ := effect
    rcases List.mem_cons.mp mem with rfl | inside
    · obtain ⟨status,exit,_,⟨l₀,found₀,active⟩,l',found',same⟩ := closing e ran closed
      refine ⟨r,status,l',sent,exit,found',same,fun l found => ?_,l',found',same⟩
      by_contra away
      obtain ⟨l₁,found₁,stays⟩ := loanStays found rest
      rw [← before,found₀] at found₁
      cases found₁
      exact away (stays away ▸ active)
    · obtain ⟨r',status,l',sent',exit,found',same,start,last,found,final⟩ := ih inside
      rw [← before] at found
      obtain ⟨l₂,found₂,kept⟩ := statusKept e ran found (final ▸ exitsClosed exit)
      exact ⟨r',status,l',sent',exit,found',same,start,l₂,found₂,kept.trans final⟩

theorem closedForGood (only : ∀ j r, requests j = some r → onLoan k r = true) {m : Commit}
    {earlier : Log} {later : Log} (path : Path (allowed seen requests) d t (later ++ m :: earlier))
    (closed : closes k m.writes = true) :
    (∀ m' ∈ later, m'.after.loans.find k = m.after.loans.find k) ∧
      (stateAfter d (later ++ m :: earlier)).loans.find k = m.after.loans.find k := by
  induction later with
  | nil => exact ⟨nofun,rfl⟩
  | cons c later ih =>
    cases path with
    | commit rest before ran clock effect =>
      replace rest : Path (allowed seen requests) d t (later ++ m :: earlier) := rest
      obtain ⟨old,last⟩ := ih rest
      obtain ⟨r,sent,e⟩ := effect
      obtain ⟨_,_,_,_,exit,_,_,_,l₁,found₁,same⟩ := closedPath rest (by simp) closed
      replace before : c.before = stateAfter d (later ++ m :: earlier) := before
      have kept : c.after.loans.find k = m.after.loans.find k := by
        rw [← last,found₁]
        refine closedKept e ran (fun data other => ?_) (before ▸ found₁) (same ▸ exitsClosed exit)
        have on := only _ r sent
        rw [other] at on; contradiction
      refine ⟨fun m' mem => ?_,kept⟩
      rcases List.mem_cons.mp mem with rfl | inside
      · exact kept
      · exact old m' inside

theorem consistentLoan (found : d.loans.find k = some l) :
    Consistent d k ↔ Stamped l ∧ told d k = news l.status := by
  refine ⟨fun h => h.present l found,fun h => ⟨fun none => ?_,fun l' found' => ?_⟩⟩
  · rw [found] at none; contradiction
  · cases Option.some.inj (found.symm.trans found')
    exact h

theorem stampedPath (found : d.loans.find k = some l) (stamped : Stamped l)
    (path : Path (allowed seen requests) d t h) :
    ∃ l', (stateAfter d h).loans.find k = some l' ∧ Stamped l' := by
  obtain ⟨l',found',_⟩ := loanStays found path
  refine ⟨l',found',everyLoan (P := Stamped) stampedNew stampedStep (fun l₀ found₀ => ?_) path l' found'⟩
  cases Option.some.inj (found.symm.trans found₀)
  exact stamped

theorem consistentAtEnd (only : ∀ j r, requests j = some r → onLoan k r = true)
    (found : d.loans.find k = some l) (start : Consistent d k)
    (path : Path (allowed seen requests) d t h)
    (whole : ∀ j r, requests j = some r → mine j h = [] ∨ (mine j h).length = commitsOf r) :
    Consistent (stateAfter d h) k := by
  obtain ⟨stamped,told₀⟩ := (consistentLoan found).mp start
  have story := pathStory only path
  obtain ⟨l',found',stamped'⟩ := stampedPath found stamped path
  rw [consistentLoan found']
  refine ⟨stamped',?_⟩
  by_cases some : ∃ m ∈ h, closes k m.writes = true
  · obtain ⟨m,mem,closed⟩ := some
    obtain ⟨r,status,_,sent,exit,_,_,active,last,found₁,same⟩ := closedPath path mem closed
    cases Option.some.inj (found'.symm.trans found₁)
    rw [active l found] at told₀
    rw [same]
    rcases story.closed m mem closed r status sent exit with ⟨one,_⟩ | ⟨n,two,tells⟩
    · rcases whole m.client r sent with zero | full
      · rw [one] at zero; contradiction
      · rw [one,exitsTwice exit] at full; simp at full
    · rw [tells,told₀]; rfl
  · have none : ∀ m ∈ h, closes k m.writes = false := fun m mem => by
      simpa using fun closed => some ⟨m,mem,closed⟩
    obtain ⟨l₁,found₁,same⟩ := pathStatus found path none
    cases Option.some.inj (found'.symm.trans found₁)
    rw [story.quiet none,told₀,same]

end Paths

section Reached
variable {requests : Nat → Option Request} {d : Database} {t : Int} {w : World} {k : String}

theorem unmoved {before after : Database} (loans : after.loans.find k = before.loans.find k)
    (notes : told after k = told before k) (h : Consistent before k) : Consistent after k :=
  ⟨fun none => notes.trans (h.absent (loans ▸ none)),fun l found => by
    rw [notes]; exact h.present l (loans ▸ found)⟩

theorem mainConsistent {seen : Seen} {before after : Database} {r : Request} {writes : List Write}
    (e : Effect seen [] before r writes) (ran : execAll writes before = .ok after)
    (none : closes k writes = false) (h : Consistent before k) : Consistent after k := by
  have notes := mainTold e ran k
  cases found : before.loans.find k with
  | none =>
    cases found' : after.loans.find k with
    | none => exact unmoved (by rw [found,found']) notes h
    | some l' =>
      obtain ⟨_,id,user,book,now,createdAt,_,_,rfl⟩ := loanBorn e ran found found'
      exact (consistentLoan found').mpr
        ⟨stampedNew id user book now createdAt,notes.trans (h.absent found)⟩
  | some l =>
    obtain ⟨stamped,same⟩ := (consistentLoan found).mp h
    obtain ⟨l',found',step⟩ := loanStep e ran found
    obtain ⟨l₁,found₁,status⟩ := statusSame e ran found none
    cases Option.some.inj (found'.symm.trans found₁)
    exact (consistentLoan found').mpr ⟨stampedStep step stamped,by rw [notes,same,status]⟩

theorem wholeConsistent {r : Request} {after : Database} (whole : Whole requests d t w r after)
    (h : Consistent w.db k) : Consistent after k := by
  cases whole with
  | nothing => exact h
  | once one e ran =>
    refine mainConsistent e ran ?_ h
    by_contra closed
    obtain ⟨status,exit,_⟩ := closing e ran (by simpa using closed)
    rw [exitsTwice exit] at one; contradiction
  | @twice main n after two e ran about note =>
    obtain ⟨loans,tells⟩ := noteTells (k := k) note
    by_cases closed : closes k main.writes = true
    · obtain ⟨status,exit,_,⟨l,found,active⟩,l',found',same⟩ := closing e ran closed
      obtain ⟨stamped,told₀⟩ := (consistentLoan found).mp h
      obtain ⟨l₁,found₁,step⟩ := loanStep e ran found
      cases Option.some.inj (found'.symm.trans found₁)
      refine (consistentLoan (l := l') (by rw [loans]; exact found')).mpr
        ⟨stampedStep step stamped,?_⟩
      rw [tells,closingTold e exit about,mainTold e ran,told₀,active,same]; rfl
    · have other : tellsClosing k n = false := by
        simpa using fun telling => closed (tellingCloses e about telling)
      rw [other] at tells
      exact unmoved (by rw [loans]) (by simpa using tells)
        (mainConsistent e ran (by simpa using closed) h)

theorem reachedConsistent (t : Int) (calls : List (Request × Oracle))
    (up : ∀ call ∈ calls, ∀ n, (call.2 n).answer.redisUp = true) (k : String) :
    Consistent (serveAll 0 (opening t) calls).2.db k := by
  induction calls using List.reverseRecOn with
  | nil => exact ⟨fun _ => rfl,fun l found => nomatch (Table.findEmpty k).symm.trans found⟩
  | append_singleton calls call ih =>
    obtain ⟨r,env⟩ := call
    rw [serveLast]
    have before := ih fun call mem => up call (List.mem_append_left _ mem)
    have reached : Reached (requestsOf (calls ++ [(r,env)])) .empty t calls.length
        (serveAll 0 (opening t) calls).2 := reachedAll fun k r' sent => requestsEarlier sent
    exact wholeConsistent (servedWhole reached (requestsLast calls r env)
      (up (r,env) (by simp))) before

end Reached

section Pools
variable {requests : Nat → Option Request} {k : String} {s : State}

structure ClosesOnce (requests : Nat → Option Request) (k : String) (s : State) : Prop where
  single : ∀ i j ri rj si sj, requests i = some ri → requests j = some rj → Exits k ri si →
    Exits k rj sj → succeeded s i = true → succeeded s j = true → i = j
  final : ∀ later m earlier, s.world.history = later ++ m :: earlier → closes k m.writes = true →
    ∀ m' ∈ later, m'.after.loans.find k = m.after.loans.find k
  stamped : ∀ m ∈ s.world.history, ∃ l, m.after.loans.find k = some l ∧ Stamped l
  told : (∀ j r, requests j = some r → finished s j) → Consistent s.world.db k

theorem consistentClosesOnce (d : Database) (x : Cache) (t : Int) (moves : Moves) {l : LoanModel}
    (only : ∀ j r, requests j = some r → onLoan k r = true)
    (up : ∀ m ∈ moves, m.2.answer.redisUp = true) (found : d.loans.find k = some l)
    (start : Consistent d k) : ClosesOnce requests k ((begin (settled d x t) requests).run moves) := by
  have good : PoolGood requests (fun a => a.redisUp = true) (fun _ _ => True) d t
      ((begin (settled d x t) requests).run moves) := poolGood d x t moves up
  obtain ⟨stamped,_⟩ := (consistentLoan found).mp start
  refine ⟨fun i j ri rj si sj => exitsOnce good,fun later m earlier grown closed => ?_,
    fun m mem => ?_,fun ended => ?_⟩
  · exact (closedForGood only (grown ▸ good.path) closed).1
  · obtain ⟨rest,path,_⟩ := Program.pathUpTo good.path mem
    exact stampedPath found stamped path
  · rw [good.root.db]
    exact consistentAtEnd only found start good.path fun j r sent =>
      finishedWhole good (fun _ h => h) sent (ended j r sent)

end Pools

/-- Requests one after another leave every loan with one story, and sessions that
contend for a loan with one story close it at most once, tell it once and leave
it alone. -/
theorem closingHappensOnce :
    (∀ t (calls : List (Request × Oracle)),
      (∀ call ∈ calls, ∀ n, (call.2 n).answer.redisUp = true) →
      ∀ k, Consistent (serveAll 0 (opening t) calls).2.db k) ∧
    ∀ d x t (requests : Nat → Option Request) (moves : Moves) k l,
      (∀ j r, requests j = some r → onLoan k r = true) →
      (∀ m ∈ moves, m.2.answer.redisUp = true) → d.loans.find k = some l → Consistent d k →
      ClosesOnce requests k ((begin (settled d x t) requests).run moves) :=
  ⟨fun t calls up k => reachedConsistent t calls up k,
    fun d x t _ moves _ _ only up found start => consistentClosesOnce d x t moves only up found start⟩

def contending (j : Nat) : Option Request :=
  if j = 0 then some (.returnLoan (sampleId 4).text)
  else if j = 1 then some (.cancelLoan (sampleId 4).text) else none

def contendingInTurns : Moves := (List.replicate 30 [(1,tick 5),(0,tick 6)]).flatten

def contended : State :=
  (begin (settled lentOnce.db lentOnce.ext lentOnce.clock) contending).run contendingInTurns

theorem contendingOnLoan (j : Nat) (r : Request) (sent : contending j = some r) :
    onLoan (sampleId 4).text r = true ∧ finished contended j := by
  unfold contending at sent
  split at sent
  · rename_i zero; cases sent; subst zero; decide +kernel
  · split at sent <;> cases sent
    rename_i one; subst one; decide +kernel

theorem contendedClosesOnce : ClosesOnce contending (sampleId 4).text contended ∧
    Consistent contended.world.db (sampleId 4).text := by
  have lent : ∃ l, lentOnce.db.loans.find (sampleId 4).text = some l :=
    Option.isSome_iff_exists.mp (by decide +kernel)
  obtain ⟨l,found⟩ := lent
  have start := closingHappensOnce.1 0 (borrowing 1) (by simp [borrowing,tick]) (sampleId 4).text
  have up : ∀ m ∈ contendingInTurns, m.2.answer.redisUp = true := by
    intro m mem
    obtain ⟨turn,inside,mem⟩ := List.mem_flatten.mp mem
    rw [List.eq_of_mem_replicate inside] at mem
    rcases List.mem_pair.mp mem with rfl | rfl <;> rfl
  have closes : ClosesOnce contending (sampleId 4).text contended :=
    closingHappensOnce.2 lentOnce.db lentOnce.ext lentOnce.clock contending contendingInTurns _ l
      (fun j r sent => (contendingOnLoan j r sent).1) up found start
  exact ⟨closes,closes.told fun j r sent => (contendingOnLoan j r sent).2⟩

end LibraryApi.LoanRaces
