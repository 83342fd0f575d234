import LibraryApi.Permanence
import LibraryApi.Receipts

/-! What the users are told. An event comes with the main commit of a request and is told in
a second one of the same session, so whatever runs at once the notices and those still owed
are as many as the events; and no notice says twice, or falsely, that a loan was made,
returned or cancelled, or a reservation made. -/
namespace LibraryApi.Announcements
open Models CacheService KeyedTable Repositories Requests Effects Runs Security Api Application Permanence
open KeyedTable.Table (carriedFound)
open Program (execAll stateAfter mine due)

abbrev Notice := NotificationType × Uuid

def noticeOf (n : NotificationModel) : Option Notice := match n.type with
  | .loanCreated => n.loanId.map fun k => (.loanCreated,k)
  | .loanReturned => n.loanId.map fun k => (.loanReturned,k)
  | .loanCancelled => n.loanId.map fun k => (.loanCancelled,k)
  | .reservationCreated => n.reservationId.map fun k => (.reservationCreated,k)
  | .reservationCancelled => n.reservationId.map fun k => (.reservationCancelled,k)
  | .loanDueSoon => none
  | .loanDueToday => none
  | .loanOverdue => none

def eventOf : List Write → Option Notice
  | [.updateBook _ _,.insertLoan l] => some (.loanCreated,l.id)
  | [.updateBook _ _,.updateLoan l c] => match c.status with
      | .active => none
      | .returned => some (.loanReturned,l.id)
      | .cancelled => some (.loanCancelled,l.id)
  | [.insertReservation r] => some (.reservationCreated,r.id)
  | [.updateReservation l _] => some (.reservationCancelled,l.id)
  | _ => none

def told (e : Notice) (d : Database) : Nat := d.notifications.countP fun n => noticeOf n == some e

def makes (e : Notice) (m : Commit) : Bool := eventOf m.writes == some e

def happened (e : Notice) (h : Log) : Nat := h.countP (makes e)

def owed (e : Notice) (h : Log) : Nat := due (makes e) h

def holds (d : Database) : Notice → Prop
  | (.loanCreated,k) => ∃ l, d.loans.find k.text = some l
  | (.loanReturned,k) => ∃ l, d.loans.find k.text = some l ∧ l.status = .returned
  | (.loanCancelled,k) => ∃ l, d.loans.find k.text = some l ∧ l.status = .cancelled
  | (.reservationCreated,k) => ∃ r, d.reservations.find k.text = some r
  | (.reservationCancelled,k) => ∃ r, d.reservations.find k.text = some r ∧ r.status = .cancelled
  | _ => False

structure Truthful (d : Database) : Prop where
  so : ∀ e, 0 < told e d → holds d e
  once : ∀ e, e.1 ≠ .reservationCancelled → told e d ≤ 1

section Commits
variable {seen : Seen} {own : Log} {before after : Database} {r : Request} {writes : List Write} {e : Notice}

theorem announcesEvent {main : List Write} {note : NotificationModel} (first : Effect seen [] before r main)
    (about : Announces r main note) : noticeOf note = eventOf main := by
  cases first with
  | createLoan =>
    obtain ⟨_,_,l,same,type,id⟩ := about
    cases same
    simp [noticeOf,eventOf,type,id]
  | returnLoan =>
    obtain ⟨_,_,l,_,same,type,id⟩ := about
    cases same
    simp [noticeOf,eventOf,type,id,LoanService.returned]
  | cancelLoan =>
    obtain ⟨_,_,l,_,same,type,id⟩ := about
    cases same
    simp [noticeOf,eventOf,type,id,LoanService.cancelled]
  | createReservation =>
    obtain ⟨_,same,type,id⟩ := about
    cases same
    simp [noticeOf,eventOf,type,id]
  | cancelReservation =>
    obtain ⟨_,_,same,type,id⟩ := about
    cases same
    simp [noticeOf,eventOf,type,id]
  | notify second => contradiction
  | _ => exact about.elim

theorem eventTwice (first : Effect seen own before r writes) (event : eventOf writes = some e) : commitsOf r = 2 := by
  cases first with
  | createLoan => rfl
  | returnLoan => rfl
  | cancelLoan => rfl
  | createReservation => rfl
  | cancelReservation => rfl
  | deleteAuthor => simp [eventOf] at event
  | _ => contradiction

theorem silentFirst (first : Effect seen [] before r writes) : ∀ x ∈ writes, ∀ n, x ≠ .insertNotification n := by
  cases first with
  | notify second => contradiction
  | deleteAuthor =>
    rintro x mem n rfl
    simp [AuthorRepository.deactivate] at mem
  | _ => simp

theorem toldKept (silent : ∀ x ∈ writes, ∀ n, x ≠ .insertNotification n) (ran : execAll writes before = .ok after) :
    told e after = told e before := by
  unfold told
  rw [ReservationHistory.notesKept silent ran]

theorem toldNote {n : NotificationModel} (ran : execAll ([.insertNotification n] : List Write) before = .ok after) :
    told e after = told e before + if noticeOf n == some e then 1 else 0 := by
  cases ran
  simp [told,List.countP_append,List.countP_singleton]

theorem closedKept {d d' : Database} {k : String} {status : LoanStatus} (closed : status ≠ .active) (kept : Kept d d')
    (h : ∃ l, d.loans.find k = some l ∧ l.status = status) : ∃ l, d'.loans.find k = some l ∧ l.status = status := by
  obtain ⟨l,found,rfl⟩ := h
  obtain ⟨l',found',step⟩ := kept.loans k l found
  exact ⟨l',found',by rw [step.closed closed]⟩

theorem holdsKept {d d' : Database} (kept : Kept d d') (h : holds d e) : holds d' e := by
  obtain ⟨type,k⟩ := e
  cases type with
  | loanCreated => exact carriedFound kept.loans h
  | loanReturned => exact closedKept nofun kept h
  | loanCancelled => exact closedKept nofun kept h
  | reservationCreated => exact carriedFound kept.reservations h
  | reservationCancelled =>
    obtain ⟨r,found,off⟩ := h
    obtain ⟨r',found',step⟩ := kept.reservations _ r found
    exact ⟨r',found',step.cancelled off⟩
  | _ => exact h

theorem bornHolds {ρ : Type} {key : ρ → String} {t t' : Table key} {row : ρ} (added : t.insert row = some t') :
    (∃ r, t'.find (key row) = some r) ∧ ¬ ∃ r, t.find (key row) = some r := by
  refine ⟨⟨row,by rw [Table.findInsert added,if_pos rfl]⟩,fun ⟨_,found⟩ => ?_⟩
  rw [(Table.insertRows added).2] at found
  contradiction

theorem activeUnclosed {d : Database} {k : String} {l : LoanModel} {status : LoanStatus} (found : d.loans.find k = some l)
    (active : l.status = .active) (closed : status ≠ .active) : ¬ ∃ l, d.loans.find k = some l ∧ l.status = status := by
  rintro ⟨l',found',rfl⟩
  rw [found] at found'
  cases found'
  exact closed active

theorem eventHolds (real : ∀ P, seen P → ∃ d t, P d t ∧ Kept d before) (first : Effect seen own before r writes)
    (ran : execAll writes before = .ok after) (event : eventOf writes = some e) :
    holds after e ∧ (e.1 ≠ .reservationCancelled → ¬ holds before e) := by
  cases first with
  | createLoan =>
    cases event
    obtain ⟨_,added,rfl⟩ := CommittedRows.ranLend ran
    exact ⟨(bornHolds added).1,fun _ => (bornHolds added).2⟩
  | returnLoan _ found active =>
    cases event
    rw [← (Table.findSound found).2] at found
    rw [CommittedRows.ranClose ran]
    exact ⟨⟨_,CommittedRows.loanReplaced found rfl,rfl⟩,fun _ => activeUnclosed found active nofun⟩
  | cancelLoan _ found active =>
    cases event
    rw [← (Table.findSound found).2] at found
    rw [CommittedRows.ranClose ran]
    exact ⟨⟨_,CommittedRows.loanReplaced found rfl,rfl⟩,fun _ => activeUnclosed found active nofun⟩
  | createReservation =>
    cases event
    obtain ⟨_,added,rfl⟩ := Database.insertReservationRan (CommittedRows.ranOne ran)
    exact ⟨(bornHolds added).1,fun _ => (bornHolds added).2⟩
  | cancelReservation first read id active instant =>
    cases event
    refine ⟨?_,fun other => absurd rfl other⟩
    obtain ⟨d,_,found,kept⟩ := real _ read
    obtain ⟨row,stored,_⟩ := kept.reservations _ _ found
    obtain ⟨row',stored',_,closed⟩ := ReservationHistory.reservationStep (.cancelReservation first read id active instant) ran stored
    exact ⟨row',id ▸ stored',closed (by simp [ReservationHistory.cancels,ReservationService.cancelled,id])⟩
  | deleteAuthor => simp [eventOf] at event
  | _ => contradiction

end Commits

section Runs
variable {s : Deployment} {clients : Nat → Option Client} {d : Database} {t : Int} {h : Log} {e : Notice}

theorem firstDeed (path : SystemPath s clients d t h) {j : Nat} {later : Log} {m : Commit} {client : Client} {r : Request}
    (own : mine j h = later ++ [m]) (sent : clients j = some client) (task : Client.task s client = some (.request r)) :
    ∃ seen, Effect seen [] m.before r m.writes := by
  obtain ⟨_,rest,rfl,here,first,path⟩ := Program.firstCommit path own
  cases path with
  | commit _ _ _ _ known =>
    obtain ⟨client',task',sent',done⟩ := known
    rw [here] at sent'
    cases Option.some.inj (sent.symm.trans sent')
    cases Option.some.inj (task.symm.trans done.set)
    have deed := done.deed
    rw [here,first] at deed
    exact ⟨_,deed⟩

theorem jobEventless (path : SystemPath s clients d t h) {m : Commit} (mem : m ∈ h) {client : Client} (sent : clients m.client = some client)
    (task : Client.task s client = some .reminders) : eventOf m.writes = none := by
  obtain ⟨_,path,_⟩ := Program.pathUpTo path mem
  cases path with
  | commit _ _ _ _ known =>
    obtain ⟨client',task',sent',done⟩ := known
    cases Option.some.inj (sent.symm.trans sent')
    cases Option.some.inj (task.symm.trans done.set)
    have deed : Reminds _ m.writes := done.deed
    generalize m.writes = writes at deed ⊢
    cases deed
    rfl

theorem ledger (path : SystemPath s clients d t h) : told e (stateAfter d h) + owed e h = told e d + happened e h := by
  induction path with
  | start => rfl
  | @commit m h rest before ran clock known ih =>
    obtain ⟨client,task,sent,done⟩ := known
    show told e m.after + due (makes e) (m :: h) = told e d + (m :: h).countP (makes e)
    rw [List.countP_cons]
    unfold owed happened at ih
    rw [← before] at ih
    cases task with
    | reminders =>
      have quiet := jobEventless (.commit rest before ran clock ⟨client,_,sent,done⟩) List.mem_cons_self sent done.set
      have deed : Reminds _ m.writes := done.deed
      have same : told e m.after = told e m.before := by
        generalize m.writes = writes at deed ran
        cases deed with
        | @sent l type _ _ _ _ reminding =>
          rw [toldNote ran]
          cases type <;> first | contradiction | rfl
      have plain : makes e m = false := by simp [makes,quiet]
      rw [same,Program.dueQuiet (fun c mem => ?_) plain,ih,plain]
      · rfl
      · obtain ⟨inside,own⟩ := List.mem_filter.mp mem
        have client' : c.client = m.client := by simpa using own
        simp [makes,jobEventless rest inside (client'.symm ▸ sent) done.set]
    | request r =>
      have deed : Effect _ (mine m.client h) m.before r m.writes := done.deed
      by_cases first : mine m.client h = []
      · rw [first] at deed
        rw [toldKept (silentFirst deed) ran,Program.dueFirst first]
        omega
      · obtain ⟨main,note,own,writes,about⟩ := secondEffect deed first
        obtain ⟨_,first⟩ := firstDeed rest (show mine m.client h = [] ++ [main] from own) sent done.set
        have balance : due (makes e) (m :: h) + _ = _ := Program.dueSecond own
        have plain : makes e m = false := by simp [makes,writes,eventOf]
        rw [writes] at ran
        rw [toldNote ran,announcesEvent first about,plain]
        unfold makes at balance ih ⊢
        simp only [Bool.false_eq_true,if_false]
        omega

theorem truthfulHistory (start : Truthful d) (path : SystemPath s clients d t h) :
    (0 < told e d + happened e h → holds (stateAfter d h) e) ∧
      (e.1 ≠ .reservationCancelled → told e d + happened e h ≤ 1) := by
  induction path with
  | start => exact ⟨start.so e,start.once e⟩
  | @commit m h rest before ran clock known ih =>
    have kept := commitKept (.commit rest before ran clock known)
    obtain ⟨client,task,sent,done⟩ := known
    show (0 < told e d + (m :: h).countP (makes e) → holds m.after e) ∧ (_ → told e d + (m :: h).countP (makes e) ≤ 1)
    rw [List.countP_cons]
    unfold happened at ih
    rw [← before] at ih
    cases made : makes e m with
    | false => exact ⟨fun some => holdsKept kept (ih.1 some),ih.2⟩
    | true =>
      have event : eventOf m.writes = some e := by simpa [makes] using made
      cases task with
      | reminders =>
        rw [jobEventless (.commit rest before ran clock ⟨client,_,sent,done⟩) List.mem_cons_self sent done.set] at event
        contradiction
      | request r =>
        have deed : Effect _ (mine m.client h) m.before r m.writes := done.deed
        have first : mine m.client h = [] := by
          by_contra second
          obtain ⟨_,_,_,writes,_⟩ := secondEffect deed second
          rw [writes] at event
          contradiction
        rw [first] at deed
        obtain ⟨now,fresh⟩ := eventHolds (fun P seen => before ▸ seenKept rest seen) deed ran event
        refine ⟨fun _ => now,fun other => ?_⟩
        have none : told e d + h.countP (makes e) = 0 := by
          rcases Nat.eq_zero_or_pos (told e d + h.countP (makes e)) with zero | some
          · exact zero
          · exact absurd (ih.1 some) (fresh other)
        simp only [if_true]
        omega

theorem pathTruthful (start : Truthful d) (path : SystemPath s clients d t h) : Truthful (stateAfter d h) := by
  refine ⟨fun e some => (truthfulHistory start path).1 ?_,fun e other => ?_⟩
  · have balance := ledger (e := e) path
    omega
  · have balance := ledger (e := e) path
    have few := (truthfulHistory (e := e) start path).2 other
    omega

theorem owedNone (path : SystemPath s clients d t h)
    (whole : ∀ m ∈ h, ∀ client, clients m.client = some client → commitsDue s client = some 2 → (mine m.client h).length = 2) :
    owed e h = 0 := by
  refine Program.dueNone fun m mem made => ?_
  have event : eventOf m.writes = some e := by simpa [makes] using made
  obtain ⟨_,here,_⟩ := Program.pathUpTo path mem
  cases here with
  | commit _ _ _ _ known =>
    obtain ⟨client,task,sent,done⟩ := known
    cases task with
    | reminders =>
      rw [jobEventless path mem sent done.set] at event
      contradiction
    | request r =>
      have two := eventTwice done.deed event
      rw [whole m mem client sent (by simp [commitsDue,done.set,two])]
      nofun

/-- In every state of every run, the notices of an event and the sessions that still owe one
come to the times the event has happened, over those at the start. -/
theorem toldOrOwed (s : Deployment) (clients : Nat → Option Client) (d : Database) (x : Cache) (t : Int) (moves : Moves) (e : Notice) :
    let final := ((receive s (settled d x t) clients).run moves).world
    told e final.db + owed e final.history = told e d + happened e final.history := by
  obtain ⟨path,last⟩ := systemPath s clients (w := settled d x t) rfl moves
  intro final
  rw [last]
  exact ledger path

/-- When with Redis up all sessions have ended, each event has been told once for each time it happened. -/
theorem allTold (s : Deployment) {clients : Nat → Option Client} (d : Database) (x : Cache) (t : Int) {moves : Moves}
    (up : ∀ m ∈ moves, m.2.answer.redisUp = true)
    (ended : ∀ j client, clients j = some client →
      ∃ result, ((receive s (settled d x t) clients).run moves).pool j = some (.finished result)) (e : Notice) :
    let final := ((receive s (settled d x t) clients).run moves).world
    told e final.db = told e d + happened e final.history := by
  obtain ⟨path,last⟩ := systemPath s clients (w := settled d x t) rfl moves
  intro final
  have balance : told e final.db + owed e final.history = _ := toldOrOwed s clients d x t moves e
  rwa [owedNone path fun m mem client sent due => ?_] at balance
  obtain ⟨result,here⟩ := ended m.client client sent
  have whole := wholeOrNothing s d x t up sent due
  cases result with
  | ok body => exact whole.answered body here
  | error e =>
    have own : m ∈ mine m.client ((receive s (settled d x t) clients).run moves).world.history :=
      List.mem_filter.mpr ⟨mem,by simp⟩
    rw [whole.failed e here] at own
    contradiction

def reservingOnce (j : Nat) : Option Client :=
  if j = 0 then some (.bearer (sampleId 2).text (.createReservation (sampleId 3).text)) else none

def byItself (n : Nat) : Moves := List.replicate n (0,tick 5)

theorem reservingOnceTold : let final := ((receive plainTokens (settled (sampleShelf 0) [] 0) reservingOnce).run (byItself 24)).world
    told (.reservationCreated,sampleId 5) final.db =
      told (.reservationCreated,sampleId 5) (sampleShelf 0) + happened (.reservationCreated,sampleId 5) final.history := by
  refine allTold plainTokens (sampleShelf 0) [] 0 (fun m mem => ?_) (fun j client sent => ?_) _
  · rw [List.eq_of_mem_replicate mem]
    rfl
  · have only : j = 0 := by
      by_contra other
      rw [reservingOnce,if_neg other] at sent
      contradiction
    subst only
    exact ⟨_,rfl⟩

/-- Truthful notices stay so: in every run each one says what is so, and none but the end of a
reservation is ever told twice. -/
theorem noticesTrue (s : Deployment) (clients : Nat → Option Client) {d : Database} (x : Cache) (t : Int) (moves : Moves)
    (start : Truthful d) : Truthful ((receive s (settled d x t) clients).run moves).world.db := by
  obtain ⟨path,last⟩ := systemPath s clients (w := settled d x t) rfl moves
  rw [last]
  exact pathTruthful start path

theorem reservingOnceTrue : Truthful ((receive plainTokens (settled (sampleShelf 0) [] 0) reservingOnce).run (byItself 24)).world.db :=
  noticesTrue plainTokens reservingOnce [] 0 (byItself 24) ⟨fun _ some => absurd some (Nat.lt_irrefl 0),fun _ _ => Nat.zero_le 1⟩

end Runs
end LibraryApi.Announcements
