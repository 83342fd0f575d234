import LibraryApi.JointRules
import LibraryApi.ReminderRun
import LibraryApi.ServiceTexts
import LibraryApi.Sessions

/-! The whole application: any number of sessions of any kind, with any tokens, in any
order. Each session has one task it may commit to, and it commits only after it has seen
that it may: a token that had not expired, its user active, and an admin where one is
needed. -/
namespace LibraryApi.Application
open Models CacheService KeyedTable Repositories Requests Effects ServiceRules Runs Controllers Security Sessions Api
open DueLoanNotificationJob (UtcOffset execute remindAll)
open DailyReminders (reminds)
open ReminderRun (reminder utc)
open ServiceTexts
open Program (wp wpBind wpMono wpSince Path Since Rooted Reading readingThen readingPure readingRaise looksReading usesBind usesPure
  usesCall stateAfter seenIn sinceSeen sinceRefl sinceTrans sinceFrame sinceTick sinceRecord mine)

inductive Task where
  | request (r : Request)
  | reminders

section Tasks

def OpenRoute.task : OpenRoute → Option Task
  | .createUser data => some (.request (.createUser data))
  | _ => none

def Route.task (sub : Option String) : Route → Option Task
  | .updateUser userId name => some (.request (.updateUser userId name))
  | .deleteUser userId => some (.request (.deleteUser userId))
  | .updateUserRole userId role => some (.request (.updateRole userId role))
  | .createAuthor data => some (.request (.createAuthor data))
  | .updateAuthor authorId data => some (.request (.updateAuthor authorId data))
  | .deleteAuthor authorId => some (.request (.deleteAuthor authorId))
  | .createBook data => some (.request (.createBook data))
  | .updateBook bookId data => some (.request (.updateBook bookId data))
  | .deleteBook bookId => some (.request (.deleteBook bookId))
  | .createReservation bookId => sub.map fun userId => .request (.createReservation bookId userId)
  | .runDueLoansJob => some .reminders
  | .endpoint e => (requestOf e).map .request
  | _ => none

def subject (s : Deployment) (credentials : String) : Option String := (s.verified credentials).bind fun claims => claims.sub

def Client.task (s : Deployment) : Client → Option Task
  | .anonymous r => OpenRoute.task r
  | .bearer credentials r => Route.task (subject s credentials) r
  | .scheduler => some .reminders

def endpointNeedsAdmin : Endpoint → Bool
  | .listLoans _ _ => true
  | .updateLoan _ _ => true
  | .createLoan _ => true
  | .listActiveLoans _ => true
  | .listOverdueLoans _ => true
  | _ => false

def needsAdmin : Route → Bool
  | .me => false
  | .createReservation _ => false
  | .endpoint e => endpointNeedsAdmin e
  | _ => true

def Admitted (s : Deployment) (seen : Seen) : Client → Prop
  | .bearer credentials r => ∃ claims userId user, s.verified credentials = some claims ∧ claims.sub = some userId ∧
      (seen fun _ t => ∀ e ∈ claims.exp, t < e * 1000000) ∧
      (seen fun d _ => UserRepository.findById d userId = some user) ∧ (needsAdmin r = true → user.role = .admin)
  | _ => True

inductive Reminds (seen : Seen) : List Write → Prop where
  | sent {l type message id sentAt createdAt} (reminding : reminds type = true)
      (borrowed : seen fun d _ => d.loans.find l.id.text = some l) (active : l.status = .active) :
      Reminds seen [.insertNotification (reminder l type message id sentAt createdAt)]

def Deed (seen : Seen) (own : Log) (before : Database) : Task → List Write → Prop
  | .request r, writes => Effect seen own before r writes
  | .reminders, writes => Reminds seen writes

structure Done (s : Deployment) (d : Database) (t : Int) (h : Log) (m : Commit) (client : Client) (task : Task) : Prop where
  set : Client.task s client = some task
  admitted : Admitted s (seenIn d t h m.clock) client
  deed : Deed (seenIn d t h m.clock) (mine m.client h) m.before task m.writes

def entitled (s : Deployment) (clients : Nat → Option Client) (d : Database) (t : Int) (j : Nat) (h : Log) (m : Commit) : Prop :=
  ∃ client task, clients j = some client ∧ Done s d t h m client task

abbrev SystemPath (s : Deployment) (clients : Nat → Option Client) (d : Database) (t : Int) : Log → Prop :=
  Path (fun h m => entitled s clients d t m.client h m) d t

end Tasks

def Answered (task : Option Task) (own : Log) : Prop := match task with
  | none => own = []
  | some (.request r) => own.length = commitsOf r
  | some .reminders => True

def Refused (admits : Answer → Prop) (task : Option Task) (e : ApiError) (own : Log) : Prop := match task with
  | some .reminders => True
  | _ => Failed admits e own

section Contracts
variable {s : Deployment} {d : Database} {t : Int} {w w' : World} {α β : Type} {c : Contract} {task : Option Task}

structure Doing (d : Database) (t : Int) (c : Contract) (task : Option Task) (w : World) : Prop where
  fair : c.Fair
  idle : mine c.client w.history = []
  root : Rooted d t w
  effect : ∀ h m a, m.client = c.client → task = some a →
    Deed (seenIn d t h m.clock) (mine c.client h) m.before a m.writes → c.effect h m

def Ends (c : Contract) (task : Option Task) (p : Service α) (w : World) : Prop :=
  wp c (fun _ _ w' => Answered task (mine c.client w'.history))
    (fun e w' => Refused c.admits task e (mine c.client w'.history)) p [] w

section Rules
variable (doing : Doing d t c task w)
include doing

theorem doingLater (later : c.rely w w') : Doing d t c task w' :=
  ⟨doing.fair,(doing.fair.frame later).mine.trans doing.idle,Program.frameRooted doing.root (doing.fair.frame later),doing.effect⟩

theorem refusedEarly (later : c.rely w w') (e : ApiError) : Refused c.admits task e (mine c.client w'.history) := by
  have idle := (doingLater doing later).idle
  cases task with
  | none => exact .inl idle
  | some a => cases a <;> first | exact .inl idle | trivial

theorem doingServing {r : Request} (same : task = some (.request r)) : Serving (seenIn d t) c r w := by
  refine ⟨doing.fair,doing.idle,fun h m own effect => doing.effect h m _ own same effect,fun w₁ w₂ P r₁ r₂ held => ?_⟩
  have since := sinceFrame (doing.fair.frame r₂)
  exact sinceSeen (Program.frameRooted doing.root (doing.fair.frame r₁)) held since.past since.clock

theorem readThen {p : Service α} {f : α → Service β} (reads : Reading c (fun _ => True) p)
    (good : ∀ a w', c.rely w w' → Ends c task (f a) w') : Ends c task (p >>= f) w :=
  readingThen reads good fun e _ r _ => refusedEarly doing r e

theorem raiseEnds (e : ApiError) : Ends c task (Program.raise e : Service α) w :=
  refusedEarly doing (Program.laterRefl doing.fair w) e

theorem refuseEnds {bad : Prop} [Decidable bad] {e : ApiError} {f : Unit → Service α} (good : Ends c task (f ()) w) :
    Ends c task (refuse bad e >>= f) w :=
  refuseRule (fun _ => refusedEarly doing (Program.laterRefl doing.fair w) e) fun _ => good

theorem readingEnds {p : Service α} (none : task = none) (reads : Reading c (fun _ => True) p) : Ends c task p w := by
  subst none
  exact reads _ _ _ _ (fun _ _ r => (doingLater doing r).idle) fun e _ r _ => refusedEarly doing r e

end Rules

theorem servesEnds {r : Request} {answer : α → Response} {p : Service α} (same : task = some (.request r))
    (h : Serves c r answer p w) : Ends c task p w := by
  subst same
  exact wpMono (fun _ _ _ done => done.length) (fun _ _ h => h) h

theorem renderEnds {body : α → β} {p : Service α} (h : Ends c task p w) : Ends c task (do return body (← p)) w :=
  wpBind.mpr (wpMono (fun _ _ _ done => done) (fun _ _ h => h) h)

theorem workEnds (doing : Doing d t c task w) {r : Request} (same : task = some (.request r)) : Ends c task (work r) w :=
  renderEnds (servesEnds same (handleRule (doingServing doing same)))

section Job
variable {zone : UtcOffset} {type : NotificationType} {message : String} {w₁ : World} {l : LoanModel}

structure Reminding (d : Database) (t : Int) (c : Contract) : Prop where
  fair : c.Fair
  effect : ∀ h m, m.client = c.client → Reminds (seenIn d t h m.clock) m.writes → c.effect h m

structure Onward (d : Database) (t : Int) (w₁ w : World) : Prop where
  since : Since w₁ w
  root : Rooted d t w

theorem onwardFrame {i : Nat} (onward : Onward d t w₁ w) (f : Program.Frame i w w') : Onward d t w₁ w' :=
  ⟨sinceTrans onward.since (sinceFrame f),Program.frameRooted onward.root f⟩

theorem onwardTick (onward : Onward d t w₁ w) (n : Nat) : Onward d t w₁ {w with clock := w.clock + n} :=
  ⟨sinceTick onward.since n,Program.rootedTick onward.root n⟩

variable (job : Reminding d t c)
include job

theorem sendRule (reminded : reminds type = true) (root : Rooted d t w₁) (found : w₁.db.loans.find l.id.text = some l)
    (active : l.status = .active) (onward : Onward d t w₁ w) :
    wp c (fun _ pending w' => pending = [] ∧ Onward d t w₁ w') (fun _ _ => True)
      (NotificationHandlers.NotificationService.sendNotification l.userId type message (some l.id) none) [] w := by
  have frame {w w'} (r : c.rely w w') := job.fair.frame r
  refine wpBind.mpr fun w₂ r₂ n => ?_
  have onward₂ := onwardTick (onwardFrame onward (frame r₂)) n
  refine wpBind.mpr fun w₃ r₃ a _ => wpBind.mpr fun w₄ r₄ n' => ?_
  have onward₄ := onwardTick (onwardFrame (onwardFrame onward₂ (frame r₃)) (frame r₄)) n'
  refine wpBind.mpr (Program.writeRule job.fair (fun w₅ r₅ _ => ?_) fun _ _ _ _ => trivial)
  refine wpBind.mpr (Program.commitRule (fun w₆ after r₆ _ => ?_) fun _ _ _ _ => trivial)
  have since₆ := (onwardFrame (onwardFrame onward₄ (frame r₅)) (frame r₆)).since
  refine ⟨job.effect _ _ rfl (.sent reminded ?_ active),fun w₇ r₇ => ⟨rfl,?_⟩⟩
  · exact sinceSeen (P := fun d _ => d.loans.find l.id.text = some l) root found since₆.past since₆.clock
  · exact onwardFrame ⟨sinceRecord since₆ _ _ _,rfl,Int.le_refl _⟩ (frame r₇)

theorem onceRule (reminded : reminds type = true) (root : Rooted d t w₁) (found : w₁.db.loans.find l.id.text = some l)
    (active : l.status = .active) (onward : Onward d t w₁ w) :
    wp c (fun _ pending w' => pending = [] ∧ Onward d t w₁ w') (fun _ _ => True)
      (DueLoanNotificationJob.NotificationService.sendOncePerDay zone l.userId type message (some l.id) none) [] w := by
  refine readingThen (looksReading job.fair (existsLooks _ _ _)) (fun sent w₂ r₂ => ?_) fun _ _ _ _ => trivial
  have onward₂ := onwardFrame onward (job.fair.frame r₂)
  cases sent with
  | true => exact ⟨rfl,onward₂⟩
  | false => exact wpBind.mpr (wpMono (fun _ _ _ done => done) (fun _ _ h => h) (sendRule job reminded root found active onward₂))

theorem remindAllRule (reminded : reminds type = true) (root : Rooted d t w₁) {loans : List LoanModel}
    (listed : ∀ l ∈ loans, w₁.db.loans.find l.id.text = some l ∧ l.status = .active) (onward : Onward d t w₁ w) :
    wp c (fun _ pending w' => pending = [] ∧ Rooted d t w') (fun _ _ => True) (remindAll zone type message loans) [] w := by
  induction loans generalizing w with
  | nil => exact ⟨rfl,onward.root⟩
  | cons loan rest ih =>
    obtain ⟨found,active⟩ := listed loan List.mem_cons_self
    refine wpBind.mpr (wpMono (fun _ _ w₂ done => ?_) (fun _ _ h => h) (onceRule job reminded root found active onward))
    obtain ⟨rfl,onward₂⟩ := done
    exact ih (fun l mem => listed l (List.mem_cons_of_mem _ mem)) onward₂

omit job in
abbrev Listing (d : Database) (t : Int) (c : Contract) (list : Service (List LoanModel)) (w : World) : Prop :=
  wp c (fun loans pending w' => pending = [] ∧ Rooted d t w' ∧
    ∀ l ∈ loans, w'.db.loans.find l.id.text = some l ∧ l.status = .active) (fun _ _ => True) list [] w

theorem listRule (root : Rooted d t w) (p : LoanModel → Bool) : Listing d t c (do
    let order ← rowOrder
    Program.select fun d : Database => arranged order (d.loans.rows.filter fun l => l.status == .active && p l)) w := by
  refine readingThen (looksReading job.fair (usesCall _)) (fun order w₁ r₁ => Program.selectRule fun w₂ r₂ => ?_) fun _ _ _ _ => trivial
  refine ⟨rfl,Program.frameRooted (Program.frameRooted root (job.fair.frame r₁)) (job.fair.frame r₂),fun l mem => ?_⟩
  obtain ⟨row,hit⟩ := List.mem_filter.mp ((arrangedPerm _ _).mem_iff.mp mem)
  simp only [Bool.and_eq_true,beq_iff_eq] at hit
  exact ⟨Table.findComplete row,hit.1⟩

theorem passRule {list : Service (List LoanModel)} {ok : β → List Write → World → Prop} {f : Unit → Service β}
    (reminded : reminds type = true) (listing : Listing d t c list w)
    (rest : ∀ w', Rooted d t w' → wp c ok (fun _ _ => True) (f ()) [] w') :
    wp c ok (fun _ _ => True) (list >>= fun loans => remindAll zone type message loans >>= f) [] w := by
  refine wpBind.mpr (wpMono (fun loans _ w₂ listed => wpBind.mpr ?_) (fun _ _ h => h) listing)
  obtain ⟨rfl,root₂,listed⟩ := listed
  refine wpMono (fun _ _ w₃ done => ?_) (fun _ _ h => h) (remindAllRule job reminded root₂ listed ⟨sinceRefl w₂,root₂⟩)
  obtain ⟨rfl,root₃⟩ := done
  exact rest w₃ root₃

theorem executeRule (zone : UtcOffset) (root : Rooted d t w) : wp c (fun _ _ _ => True) (fun _ _ => True) (execute zone) [] w := by
  have frame {w w'} (r : c.rely w w') := job.fair.frame r
  refine wpBind.mpr (wpBind.mpr fun w₁ r₁ n => ?_)
  refine passRule job rfl (listRule job (Program.rootedTick (Program.frameRooted root (frame r₁)) n) _) fun w₂ root₂ => ?_
  refine passRule job rfl (listRule job root₂ _) fun w₃ root₃ => wpBind.mpr (wpMono (fun loans _ w₄ listed => ?_)
    (fun _ _ h => h) (wpBind.mpr fun w₅ r₅ n' => listRule job (Program.rootedTick (Program.frameRooted root₃ (frame r₅)) n') _))
  obtain ⟨rfl,root₄,listed⟩ := listed
  exact wpMono (fun _ _ _ _ => trivial) (fun _ _ h => h) (remindAllRule job rfl root₄ listed ⟨sinceRefl w₄,root₄⟩)

omit job in
theorem executeEnds (zone : UtcOffset) (doing : Doing d t c (some .reminders) w) :
    Ends c (some .reminders) (execute zone) w :=
  executeRule ⟨doing.fair,fun h m own told => doing.effect h m _ own rfl told⟩ zone doing.root

end Job

section Users
variable {token : Token} (doing : Doing d t c task w)
include doing

theorem userRule {f : UserModel → Service α} (good : ∀ user userId role w₁, token = .payload (some userId) role → c.rely w w₁ →
      UserRepository.findById w₁.db userId = some user → Ends c task (f user) w₁) : Ends c task (getCurrentUser token >>= f) w := by
  cases token with
  | expired => exact raiseEnds doing _
  | invalid => exact raiseEnds doing _
  | payload sub role =>
    refine wpBind.mpr (wpBind.mpr (Program.selectRule fun w₁ r₁ => ?_))
    rw [Program.viewNil]
    cases found : sub.bind (UserRepository.findById w₁.db) with
    | none => exact refusedEarly doing r₁ _
    | some user =>
      obtain ⟨userId,rfl,found⟩ := Option.bind_eq_some_iff.mp found
      exact good user userId role w₁ rfl r₁ found

theorem adminRule {f : UserModel → Service α} (good : ∀ user userId role w₁, token = .payload (some userId) role → c.rely w w₁ →
      UserRepository.findById w₁.db userId = some user → Ends c task (f user) w₁) : Ends c task (getCurrentAdmin token >>= f) w := by
  unfold getCurrentAdmin
  rw [Program.bindBind]
  refine userRule doing fun user userId role w₁ same r₁ found => ?_
  rw [Program.bindBind]
  exact refuseEnds (doingLater doing r₁) (good user userId role w₁ same r₁ found)

theorem adminOnlyEnds {p : Service α} (h : ∀ w', c.rely w w' → Ends c task p w') :
    Ends c task (LoanController.adminOnly p token) w :=
  adminRule doing fun _ _ _ w₁ _ r₁ _ => h w₁ r₁

theorem namedUserEnds {r : Request} (same : task = some (.request r)) (one : commitsOf r = 1) {userId : String}
    {f : UserModel → UserModel} (effect : ∀ {seen : Seen} {before user},
      seen (fun d _ => UserRepository.findById d userId = some user) → Effect seen [] before r [.updateUser user (f user)]) :
    Ends c task (UserController.namedUser (fun user => UserRepository.update user (f user)) userId token) w := by
  have serving := doingServing doing same
  refine adminRule doing fun admin sub role w₁ _ r₁ mine => ?_
  refine findRule (fun _ r _ => refusedEarly doing (doing.fair.trans r₁ r) _) fun w₂ row r₂ found => ?_
  have r₁₂ := serving.fair.trans r₁ r₂
  refine storeRule serving.fair (fun w₃ after r₃ _ => serving.effect _ _ rfl ?_) (fun _ w₃ m own _ => ?_)
    fun e _ r₃ _ => refusedEarly doing (serving.fair.trans r₁₂ r₃) e
  · rw [serving.still (serving.fair.trans r₁₂ r₃)]
    refine effect ?_
    split
    · rename_i self
      have named : sub = userId := by
        rw [← (Table.findSound (Option.filter_eq_some_iff.mp mine).1).2,
          ← (Table.findSound (Option.filter_eq_some_iff.mp found).1).2,self]
      subst named
      exact serving.witnessed w₁ w₃ (fun d _ => UserRepository.findById d sub = some admin) r₁ (serving.fair.trans r₂ r₃) mine
    · exact serving.witnessed w₂ w₃ (fun d _ => UserRepository.findById d userId = some row) r₁₂ r₃ found
  · rw [serving.still r₁₂] at own
    subst same
    show (Program.mine c.client w₃.history).length = commitsOf r
    rw [own,one]
    rfl

theorem ownLoanEnds {message : String} {proceed : String → Service α} {loanId : String}
    (h : ∀ w', c.rely w w' → Ends c task (proceed loanId) w') :
    Ends c task (LoanController.ownLoan message proceed loanId token) w := by
  have trans {w₁ w₂} (r₁ : c.rely w w₁) (r₂ : c.rely w₁ w₂) := doing.fair.trans r₁ r₂
  refine userRule doing fun user _ _ w₁ _ r₁ _ => ?_
  refine readThen (doingLater doing r₁) (getLoanReading doing.fair loanId) fun loan w₂ r₂ => ?_
  have owner : Reading c (fun _ => True) (LoanController.userIdOf loan) := by
    cases loan with
    | loan view => exact readingPure doing.fair _
    | _ => exact readingRaise doing.fair trivial
  refine readThen (doingLater doing (trans r₁ r₂)) owner fun loanUserId w₃ r₃ => ?_
  have r := trans (trans r₁ r₂) r₃
  exact refuseEnds (doingLater doing r) (h w₃ r)

theorem ownReservationEnds {message : String} {proceed : ReservationModel → Service α} {reservationId : String}
    (h : ∀ row w', c.rely w w' → ReservationRepository.findById w'.db reservationId = some row → Ends c task (proceed row) w') :
    Ends c task (Controllers.ReservationController.ownReservation message proceed reservationId token) w := by
  refine userRule doing fun user _ _ w₁ _ r₁ _ => ?_
  refine findRule (fun _ r _ => refusedEarly doing (doing.fair.trans r₁ r) _) fun w₂ row r₂ found => ?_
  have r := doing.fair.trans r₁ r₂
  exact refuseEnds (doingLater doing r) (h row w₂ r found)

end Users

section Routes
variable {token : Token} {sub : Option String}

theorem openEnds (r : OpenRoute) (doing : Doing d t c (OpenRoute.task r) w) : Ends c (OpenRoute.task r) (r.serve s) w := by
  have fair := doing.fair
  cases r with
  | createUser data => exact workEnds doing rfl
  | login data => exact renderEnds (readingEnds doing rfl (looksReading fair (loginLooks s data)))
  | listAuthors page => exact renderEnds (readingEnds doing rfl (looksReading fair (authorsLooks page)))
  | getAuthor authorId => exact renderEnds (readingEnds doing rfl (looksReading fair (findLooks _ _)))
  | listBooks page filters =>
    exact renderEnds (renderEnds (readingEnds doing rfl (listBooksReading fair page filters)))
  | getBook bookId => exact renderEnds (renderEnds (readingEnds doing rfl (getBookReading fair bookId)))

theorem endpointEnds (e : Endpoint) (doing : Doing d t c ((requestOf e).map .request) w) :
    Ends c ((requestOf e).map .request) (e.serve token) w := by
  have fair := doing.fair
  have reads {α : Type} {p : Service α} {w'} (r : c.rely w w') (none : (requestOf e).map Task.request = none)
      (h : Reading c (fun _ => True) p) : Ends c ((requestOf e).map .request) p w' :=
    readingEnds (doingLater doing r) none h
  have does {α : Type} {a : Request} {answer : α → Response} {p : Service α} {w'} (r : c.rely w w')
      (same : (requestOf e).map Task.request = some (.request a))
      (rule : Serving (seenIn d t) c a w' → Serves c a answer p w') : Ends c ((requestOf e).map .request) p w' :=
    servesEnds same (rule (doingServing (doingLater doing r) same))
  cases e with
  | listLoans p f => exact renderEnds (adminOnlyEnds doing fun _ r => reads r rfl (listLoansReading fair p f))
  | listActiveLoans p => exact renderEnds (adminOnlyEnds doing fun _ r => reads r rfl (listLoansReading fair p _))
  | listOverdueLoans p => exact renderEnds (adminOnlyEnds doing fun _ r => reads r rfl (listLoansReading fair p _))
  | listLoansByUser userId p status =>
    exact renderEnds (userRule doing fun _ _ _ _ _ r _ => refuseEnds (doingLater doing r)
      (reads r rfl (listLoansByUserReading fair userId p status)))
  | getLoan loanId => exact renderEnds (ownLoanEnds doing fun _ r => reads r rfl (getLoanReading fair loanId))
  | updateLoan loanId data => exact renderEnds (adminOnlyEnds doing fun _ r => does r rfl updateLoanRule)
  | createLoan data => exact renderEnds (adminOnlyEnds doing fun _ r => does r rfl createLoanRule)
  | cancelLoan loanId => exact renderEnds (ownLoanEnds doing fun _ r => does r rfl cancelLoanRule)
  | payLoanFine loanId => exact renderEnds (ownLoanEnds doing fun _ r => does r rfl payFineRule)
  | returnLoan loanId => exact renderEnds (ownLoanEnds doing fun _ r => does r rfl returnLoanRule)
  | renewLoan loanId => exact renderEnds (ownLoanEnds doing fun _ r => does r rfl renewLoanRule)
  | listReservations p f =>
    exact renderEnds (userRule doing fun _ _ _ _ _ r _ => refuseEnds (doingLater doing r)
      (reads r rfl (reservationsReading fair p _)))
  | getReservation reservationId =>
    exact renderEnds (ownReservationEnds doing fun row _ r _ => reads r rfl (readingPure fair row))
  | cancelReservation reservationId =>
    exact renderEnds (ownReservationEnds doing fun _ _ r found =>
      servesEnds rfl (heldReservationRule (doingServing doing rfl) r found))

theorem routeEnds (s : Deployment) (r : Route) (same : ∀ sub' role, token = .payload sub' role → sub' = sub)
    (doing : Doing d t c (Route.task sub r) w) : Ends c (Route.task sub r) (r.serve s token) w := by
  have fair := doing.fair
  have reads {α : Type} {p : Service α} {w'} (r' : c.rely w w') (none : Route.task sub r = none)
      (h : Reading c (fun _ => True) p) : Ends c (Route.task sub r) p w' := readingEnds (doingLater doing r') none h
  have works {a : Request} {w'} (r' : c.rely w w') (some : Route.task sub r = some (.request a)) :
      Ends c (Route.task sub r) (work a) w' := workEnds (doingLater doing r') some
  cases r with
  | listUsers page => exact renderEnds (adminOnlyEnds doing fun _ r => reads r rfl (looksReading fair (usersLooks page)))
  | me => exact renderEnds (readingEnds doing rfl (currentUserReading fair token))
  | getUser userId =>
    refine renderEnds (adminRule doing fun _ _ _ w₁ _ r₁ _ => ?_)
    refine readThen (doingLater doing r₁) (looksReading fair (findLooks _ _)) fun _ w₂ r₂ => ?_
    exact reads (fair.trans r₁ r₂) rfl (readingPure fair _)
  | updateUser userId name => exact renderEnds (namedUserEnds doing rfl rfl fun held => .updateUser rfl held)
  | deleteUser userId => exact renderEnds (namedUserEnds doing rfl rfl fun held => .deleteUser rfl held)
  | updateUserRole userId role => exact renderEnds (namedUserEnds doing rfl rfl fun held => .updateRole rfl held)
  | createAuthor data => exact adminOnlyEnds doing fun _ r => works r rfl
  | updateAuthor authorId data => exact adminOnlyEnds doing fun _ r => works r rfl
  | deleteAuthor authorId => exact adminOnlyEnds doing fun _ r => works r rfl
  | createBook data => exact adminOnlyEnds doing fun _ r => works r rfl
  | updateBook bookId data => exact adminOnlyEnds doing fun _ r => works r rfl
  | deleteBook bookId => exact adminOnlyEnds doing fun _ r => works r rfl
  | createReservation bookId =>
    refine renderEnds (userRule doing fun user userId role w₁ payload r₁ found => ?_)
    obtain rfl := same _ role payload
    have key : user.id.text = userId := (Table.findSound (Option.filter_eq_some_iff.mp found).1).2
    rw [key]
    exact servesEnds rfl (createReservationRule (doingServing (doingLater doing r₁) rfl))
  | listNotifications page userId =>
    exact renderEnds (adminOnlyEnds doing fun _ r => reads r rfl
      (looksReading fair (usesBind (notificationsLooks page userId) fun _ => usesPure _)))
  | runDueLoansJob => exact renderEnds (adminOnlyEnds doing fun _ r => executeEnds s.zone (doingLater doing r))
  | getStats startDate endDate =>
    exact renderEnds (adminOnlyEnds doing fun _ r => reads r rfl (looksReading fair (statsLooks startDate endDate)))
  | exportLoansCsv status userId bookId startDate endDate =>
    exact renderEnds (adminOnlyEnds doing fun _ r => reads r rfl
      (looksReading fair (usesBind (executeLooks _) fun _ => usesPure _)))
  | exportFinesPdf userId bookId minAmount startDate endDate =>
    exact renderEnds (adminOnlyEnds doing fun _ r => reads r rfl
      (looksReading fair (usesBind (executeLooks _) fun _ => usesPure _)))
  | endpoint e => exact renderEnds (endpointEnds e doing)

end Routes

section Guards
variable {admin : Bool} {token : Token}

def Guarded (admin : Bool) (token : Token) (p : Service α) : Prop :=
  ∃ k : UserModel → Service α, p = getCurrentUser token >>= k ∧
    (admin = true → ∀ user, user.role ≠ .admin → ∃ e, k user = Program.raise e)

theorem guardedUser (token : Token) (k : UserModel → Service α) : Guarded false token (getCurrentUser token >>= k) :=
  ⟨k,rfl,nofun⟩

theorem guardedAdmin (token : Token) (k : UserModel → Service α) : Guarded true token (getCurrentAdmin token >>= k) := by
  refine ⟨fun user => refuse (user.role ≠ .admin) (.unauthorized "Acesso de administrador obrigatório") >>= fun _ => k user,?_,
    fun _ user low => ⟨.unauthorized "Acesso de administrador obrigatório",?_⟩⟩
  · unfold getCurrentAdmin
    rw [Program.bindBind]
    refine congrArg _ (funext fun user => ?_)
    rw [Program.bindBind]
    rfl
  · simp only [refuse,if_pos low]
    rfl

theorem guardedThen {p : Service α} (h : Guarded admin token p) (f : α → Service β) : Guarded admin token (p >>= f) := by
  obtain ⟨k,rfl,closed⟩ := h
  refine ⟨fun user => k user >>= f,Program.bindBind _ _ _,fun needed user low => ?_⟩
  obtain ⟨e,raised⟩ := closed needed user low
  refine ⟨e,?_⟩
  show k user >>= f = _
  rw [raised]
  rfl

theorem endpointGuarded (e : Endpoint) : Guarded (endpointNeedsAdmin e) token (e.serve token) := by
  cases e with
  | listLoans => exact guardedThen (guardedAdmin token _) _
  | listActiveLoans => exact guardedThen (guardedAdmin token _) _
  | listOverdueLoans => exact guardedThen (guardedAdmin token _) _
  | updateLoan => exact guardedThen (guardedAdmin token _) _
  | createLoan => exact guardedThen (guardedAdmin token _) _
  | _ => exact guardedThen (guardedUser token _) _

theorem routeGuarded (s : Deployment) (r : Route) : Guarded (needsAdmin r) token (r.serve s token) := by
  cases r with
  | me =>
    have plain : Guarded false token (getCurrentUser token) := ⟨pure,(Program.bindPure _).symm,nofun⟩
    exact guardedThen plain _
  | createReservation => exact guardedThen (guardedUser token _) _
  | endpoint e => exact guardedThen (endpointGuarded e) _
  | createAuthor => exact guardedAdmin token _
  | updateAuthor => exact guardedAdmin token _
  | deleteAuthor => exact guardedAdmin token _
  | createBook => exact guardedAdmin token _
  | updateBook => exact guardedAdmin token _
  | deleteBook => exact guardedAdmin token _
  | _ => exact guardedThen (guardedAdmin token _) _

theorem guardedNarrow {ok : α → List Write → World → Prop} {err : ApiError → World → Prop} {p : Service α}
    (guarded : Guarded admin token p) (fair : c.Fair) (root : Rooted d t w) (effect : Log → Commit → Prop)
    (sub : ∀ h m userId user role, m.client = c.client → token = .payload (some userId) role →
      (seenIn d t h m.clock fun d _ => UserRepository.findById d userId = some user) →
      (admin = true → user.role = .admin) → w.history <:+ h → w.clock ≤ m.clock → c.effect h m → effect h m)
    (h : wp c ok err p [] w) : wp {c with effect := effect} ok err p [] w := by
  obtain ⟨k,rfl,closed⟩ := guarded
  cases token with
  | expired => exact h
  | invalid => exact h
  | payload subject role =>
    intro w₁ r₁
    have here := h w₁ r₁
    rw [Program.viewNil] at here ⊢
    generalize found : (fun d : Database => subject.bind (UserRepository.findById d)) w₁.db = row at here ⊢
    cases row with
    | none => exact here
    | some user =>
      obtain ⟨userId,rfl,row⟩ := Option.bind_eq_some_iff.mp found
      by_cases low : admin = true ∧ user.role ≠ .admin
      · obtain ⟨e,raised⟩ := closed low.1 user low.2
        have here : wp c ok err (k user) [] w₁ := here
        show wp {c with effect := effect} ok err (k user) [] w₁
        rw [raised] at here ⊢
        exact here
      · have root₁ := Program.frameRooted root (fair.frame r₁)
        refine wpSince fair.frame (fun h m own past later did => ?_) (sinceRefl w₁) here
        have since := sinceFrame (fair.frame r₁)
        refine sub h m userId user role own rfl ?_ (fun needed => by_contra fun low' => low ⟨needed,low'⟩)
          (since.past.trans past) (Int.le_trans since.clock later) did
        exact sinceSeen (P := fun d _ => UserRepository.findById d userId = some user) root₁ row past later

end Guards

section Clients

theorem claimedPayload {claims : Claims} {now : Int} {sub role : Option String}
    (payload : claimed claims now = .payload sub role) : sub = claims.sub ∧ ∀ e ∈ claims.exp, now < e * 1000000 := by
  unfold claimed at payload
  split at payload
  · contradiction
  · rename_i lasting
    cases payload
    refine ⟨rfl,fun e mem => ?_⟩
    have held : claims.exp = some e := mem
    rw [held] at lasting
    simpa using lasting

theorem bearerEnds (s : Deployment) {token : Token} {sub : Option String} (r : Route)
    (same : ∀ sub' role, token = .payload sub' role → sub' = sub) (fair : c.Fair) (idle : mine c.client w.history = [])
    (root : Rooted d t w)
    (effect : ∀ h m userId user role task, m.client = c.client → token = .payload (some userId) role →
      (seenIn d t h m.clock fun d _ => UserRepository.findById d userId = some user) →
      (needsAdmin r = true → user.role = .admin) → w.history <:+ h → w.clock ≤ m.clock → Route.task sub r = some task →
      Deed (seenIn d t h m.clock) (mine c.client h) m.before task m.writes → c.effect h m) :
    Ends c (Route.task sub r) (r.serve s token) w := by
  let deeds : Log → Commit → Prop := fun h m => ∃ task, Route.task sub r = some task ∧
    Deed (seenIn d t h m.clock) (mine c.client h) m.before task m.writes
  have fair' : ({c with effect := deeds} : Contract).Fair := ⟨fair.trans,fair.quiet,fair.frame⟩
  have ends : Ends {c with effect := deeds} (Route.task sub r) (r.serve s token) w :=
    routeEnds s r same ⟨fair',idle,root,fun h m task _ some deed => ⟨task,some,deed⟩⟩
  refine guardedNarrow (c := {c with effect := deeds}) (routeGuarded s r) fair' root c.effect
    (fun h m userId user role own payload found admin past later did => ?_) ends
  obtain ⟨task,some,deed⟩ := did
  exact effect h m userId user role task own payload found admin past later some deed

theorem decodeThen (s : Deployment) (credentials : String) (f : Token → Service α) : (decodeToken s credentials >>= f) =
    match s.verified credentials with
    | none => f .invalid
    | some claims => Program.now >>= fun t => f (claimed claims t) := by
  unfold decodeToken
  cases s.verified credentials <;> rfl

theorem clientEnds (s : Deployment) (client : Client) (fair : c.Fair) (idle : mine c.client w.history = []) (root : Rooted d t w)
    (effect : ∀ h m task, m.client = c.client → Done s d t h m client task → c.effect h m) :
    Ends c (Client.task s client) (client.serve s) w := by
  cases client with
  | anonymous r => exact openEnds r ⟨fair,idle,root,fun h m task own some deed => effect h m task own ⟨some,trivial,own ▸ deed⟩⟩
  | scheduler =>
    exact renderEnds (executeEnds s.zone ⟨fair,idle,root,fun h m task own some deed => effect h m task own ⟨some,trivial,own ▸ deed⟩⟩)
  | bearer credentials r =>
    show Ends c (Route.task (subject s credentials) r) (decodeToken s credentials >>= fun token => r.serve s token) w
    rw [decodeThen]
    cases found : s.verified credentials with
    | none =>
      refine bearerEnds s r (fun _ _ payload => ?_) fair idle root fun _ _ _ _ _ _ _ payload => ?_ <;> cases payload
    | some claims =>
      refine wpBind.mpr fun w₁ r₁ n => ?_
      have root₁ := Program.rootedTick (Program.frameRooted root (fair.frame r₁)) n
      have named : subject s credentials = claims.sub := by simp [subject,found]
      refine bearerEnds s r (fun _ _ payload => (claimedPayload payload).1.trans named.symm) fair
        ((fair.frame r₁).mine.trans idle) root₁ fun h m userId user role task own payload seen admin past later some deed => ?_
      obtain ⟨sub,lasting⟩ := claimedPayload payload
      refine effect h m task own ⟨some,⟨claims,userId,user,found,sub.symm,?_,seen,admin⟩,own ▸ deed⟩
      exact sinceSeen (P := fun _ t => ∀ e ∈ claims.exp, t < e * 1000000) root₁ lasting past later

end Clients

end Contracts

section Runs
variable {s : Deployment} {clients : Nat → Option Client} {w : World}

theorem pooledEnds {G : Database → Database → Prop} (admits : Answer → Prop) (refl : ∀ d, G d d)
    (trans : ∀ {a b c}, G a b → G b c → G a c) (fresh : w.history = []) {j : Nat} {client : Client} (sent : clients j = some client) :
    Ends (Program.pooled j G admits (entitled s clients w.db w.clock j)) (Client.task s client) (client.serve s) w :=
  clientEnds s client (Program.pooledFair refl trans) (by rw [fresh]; rfl) (Program.freshRooted fresh)
    fun _ _ task _ did => ⟨client,task,sent,did⟩

theorem poolGood {G : Database → Database → Prop} (admits : Answer → Prop) (s : Deployment) (clients : Nat → Option Client)
    (known : Nat → Log → Commit → Prop) (ok : Client → Body → Log → Prop) (err : Client → ApiError → Log → Prop)
    (refl : ∀ d, G d d) (trans : ∀ {a b c}, G a b → G b c → G a c)
    (keeps : ∀ {m h}, Path (fun h m => known m.client h m) w.db w.clock (m :: h) → G m.before m.after) (fresh : w.history = [])
    (rule : ∀ j client, clients j = some client → wp (Program.pooled j G admits (known j))
      (fun body _ w' => ok client body (mine j w'.history)) (fun e w' => err client e (mine j w'.history)) (client.serve s) [] w)
    (moves : Moves) (admitted : ∀ m ∈ moves, admits m.2.answer) :
    Program.Good G admits known (fun j body own => ∀ client, clients j = some client → ok client body own)
      (fun j e own => ∀ client, clients j = some client → err client e own) w.db w.clock ((receive s w clients).run moves) := by
  refine Program.runGood refl trans keeps (Program.startGood fresh fun j p found => ?_) moves admitted
  obtain ⟨client,sent,rfl⟩ := Option.map_eq_some_iff.mp found
  refine wpMono (fun _ _ w' done client' sent' => ?_) (fun e w' done client' sent' => ?_) (rule j client sent)
  · obtain rfl := Option.some.inj (sent.symm.trans sent')
    exact done
  · obtain rfl := Option.some.inj (sent.symm.trans sent')
    exact done

abbrev SystemGood (admits : Answer → Prop) (s : Deployment) (clients : Nat → Option Client) : Database → Int → Api.Pool → Prop :=
  fun d t => Program.Good (fun _ _ => True) admits (entitled s clients d t)
    (fun j _ own => ∀ client, clients j = some client → Answered (Client.task s client) own)
    (fun j e own => ∀ client, clients j = some client → Refused admits (Client.task s client) e own) d t

theorem systemGood (admits : Answer → Prop) (s : Deployment) (clients : Nat → Option Client) (fresh : w.history = []) (moves : Moves)
    (admitted : ∀ m ∈ moves, admits m.2.answer) : SystemGood admits s clients w.db w.clock ((receive s w clients).run moves) :=
  poolGood admits s clients (entitled s clients w.db w.clock) (fun client _ own => Answered (Client.task s client) own)
    (fun client e own => Refused admits (Client.task s client) e own) (fun _ => trivial) (fun _ _ => trivial) (fun _ => trivial) fresh
    (fun _ _ sent => pooledEnds admits (fun _ => trivial) (fun _ _ => trivial) fresh sent) moves admitted

theorem systemPath (s : Deployment) (clients : Nat → Option Client) (fresh : w.history = []) (moves : Moves) :
    let final := ((receive s w clients).run moves).world
    SystemPath s clients w.db w.clock final.history ∧ final.db = stateAfter w.db final.history := by
  have good := systemGood (fun _ => True) s clients fresh moves fun _ _ => trivial
  exact ⟨good.path,good.root.db⟩

def commitsDue (s : Deployment) (client : Client) : Option Nat := match Client.task s client with
  | none => some 0
  | some (.request r) => some (commitsOf r)
  | some .reminders => none

structure Whole (n : Nat) (own : Log) (thread : Option (Program.Thread Database Write RowKey Cache Answer ApiError Body)) : Prop where
  answered : ∀ b, thread = some (.finished (.ok b)) → own.length = n
  failed : ∀ e, thread = some (.finished (.error e)) → own = []

/-- With Redis up, whatever the others do, a session makes all the commits of its task or
fails without any. -/
theorem wholeOrNothing (s : Deployment) {clients : Nat → Option Client} (d : Database) (x : Cache) (t : Int) {moves : Moves}
    (up : ∀ m ∈ moves, m.2.answer.redisUp = true) {j n : Nat} {client : Client} (sent : clients j = some client)
    (due : commitsDue s client = some n) :
    let final := (receive s (settled d x t) clients).run moves
    Whole n (mine j final.world.history) (final.pool j) := by
  have good := systemGood (fun a => a.redisUp = true) s clients (w := settled d x t) rfl moves up
  have all (own : Log) (answered : Answered (Client.task s client) own) : own.length = n := by
    unfold commitsDue at due
    split at due <;> rename_i task <;> rw [task] at answered <;> cases due
    · exact congrArg List.length answered
    · exact answered
  have nothing (e : ApiError) (own : Log) (refused : Refused (fun a => a.redisUp = true) (Client.task s client) e own) :
      own = [] := by
    have failed : Failed (fun a => a.redisUp = true) e own := by
      unfold commitsDue at due
      split at due <;> rename_i task <;> rw [task] at refused
      · exact refused
      · exact refused
      · contradiction
    rcases failed with none | ⟨_,a,on,off⟩
    · exact none
    · rw [on] at off; contradiction
  exact ⟨fun _ here => all _ (good.threads j _ here client sent),fun e here => nothing e _ (good.threads j _ here client sent)⟩

def plainTokens : Deployment where
  verifyPassword plainPassword hashedPassword := plainPassword == hashedPassword
  sign claims := claims.sub.getD ""
  verified token := some ⟨some token,none,none⟩
  jwtExpireMinutes := 60
  zone := utc

def returningTwice (j : Nat) : Option Client :=
  if j < 2 then some (.bearer (sampleId 2).text (.endpoint (.returnLoan (sampleId 4).text))) else none

def ruledShelf (copies : Int) : Database :=
  {sampleShelf copies with users := ⟨[{sampleUser with role := .admin}],by decide⟩}

def inTurn (n : Nat) : Moves := (List.range n).map fun k => (k % 2,tick k)

theorem inTurnUp (n : Nat) : ∀ m ∈ inTurn n, m.2.answer.redisUp = true := by
  intro m mem
  obtain ⟨k,_,rfl⟩ := List.mem_map.mp mem
  rfl

theorem returningTwiceWhole :
    let final := (receive plainTokens (settled lentOnce.db lentOnce.ext lentOnce.clock) returningTwice).run (inTurn 80)
    Whole 2 (mine 1 final.world.history) (final.pool 1) := by
  have sent : returningTwice 1 = some (.bearer (sampleId 2).text (.endpoint (.returnLoan (sampleId 4).text))) := if_pos (by decide)
  exact wholeOrNothing plainTokens lentOnce.db lentOnce.ext lentOnce.clock (inTurnUp 80) sent rfl

end Runs
end LibraryApi.Application
