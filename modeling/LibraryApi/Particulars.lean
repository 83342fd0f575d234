import LibraryApi.JointRules
import LibraryApi.OwnerRules
import LibraryApi.Permanence
import LibraryApi.ServiceTexts

/-! What the effects of the requests leave open: that whoever signs up is a plain user, and
that a notification goes to the user whose loan or reservation it is about. -/
namespace LibraryApi.Particulars
open Models CacheService KeyedTable Repositories Requests Effects ServiceRules Controllers Security Api Application Permanence
  ServiceTexts
open OwnerRules (ownsLoan ownsReservation)
open KeyedTable.Table (Carried carriedMono carriedModify)
open NotificationHandlers (DomainEvent publish publishDelivers)
open Program (usesCall wp wpBind wpMono wpFree wpBoth looksReading readingThen nowRule selectRule commitRule writeRule execAll
  usesPure usesSelect usesNow)

structure Addressed (d : Database) (n : NotificationModel) : Prop where
  loan : ∀ k ∈ n.loanId, ownsLoan n.userId d k.text
  reservation : ∀ k ∈ n.reservationId, ownsReservation n.userId d k.text

structure Particular (before : Database) (writes : List Write) : Prop where
  users : ∀ u, .insertUser u ∈ writes → u.role = .user
  notifications : ∀ n, .insertNotification n ∈ writes → Addressed before n

section Owners
variable {d d' : Database} {u : Uuid} {k : String}

abbrev SameBorrower (l l' : LoanModel) : Prop := l'.userId = l.userId
abbrev SameReader (r r' : ReservationModel) : Prop := r'.userId = r.userId

theorem ownsLoanCarried (carried : Carried SameBorrower d.loans d'.loans) (h : ownsLoan u d k) : ownsLoan u d' k := by
  obtain ⟨l,found,rfl⟩ := h
  exact carried k l found

theorem ownsReservationCarried (carried : Carried SameReader d.reservations d'.reservations) (h : ownsReservation u d k) :
    ownsReservation u d' k := by
  obtain ⟨r,found,rfl⟩ := h
  exact carried k r found

theorem ownsLoanKept (kept : Kept d d') (h : ownsLoan u d k) : ownsLoan u d' k :=
  ownsLoanCarried (carriedMono (R := LoanKept) LoanKept.userId kept.loans) h

theorem ownsReservationKept (kept : Kept d d') (h : ownsReservation u d k) : ownsReservation u d' k :=
  ownsReservationCarried (carriedMono (R := ReservationKept) ReservationKept.userId kept.reservations) h

theorem addressedKept (kept : Kept d d') {n : NotificationModel} (h : Addressed d n) : Addressed d' n :=
  ⟨fun k about => ownsLoanKept kept (h.loan k about),fun k about => ownsReservationKept kept (h.reservation k about)⟩

theorem closedOwns {b b' : BookModel} {l c : LoanModel} (same : c.userId = l.userId)
    (ran : execAll ([.updateBook b b',.updateLoan l c] : List Write) d = .ok d') (h : ownsLoan u d k) : ownsLoan u d' k := by
  obtain rfl := CommittedRows.ranClose ran
  refine ownsLoanCarried (carriedModify (R := SameBorrower) (fun _ => rfl) (l.flush c) (fun _ => rfl) fun stored => ?_) h
  simp [SameBorrower,LoanModel.flush,same]

theorem lentOwns {b b' : BookModel} {l : LoanModel} (ran : execAll ([.updateBook b b',.insertLoan l] : List Write) d = .ok d') :
    ownsLoan l.userId d' l.id.text := by
  obtain ⟨_,added,rfl⟩ := CommittedRows.ranLend ran
  exact ⟨l,by rw [Table.findInsert added,if_pos rfl],rfl⟩

theorem openedOwns {r : ReservationModel} (ran : execAll ([.insertReservation r] : List Write) d = .ok d') :
    ownsReservation r.userId d' r.id.text := by
  obtain ⟨_,added,rfl⟩ := Database.insertReservationRan (CommittedRows.ranOne ran)
  exact ⟨r,by rw [Table.findInsert added,if_pos rfl],rfl⟩

theorem cancelledOwns {l c : ReservationModel} (ran : execAll ([.updateReservation l c] : List Write) d = .ok d')
    (same : c.userId = l.userId) (h : ownsReservation u d k) : ownsReservation u d' k := by
  cases ran
  refine ownsReservationCarried (carriedModify (R := SameReader) (fun _ => rfl) (l.flush c) (fun _ => rfl) fun stored => ?_) h
  simp [SameReader,ReservationModel.flush,same]

theorem refreshedOwns {c : LoanModel} (h : ownsLoan u d c.id.text) :
    ownsLoan u d ((d.loans.find c.id.text).getD c).id.text ∧ ((d.loans.find c.id.text).getD c).userId = u := by
  obtain ⟨row,found,rfl⟩ := id h
  rw [found]
  exact ⟨(Table.findSound found).2 ▸ h,rfl⟩

theorem reloadedOwns {c : ReservationModel} (h : ownsReservation u d c.id.text) :
    ownsReservation u d ((d.reservations.find c.id.text).getD c).id.text ∧ ((d.reservations.find c.id.text).getD c).userId = u := by
  obtain ⟨row,found,rfl⟩ := id h
  rw [found]
  exact ⟨(Table.findSound found).2 ▸ h,rfl⟩

end Owners

section Contracts
variable {c : Contract} {w : World} {α β : Type}

def silent : Program.Use Write → Prop
  | .write (.insertUser _) => False
  | .write (.insertNotification _) => False
  | _ => True

structure Minding (c : Contract) : Prop where
  fair : c.Fair
  kept : ∀ {w w'}, c.rely w w' → Kept w.db w'.db
  effect : ∀ h m, m.client = c.client → Particular m.before m.writes → c.effect h m

abbrev Minds (c : Contract) (p : Service α) (w : World) : Prop := wp c (fun _ _ _ => True) (fun _ _ => True) p [] w

def Concerns (d : Database) : DomainEvent → Prop
  | .loanCreated _ loanId userId _ => ownsLoan userId d loanId.text
  | .loanReturned _ loanId userId _ => ownsLoan userId d loanId.text
  | .loanCancelled _ loanId userId _ => ownsLoan userId d loanId.text
  | .reservationCreated _ reservationId userId _ => ownsReservation userId d reservationId.text
  | .reservationCancelled _ reservationId userId _ => ownsReservation userId d reservationId.text

variable (minding : Minding c)
include minding

theorem lookThen {p : Service β} {f : β → Service α} (looks : Program.Looks p) (good : ∀ b w', c.rely w w' → Minds c (f b) w') :
    Minds c (p >>= f) w :=
  readingThen (looksReading minding.fair looks) good fun _ _ _ _ => trivial

theorem looksMinds {p : Service α} (looks : Program.Looks p) : Minds c p w :=
  looksReading minding.fair looks _ _ _ _ (fun _ _ _ => trivial) fun _ _ _ _ => trivial

theorem sendMinds {userId : Uuid} {type : NotificationType} {message : String} {loanId reservationId : Option Uuid}
    {f : NotificationModel → Service α} (about : ∀ n : NotificationModel, n.userId = userId → n.loanId = loanId →
      n.reservationId = reservationId → Addressed w.db n) (rest : ∀ n w', Minds c (f n) w') :
    Minds c (NotificationHandlers.NotificationService.sendNotification userId type message loanId reservationId >>= f) w := by
  have fair := minding.fair
  refine wpBind.mpr (wpBind.mpr (nowRule fair fun w₁ r₁ => ?_))
  refine readingThen (uuidReading fair) (fun id w₂ r₂ => ?_) fun _ _ _ none => none.elim
  refine wpBind.mpr (nowRule fair fun w₃ r₃ => ?_)
  refine storeRule fair (fun w₄ _ r₄ _ => minding.effect _ _ rfl ⟨fun u mem => ?_,fun n mem => ?_⟩)
    (fun n w₄ _ _ _ => rest n w₄) fun _ _ _ _ => trivial
  · cases List.mem_singleton.mp mem
  · cases List.mem_singleton.mp mem
    exact addressedKept (minding.kept (fair.trans r₁ (fair.trans r₂ (fair.trans r₃ r₄)))) (about _ rfl rfl rfl)

theorem publishMinds {event : DomainEvent} {f : Unit → Service α} (concerns : Concerns w.db event)
    (rest : ∀ w', Minds c (f ()) w') : Minds c (publish event >>= f) w := by
  have loanOnly {k userId : Uuid} (h : ownsLoan userId w.db k.text) (n : NotificationModel)
      (user : n.userId = userId) (loan : n.loanId = some k) (none : n.reservationId = none) : Addressed w.db n := by
    refine ⟨fun k' mem => ?_,fun k' mem => ?_⟩
    · rw [loan] at mem
      cases mem
      rw [user]
      exact h
    · rw [none] at mem
      contradiction
  have reservationOnly {k userId : Uuid} (h : ownsReservation userId w.db k.text)
      (n : NotificationModel) (user : n.userId = userId) (none : n.loanId = none) (reservation : n.reservationId = some k) :
      Addressed w.db n := by
    refine ⟨fun k' mem => ?_,fun k' mem => ?_⟩
    · rw [none] at mem
      contradiction
    · rw [reservation] at mem
      cases mem
      rw [user]
      exact h
  rw [publishDelivers,Program.bindBind]
  cases event
  case loanCreated | loanReturned | loanCancelled =>
    exact wpBind.mpr (sendMinds minding (loanOnly concerns) fun _ w' => rest w')
  case reservationCreated | reservationCancelled =>
    exact wpBind.mpr (sendMinds minding (reservationOnly concerns) fun _ w' => rest w')

theorem commitMinds {pending : List Write} {f : Unit → Service α} (plain : ∀ x ∈ pending, silent (.write x))
    (rest : ∀ d d' w', Kept w.db d → execAll pending d = .ok d' → w'.db = d' → Minds c (f ()) w') :
    wp c (fun _ _ _ => True) (fun _ _ => True) (Program.commit >>= f) pending w := by
  refine wpBind.mpr (commitRule (fun w₁ d r₁ ran => ⟨minding.effect _ _ rfl ⟨fun u mem => ?_,fun n mem => ?_⟩,?_⟩)
    fun _ _ _ _ => trivial)
  · exact (plain _ mem).elim
  · exact (plain _ mem).elim
  · exact rest w₁.db d _ (minding.kept r₁) ran rfl

omit minding in
theorem refreshRule {loan : LoanModel} {pending : List Write} {f : LoanModel → Service α}
    {ok : α → List Write → World → Prop} {err : ApiError → World → Prop}
    (good : ∀ l w', l.id = loan.id → wp c ok err (f l) pending w') : wp c ok err (LoanRepository.refresh loan >>= f) pending w :=
  wpBind.mpr (selectRule fun w' _ => good _ w' (refreshedLoan _ loan))

theorem loanTailMinds {bookId : String} {userId loanId : Uuid} {event : Int → DomainEvent} {k : Service α}
    (about : ∀ d t, Kept w.db d → Concerns d (event t)) (last : Program.Looks k) : Minds c (do
      BookService.forgetBook bookId
      LoanService.invalidateLoanCache userId loanId
      let t ← Program.now
      publish (event t)
      k) w := by
  refine lookThen minding (forgetBookLooks _) fun _ w₁ r₁ => lookThen minding (invalidateLooks _ _) fun _ w₂ r₂ => ?_
  refine lookThen minding usesNow fun t w₃ r₃ => publishMinds minding (about _ t ?_) fun _ => looksMinds minding last
  exact minding.kept (minding.fair.trans r₁ (minding.fair.trans r₂ r₃))

theorem closeMinds {b b' : BookModel} {l c' : LoanModel} {event : LoanModel → Int → DomainEvent} {answer : LoanModel → α}
    (id : c'.id = l.id) (same : c'.userId = l.userId) (own : ownsLoan l.userId w.db l.id.text)
    (concerns : ∀ d (row : LoanModel) t, ownsLoan row.userId d row.id.text → Concerns d (event row t)) : Minds c (do
      Program.write (.updateBook b b')
      Program.write (.updateLoan l c')
      Program.commit
      let row ← LoanRepository.refresh c'
      BookService.forgetBook row.bookId.text
      LoanService.invalidateLoanCache row.userId row.id
      let t ← Program.now
      publish (event row t)
      return answer row) w := by
  refine wpBind.mpr (writeRule minding.fair (fun w₁ r₁ _ => ?_) fun _ _ _ _ => trivial)
  refine wpBind.mpr (writeRule minding.fair (fun w₂ r₂ _ => ?_) fun _ _ _ _ => trivial)
  refine commitMinds minding (by simp [silent]) fun d d' w₃ kept ran here => ?_
  subst here
  have before : Kept w.db d := keptTrans (minding.kept (minding.fair.trans r₁ r₂)) kept
  have own₃ := closedOwns same ran (ownsLoanKept before own)
  refine wpBind.mpr (selectRule fun w₄ r₄ => ?_)
  rw [Program.viewNil]
  rw [← id] at own₃
  have own₄ := refreshedOwns (ownsLoanKept (minding.kept r₄) own₃)
  refine loanTailMinds minding (fun d t kept => concerns d _ t ?_) (usesPure _)
  exact own₄.2 ▸ ownsLoanKept kept own₄.1

theorem returnLoanMinds (loanId : String) : Minds c (LoanService.returnLoan loanId) w := by
  have fair := minding.fair
  refine lockLoanRule fair (fun _ _ _ => trivial) fun w₁ loan r₁ found _ _ => wpBind.mpr (nowRule fair fun w₂ r₂ => ?_)
  refine refuseRule (fun _ => trivial) fun _ => lockBookRule fair (fun _ _ _ => trivial) fun w₃ book r₃ _ _ _ => ?_
  refine closeMinds minding rfl rfl (ownsLoanKept (minding.kept (fair.trans r₂ r₃)) ⟨loan,?_,rfl⟩) fun _ _ _ own => own
  rw [(Table.findSound found).2]
  exact found

theorem cancelLoanMinds (loanId : String) : Minds c (LoanService.cancelLoan loanId) w := by
  have fair := minding.fair
  refine lockLoanRule fair (fun _ _ _ => trivial) fun w₁ loan r₁ found _ _ => ?_
  refine lockBookRule fair (fun _ _ _ => trivial) fun w₂ book r₂ _ _ _ => wpBind.mpr (nowRule fair fun w₃ r₃ => ?_)
  refine closeMinds minding rfl rfl (ownsLoanKept (minding.kept (fair.trans r₂ r₃)) ⟨loan,?_,rfl⟩) fun _ _ _ own => own
  rw [(Table.findSound found).2]
  exact found

theorem createLoanMinds (data : LoanService.CreateLoanSchema) : Minds c (LoanService.createLoan data) w := by
  have fair := minding.fair
  refine findRule (fun _ _ _ => trivial) fun w₁ user r₁ _ => lookThen minding (usesSelect _) fun _ w₂ r₂ => ?_
  refine lookThen minding (refuseLooks _ _) fun _ w₃ r₃ => lockBookRule fair (fun _ _ _ => trivial) fun w₄ book r₄ _ _ _ => ?_
  refine refuseRule (fun _ => trivial) fun _ => lookThen minding usesNow fun now w₅ r₅ => ?_
  refine wpBind.mpr (writeRule fair (fun w₆ r₆ _ => ?_) fun _ _ _ _ => trivial)
  refine readingThen (uuidReading fair) (fun id w₇ r₇ => ?_) fun _ _ _ none => none.elim
  refine wpBind.mpr (nowRule fair fun w₈ r₈ => ?_)
  generalize made : LoanService.newLoan id user book now w₈.clock = loan
  refine wpBind.mpr (writeRule fair (fun w₉ r₉ _ => ?_) fun _ _ _ _ => trivial)
  refine refreshRule fun created w' same => commitMinds minding (by simp [silent]) fun d d' w₁₀ _ ran here => ?_
  subst here
  have own := lentOwns ran
  rw [← same] at own
  refine wpBind.mpr (selectRule fun w₁₁ r₁₁ => ?_)
  rw [Program.viewNil]
  have own' := refreshedOwns (ownsLoanKept (minding.kept r₁₁) own)
  refine loanTailMinds minding (fun d t kept => ?_) (serializeLooks _)
  exact own'.2 ▸ ownsLoanKept kept own'.1

theorem createReservationMinds (bookId userId : String) : Minds c (ReservationService.createReservation bookId userId) w := by
  have fair := minding.fair
  refine findRule (fun _ _ _ => trivial) fun w₁ user _ _ => findRule (fun _ _ _ => trivial) fun w₂ row _ _ => ?_
  refine lookThen minding (refuseLooks _ _) fun _ _ _ => lookThen minding (usesSelect _) fun _ _ _ => ?_
  refine lookThen minding (uniqueLooks _) fun _ _ _ => lookThen minding (refuseLooks _ _) fun _ _ _ => ?_
  refine readingThen (uuidReading fair) (fun id w₃ r₃ => ?_) fun _ _ _ none => none.elim
  refine wpBind.mpr (nowRule fair fun w₄ r₄ => wpBind.mpr (writeRule fair (fun w₅ r₅ _ => ?_) fun _ _ _ _ => trivial))
  refine commitMinds minding (by simp [silent]) fun d d' w₆ _ ran here => ?_
  subst here
  refine wpBind.mpr (selectRule fun w₇ r₇ => ?_)
  rw [Program.viewNil]
  have own := reloadedOwns (ownsReservationKept (minding.kept r₇) (openedOwns ran))
  refine lookThen minding usesNow fun t w₈ r₈ => publishMinds minding ?_ fun _ => looksMinds minding (usesPure _)
  exact own.2 ▸ ownsReservationKept (minding.kept r₈) own.1

theorem heldReservationMinds (reservationId : String) {row : ReservationModel}
    (own : ownsReservation row.userId w.db row.id.text) : Minds c (do
      let _ ← ReservationService.getReservation reservationId
      ReservationService.cancelLoaded row) w := by
  have fair := minding.fair
  refine lookThen minding (findLooks _ _) fun _ w₁ r₁ => refuseRule (fun _ => trivial) fun _ => ?_
  refine wpBind.mpr (nowRule fair fun w₂ r₂ => ?_)
  unfold ReservationRepository.update
  rw [Program.bindBind]
  refine wpBind.mpr (writeRule fair (fun w₃ r₃ _ => ?_) fun _ _ _ _ => trivial)
  rw [Program.bindBind]
  refine commitMinds minding (by simp [silent]) fun d d' w₄ kept ran here => ?_
  subst here
  have before := keptTrans (minding.kept (fair.trans r₁ (fair.trans r₂ r₃))) kept
  have own₄ := cancelledOwns ran rfl (ownsReservationKept before own)
  refine wpBind.mpr (selectRule fun w₅ r₅ => ?_)
  rw [Program.viewNil]
  have own₅ := reloadedOwns (c := ReservationService.cancelled row w₂.clock) (ownsReservationKept (minding.kept r₅) own₄)
  refine lookThen minding usesNow fun t w₆ r₆ => publishMinds minding ?_ fun _ => looksMinds minding (usesPure _)
  exact own₅.2 ▸ ownsReservationKept (minding.kept r₆) own₅.1

theorem createUserMinds (data : UserService.CreateUserSchema) : Minds c (UserService.createUser data) w := by
  have fair := minding.fair
  refine lookThen minding (usesSelect _) fun _ _ _ => lookThen minding (uniqueLooks _) fun _ _ _ => ?_
  refine lookThen minding (refuseLooks _ _) fun _ _ _ => lookThen minding (usesCall _) fun _ _ _ => ?_
  refine lookThen minding (usesCall _) fun _ _ _ => lookThen minding usesNow fun _ _ _ => ?_
  refine storeRule fair (fun w₁ _ r₁ _ => minding.effect _ _ rfl ⟨fun u mem => ?_,fun n mem => ?_⟩) (fun _ _ _ _ _ => trivial)
    fun _ _ _ _ => trivial
  · cases List.mem_singleton.mp mem
    rfl
  · cases List.mem_singleton.mp mem

def particular : Client → Bool
  | .anonymous (.createUser _) => true
  | .bearer _ (.createReservation _) => true
  | .bearer _ (.endpoint (.createLoan _)) => true
  | .bearer _ (.endpoint (.returnLoan _)) => true
  | .bearer _ (.endpoint (.cancelLoan _)) => true
  | .bearer _ (.endpoint (.cancelReservation _)) => true
  | _ => false

omit minding in
theorem renderMinds {body : α → β} {p : Service α} (h : Minds c p w) : Minds c (do return body (← p)) w :=
  wpBind.mpr (wpMono (fun _ _ _ _ => trivial) (fun _ _ h => h) h)

theorem ownLoanMinds {message loanId : String} {token : Token} {proceed : String → Service α}
    (h : ∀ w', c.rely w w' → Minds c (proceed loanId) w') : Minds c (LoanController.ownLoan message proceed loanId token) w := by
  refine lookThen minding (currentUserLooks token) fun _ w₁ r₁ => lookThen minding (getLoanLooks loanId) fun loan w₂ r₂ => ?_
  refine lookThen minding (ownerLooks loan) fun _ w₃ r₃ => lookThen minding (refuseLooks _ _) fun _ w₄ r₄ => ?_
  exact h w₄ (minding.fair.trans r₁ (minding.fair.trans r₂ (minding.fair.trans r₃ r₄)))

theorem clientMinds (s : Deployment) {client : Client} (some : particular client = true) : Minds c (client.serve s) w := by
  cases client with
  | scheduler => contradiction
  | anonymous r =>
    cases r with
    | createUser data => exact renderMinds (renderMinds (createUserMinds minding data))
    | _ => contradiction
  | bearer credentials r =>
    refine lookThen minding (decodeLooks s credentials) fun token w₁ _ => ?_
    cases r with
    | createReservation bookId =>
      exact renderMinds (lookThen minding (currentUserLooks token) fun _ _ _ => createReservationMinds minding _ _)
    | endpoint e =>
      cases e with
      | createLoan data =>
        refine renderMinds (renderMinds (lookThen minding (currentAdminLooks token) fun _ _ _ => ?_))
        exact createLoanMinds minding data
      | returnLoan loanId =>
        exact renderMinds (renderMinds (ownLoanMinds minding fun _ _ => returnLoanMinds minding loanId))
      | cancelLoan loanId =>
        exact renderMinds (renderMinds (ownLoanMinds minding fun _ _ => cancelLoanMinds minding loanId))
      | cancelReservation reservationId =>
        refine renderMinds (renderMinds (lookThen minding (currentUserLooks token) fun _ _ _ => ?_))
        refine findRule (fun _ _ _ => trivial) fun _ row _ found => refuseRule (fun _ => trivial) fun _ => ?_
        exact heldReservationMinds minding reservationId ⟨row,by rw [(Table.findSound found).2]; exact found,rfl⟩
      | _ => contradiction
    | _ => contradiction

end Contracts

section Runs
variable {s : Deployment} {clients : Nat → Option Client} {d : Database} {t : Int} {h : Log}

def speaks : Request → Bool
  | .createUser _ => true
  | .createReservation _ _ => true
  | .cancelReservation _ => true
  | .createLoan _ => true
  | .returnLoan _ => true
  | .cancelLoan _ => true
  | _ => false

theorem taskSpeaks {client : Client} {r : Request} (task : Client.task s client = some (.request r)) (speaking : speaks r = true) :
    particular client = true := by
  cases client with
  | scheduler => cases task
  | anonymous r' =>
    cases r' with
    | createUser data => rfl
    | _ => cases task
  | bearer credentials r' =>
    cases r' with
    | createReservation bookId => rfl
    | endpoint e =>
      cases e with
      | createLoan data => rfl
      | returnLoan loanId => rfl
      | cancelLoan loanId => rfl
      | cancelReservation reservationId => rfl
      | _ => cases task <;> contradiction
    | _ => cases task <;> contradiction

theorem silentParticular {seen : Seen} {own : Log} {before : Database} {r : Request} {writes : List Write}
    (e : Effect seen own before r writes) (quiet : speaks r = false) : Particular before writes := by
  cases e with
  | notify second about => cases r <;> first | exact about.elim | contradiction
  | createUser => contradiction
  | createReservation => contradiction
  | deleteAuthor =>
    refine ⟨fun u mem => ?_,fun n mem => ?_⟩ <;> rcases List.mem_cons.mp mem with same | mem
    · cases same
    · obtain ⟨_,_,same⟩ := List.mem_map.mp mem; cases same
    · cases same
    · obtain ⟨_,_,same⟩ := List.mem_map.mp mem; cases same
  | _ => exact ⟨by simp,by simp⟩

def detailed (s : Deployment) (clients : Nat → Option Client) (d : Database) (t : Int) (j : Nat) (h : Log) (m : Commit) : Prop :=
  entitled s clients d t j h m ∧
    ((∃ client, clients j = some client ∧ particular client = true) → Particular m.before m.writes)

abbrev DetailedPath (s : Deployment) (clients : Nat → Option Client) (d : Database) (t : Int) : Log → Prop :=
  Program.Path (fun h m => detailed s clients d t m.client h m) d t

theorem plainPath (path : DetailedPath s clients d t h) : SystemPath s clients d t h :=
  path.mono fun _ _ known => known.1

theorem detailedPath (s : Deployment) (clients : Nat → Option Client) {w : World} (fresh : w.history = []) (moves : Moves) :
    let final := ((receive s w clients).run moves).world
    DetailedPath s clients w.db w.clock final.history ∧ final.db = Program.stateAfter w.db final.history := by
  have fair (j : Nat) (effect : Log → Commit → Prop) : (Program.pooled j Kept (fun _ => True) effect : Contract).Fair :=
    Program.pooledFair keptRefl keptTrans
  have rule (j : Nat) (client : Client) (sent : clients j = some client) :
      wp (Program.pooled j Kept (fun _ => True) (detailed s clients w.db w.clock j)) (fun _ _ _ => True) (fun _ _ => True)
        (client.serve s) [] w := by
    have ends := pooledEnds (s := s) (fun _ => True) keptRefl keptTrans fresh sent
    have minds : Minds (Program.pooled j Kept (fun _ => True) fun _ m =>
        (∃ client, clients j = some client ∧ particular client = true) → Particular m.before m.writes) (client.serve s) w := by
      cases speaking : particular client with
      | true => exact clientMinds ⟨fair j _,fun r => r.2,fun h m _ known _ => known⟩ s speaking
      | false =>
        refine wpFree (fun h m _ told => ?_) _
        obtain ⟨client',sent',speaking'⟩ := told
        obtain rfl := Option.some.inj (sent.symm.trans sent')
        rw [speaking] at speaking'
        contradiction
    exact wpMono (fun _ _ _ _ => trivial) (fun _ _ _ => trivial)
      (wpBoth (c := Program.pooled j Kept (fun _ => True) fun _ _ => True) ends minds)
  have good := poolGood (fun _ => True) s clients (detailed s clients w.db w.clock) (fun _ _ _ => True) (fun _ _ _ => True)
    keptRefl keptTrans (fun path => commitKept (plainPath path)) fresh rule moves fun _ _ => trivial
  exact ⟨good.path,good.root.db⟩

theorem remindsParticular {clock : Int} {writes : List Write} (path : DetailedPath s clients d t h)
    (reminds : Reminds (Program.seenIn d t h clock) writes) : Particular (Program.stateAfter d h) writes := by
  cases reminds with
  | @sent l _ _ _ _ _ _ borrowed _ =>
    obtain ⟨d₀,_,found,kept⟩ := seenKept (plainPath path) borrowed
    refine ⟨fun u mem => ?_,fun n mem => ?_⟩ <;> cases List.mem_singleton.mp mem
    refine addressedKept kept ⟨fun k about => ?_,nofun⟩
    obtain rfl : l.id = k := Option.some.inj about
    exact ⟨l,found,rfl⟩

theorem commitParticular {m : Commit} (path : DetailedPath s clients d t (m :: h)) : Particular m.before m.writes := by
  cases path with
  | commit rest before ran clock known =>
    obtain ⟨⟨client,task,sent,done⟩,told⟩ := known
    cases task with
    | reminders => exact before ▸ remindsParticular rest done.deed
    | request r =>
      cases speaking : speaks r with
      | true => exact told ⟨client,sent,taskSpeaks done.set speaking⟩
      | false => exact silentParticular done.deed speaking

end Runs
end LibraryApi.Particulars
