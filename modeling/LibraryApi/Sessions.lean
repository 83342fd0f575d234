import LibraryApi.Controllers
import LibraryApi.LoanCache
import LibraryApi.ReservationHistory

/-! Pools of sessions, endpoints among them. Before an endpoint makes its request it only
reads, so the committed history is that of a pool of requests: along it every loan stays
with its user and its book, and every reservation with its user. -/
namespace LibraryApi.Sessions
open Models CacheService KeyedTable Repositories Requests Effects ServiceRules Runs LoanHistory Controllers
open Program (wp wpBind wpMono Path stateAfter execAll seenIn Reading readingThen readingBind readingPure readingRaise
  readingSelect readingCall)

def requestOf : Endpoint → Option Request
  | .updateLoan loanId data => some (.updateLoan loanId data)
  | .cancelLoan loanId => some (.cancelLoan loanId)
  | .payLoanFine loanId => some (.payFine loanId)
  | .createLoan data => some (.createLoan data)
  | .returnLoan loanId => some (.returnLoan loanId)
  | .renewLoan loanId => some (.renewLoan loanId)
  | .cancelReservation reservationId => some (.cancelReservation reservationId)
  | _ => none

def made (calls : Nat → Option Call) (j : Nat) : Option Request := calls j >>= fun
  | .request r => some r
  | .endpoint e _ => requestOf e

section Contracts
variable {seen : Log → Int → Seen} {c : Contract} {r : Request} {w : World} {α : Type}

def Abides (c : Contract) (p : Service α) (w : World) : Prop :=
  wp c (fun _ _ _ => True) (fun _ _ => True) p [] w

theorem servesAbides {answer : α → Response} {p : Service α} (h : Serves c r answer p w) : Abides c p w :=
  wpMono (fun _ _ _ _ => trivial) (fun _ _ _ => trivial) h

theorem readingAbides {p : Service α} (h : Reading c (fun _ => True) p) : Abides c p w :=
  h _ _ _ _ (fun _ _ _ => trivial) fun _ _ _ _ => trivial

theorem respondAbides {reply : α → Reply} {p : Service α} (h : Abides c p w) : Abides c (respond reply p) w :=
  wpBind.mpr (wpMono (fun _ _ _ _ => trivial) (fun _ _ h => h) h)

theorem refuseReading (fair : c.Fair) {bad : Prop} [Decidable bad] {e : ApiError} :
    Reading c (fun _ => True) (refuse bad e) := by
  unfold refuse
  split
  · exact readingRaise fair trivial
  · exact readingPure fair _

theorem currentUserReading (fair : c.Fair) (token : Token) : Reading c (fun _ => True) (getCurrentUser token) := by
  cases token with
  | expired => exact readingRaise fair trivial
  | invalid => exact readingRaise fair trivial
  | payload sub role =>
    exact readingBind fair (readingSelect _) fun row => requireReading fair _ row

theorem currentAdminReading (fair : c.Fair) (token : Token) :
    Reading c (fun _ => True) (getCurrentAdmin token) :=
  readingBind fair (currentUserReading fair token) fun _ =>
    readingBind fair (refuseReading fair) fun _ => readingPure fair _

theorem reservationsReading (fair : c.Fair) (p : Pagination) (f : ReservationRepository.Filters) :
    Reading c (fun _ => True) (ReservationService.listPaginated p f) := by
  have listed : Reading c (fun _ => True) (ReservationRepository.listPaginated p f) :=
    readingBind fair (readingCall fair fun _ _ _ _ _ => trivial) fun _ =>
    readingBind fair (readingSelect _) fun _ => readingBind fair (readingSelect _) fun _ => readingPure fair _
  exact readingBind fair listed fun _ => readingPure fair _

theorem adminAbides (fair : c.Fair) {token : Token} {p : Service α} (h : ∀ w', c.rely w w' → Abides c p w') :
    Abides c (LoanController.adminOnly p token) w :=
  readingThen (currentAdminReading fair token) (fun _ => h) fun _ _ _ _ => trivial

theorem ownLoanAbides (fair : c.Fair) {message : String} {proceed : String → Service α} {loanId : String}
    {token : Token} (h : ∀ w', c.rely w w' → Abides c (proceed loanId) w') :
    Abides c (LoanController.ownLoan message proceed loanId token) w := by
  refine readingThen (currentUserReading fair token) (fun user w₁ r₁ => ?_) fun _ _ _ _ => trivial
  refine readingThen (getLoanReading fair loanId) (fun loan w₂ r₂ => ?_) fun _ _ _ _ => trivial
  have owner : Reading c (fun _ => True) (LoanController.userIdOf loan) := by
    cases loan with
    | loan view => exact readingPure fair _
    | _ => exact readingRaise fair trivial
  refine readingThen owner (fun loanUserId w₃ r₃ => ?_) fun _ _ _ _ => trivial
  refine readingThen (refuseReading fair) (fun _ w₄ r₄ => ?_) fun _ _ _ _ => trivial
  exact h w₄ (fair.trans r₁ (fair.trans r₂ (fair.trans r₃ r₄)))

theorem ownReservationAbides (fair : c.Fair) {message : String} {proceed : ReservationModel → Service α}
    {reservationId : String} {token : Token} (h : ∀ row w', c.rely w w' →
      ReservationRepository.findById w'.db reservationId = some row → Abides c (proceed row) w') :
    Abides c (ReservationController.ownReservation message proceed reservationId token) w := by
  refine readingThen (currentUserReading fair token) (fun user w₁ r₁ => ?_) fun _ _ _ _ => trivial
  refine findRule (fun _ _ _ => trivial) fun w₂ row r₂ found => ?_
  exact refuseRule (fun _ => trivial) fun _ => h row w₂ (fair.trans r₁ r₂) found

theorem endpointAbides (fair : c.Fair) (e : Endpoint) (token : Token)
    (serving : ∀ r, requestOf e = some r → Serving seen c r w) : Abides c (e.serve token) w := by
  have reads {p : Service Payload} (h : Reading c (fun _ => True) p) {w' : World} : Abides c p w' := readingAbides h
  cases e with
  | listLoans p f => exact respondAbides (adminAbides fair fun _ _ => reads (listLoansReading fair p f))
  | listActiveLoans p => exact respondAbides (adminAbides fair fun _ _ => reads (listLoansReading fair p _))
  | listOverdueLoans p => exact respondAbides (adminAbides fair fun _ _ => reads (listLoansReading fair p _))
  | listLoansByUser userId p status =>
    refine respondAbides (readingThen (currentUserReading fair token) (fun _ w₁ _ => ?_) fun _ _ _ _ => trivial)
    refine readingThen (refuseReading fair) (fun _ w₂ _ => ?_) fun _ _ _ _ => trivial
    exact reads (listLoansByUserReading fair userId p status)
  | getLoan loanId => exact respondAbides (ownLoanAbides fair fun _ _ => reads (getLoanReading fair loanId))
  | updateLoan loanId data =>
    exact respondAbides (adminAbides fair fun _ r => servesAbides (updateLoanRule (servingLater (serving _ rfl) r)))
  | createLoan data =>
    exact respondAbides (adminAbides fair fun _ r => servesAbides (createLoanRule (servingLater (serving _ rfl) r)))
  | cancelLoan loanId =>
    exact respondAbides (ownLoanAbides fair fun _ r => servesAbides (cancelLoanRule (servingLater (serving _ rfl) r)))
  | payLoanFine loanId =>
    exact respondAbides (ownLoanAbides fair fun _ r => servesAbides (payFineRule (servingLater (serving _ rfl) r)))
  | returnLoan loanId =>
    exact respondAbides (ownLoanAbides fair fun _ r => servesAbides (returnLoanRule (servingLater (serving _ rfl) r)))
  | renewLoan loanId =>
    exact respondAbides (ownLoanAbides fair fun _ r => servesAbides (renewLoanRule (servingLater (serving _ rfl) r)))
  | listReservations p f =>
    refine respondAbides (readingThen (currentUserReading fair token) (fun _ w₁ _ => ?_) fun _ _ _ _ => trivial)
    refine readingThen (refuseReading fair) (fun _ w₂ _ => ?_) fun _ _ _ _ => trivial
    exact readingAbides (reservationsReading fair p _)
  | getReservation reservationId =>
    exact respondAbides (ownReservationAbides fair fun row _ _ _ => readingAbides (readingPure fair row))
  | cancelReservation reservationId =>
    exact respondAbides (ownReservationAbides fair fun _ _ r found =>
      servesAbides (heldReservationRule (serving _ rfl) r found))

end Contracts

section History
variable {calls : Nat → Option Call} {d : Database} {x : Cache} {t : Int}

theorem sessionsPath (calls : Nat → Option Call) (d : Database) (x : Cache) (t : Int) (moves : Moves) : let s := (connect (settled d x t) calls).run moves
    PoolPath (made calls) d t s.world.history ∧ s.world.db = stateAfter d s.world.history := by
  have start : Program.Good (fun _ _ => True) (fun _ => True) (sentBy (made calls) d t) (fun _ _ _ => True)
      (fun _ _ _ => True) d t (connect (settled d x t) calls) := by
    refine Program.startGood (w := settled d x t) rfl fun j p found => ?_
    obtain ⟨call,sent,rfl⟩ := Option.map_eq_some_iff.mp found
    have fair : (Program.pooled j (fun _ _ => True) (fun _ => True) (sentBy (made calls) d t j) : Contract).Fair :=
      Program.pooledFair (fun _ => trivial) (fun _ _ => trivial)
    have serving (r : Request) (same : made calls j = some r) :
        Serving (seenIn d t) (Program.pooled j (fun _ _ => True) (fun _ => True) (sentBy (made calls) d t j)) r
          (settled d x t) :=
      ⟨fair,rfl,fun h m client effect => ⟨r,same,effect⟩,
        Program.pooledWitnessed (Program.freshRooted (w := settled d x t) rfl)⟩
    cases call with
    | request r => exact respondAbides (servesAbides (handleRule (serving r (by simp [made,sent]))))
    | endpoint e token => exact endpointAbides fair e token fun r same => serving r (by simp [made,sent,same])
  have good := Program.runGood (fun _ => trivial) (fun _ _ => trivial) (fun _ => trivial) start moves
    fun _ _ => trivial
  exact ⟨good.path,good.root.db⟩

structure Placed (d d' : Database) : Prop where
  loans : ∀ k l, d.loans.find k = some l → ∃ l', d'.loans.find k = some l' ∧ l'.userId = l.userId ∧ l'.bookId = l.bookId
  reservations : ∀ k r, d.reservations.find k = some r →
    ∃ r', d'.reservations.find k = some r' ∧ r'.userId = r.userId

theorem placedRefl (d : Database) : Placed d d :=
  ⟨fun _ l found => ⟨l,found,rfl,rfl⟩,fun _ r found => ⟨r,found,rfl⟩⟩

theorem placedTrans {a b c : Database} (left : Placed a b) (right : Placed b c) : Placed a c := by
  refine ⟨fun k l found => ?_,fun k r found => ?_⟩
  · obtain ⟨l₁,found₁,user₁,book₁⟩ := left.loans k l found
    obtain ⟨l₂,found₂,user₂,book₂⟩ := right.loans k l₁ found₁
    exact ⟨l₂,found₂,user₂.trans user₁,book₂.trans book₁⟩
  · obtain ⟨r₁,found₁,user₁⟩ := left.reservations k r found
    obtain ⟨r₂,found₂,user₂⟩ := right.reservations k r₁ found₁
    exact ⟨r₂,found₂,user₂.trans user₁⟩

theorem effectPlaced {seen : Seen} {own : Log} {r : Request} {writes : List Write} {before after : Database}
    (e : Effect seen own before r writes) (ran : execAll writes before = .ok after) : Placed before after := by
  refine ⟨fun k l found => ?_,fun k row found => ?_⟩
  · obtain ⟨l',found',step⟩ := loanStep e ran found
    exact ⟨l',found',LoanCache.stepUser step,LoanCache.stepBook step⟩
  · have change := ReservationHistory.reservationsChanged e ran
    generalize after.reservations = rows at change ⊢
    cases change with
    | same => exact ⟨row,found,rfl⟩
    | opened _ added => exact ⟨row,Database.insertKeeps added found,rfl⟩
    | closed =>
      unfold ReservationHistory.storeReservation
      rw [Table.findModify,found]
      split
      · exact ⟨_,rfl,by simp [ReservationModel.flush,ReservationService.cancelled]⟩
      · exact ⟨row,rfl,rfl⟩

theorem pathPlaced {requests : Nat → Option Request} {later h : Log} (path : PoolPath requests d t (later ++ h)) :
    Placed (stateAfter d h) (stateAfter d (later ++ h)) := by
  induction later with
  | nil => exact placedRefl _
  | cons m rest ih =>
    cases path with
    | commit path before ran _ effect =>
      obtain ⟨_,_,e⟩ := effect
      exact placedTrans (ih path) (before ▸ effectPlaced e ran)

theorem runPlaced (calls : Nat → Option Call) (d : Database) (x : Cache) (t : Int) (a b : Moves) : Placed ((connect (settled d x t) calls).run a).world.db
    ((connect (settled d x t) calls).run (a ++ b)).world.db := by
  obtain ⟨_,last⟩ : PoolPath (made calls) d t _ ∧ _ := sessionsPath calls d x t a
  obtain ⟨path,last'⟩ : PoolPath (made calls) d t _ ∧ _ := sessionsPath calls d x t (a ++ b)
  obtain ⟨later,grown⟩ := Program.runGrows ((connect (settled d x t) calls).run a) b
  rw [← Program.State.runAppend] at grown
  rw [last,last',← grown]
  rw [← grown] at path
  exact pathPlaced path

end History
end LibraryApi.Sessions
