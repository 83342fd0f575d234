import LibraryApi.LoanHistory
import LibraryApi.Overdue
import LibraryApi.ReservationHistory

/-! Renewal and the queue of a book. The check at the renewal asks whether anybody has
reserved the book, and a borrower can be in that queue himself: by reserving what he has on
loan, or by borrowing what he has reserved, since no loan ever fulfils a reservation. -/
namespace LibraryApi.QueueForOthers
open Models CacheService KeyedTable Repositories LoanService Requests Effects Runs CommittedRows LoanHistory Overdue
open FineCalculator (calculateDaysLate)
open Program (alone execAll)

def reserved : ApiError :=
  .businessRule "O empréstimo não pode ser renovado porque o livro possui reservas ativas"

def OwnReservation (d : Database) (l : LoanModel) : Prop :=
  ∃ r ∈ d.reservations.rows, r.bookId = l.bookId ∧ r.status = .active ∧ r.userId = l.userId

def OthersReservation (d : Database) (l : LoanModel) : Prop :=
  ∃ r ∈ d.reservations.rows, r.bookId = l.bookId ∧ r.status = .active ∧ r.userId ≠ l.userId

def ForOthers (l : LoanModel) (w : World) (env : Oracle) : Prop :=
  (alone 0 (renewLoan l.id.text) [] w env).1 = .error reserved → OthersReservation w.db l

section Renewing
variable {d : Database} {l : LoanModel} {now : Int}

theorem reservedIff (inTime : ¬ 0 < calculateDaysLate l.dueDate now) (below : l.renewalCount < maxRenewals) :
    renewal d l now = .error reserved ↔ OwnReservation d l ∨ OthersReservation d l := by
  have queued : ReservationRepository.existsActiveForBook d l.bookId = true ↔ OwnReservation d l ∨ OthersReservation d l := by
    unfold ReservationRepository.existsActiveForBook OwnReservation OthersReservation
    simp only [List.any_eq_true,Bool.and_eq_true,beq_iff_eq]
    constructor
    · rintro ⟨r,mem,book,active⟩
      by_cases own : r.userId = l.userId
      · exact .inl ⟨r,mem,book,active,own⟩
      · exact .inr ⟨r,mem,book,active,own⟩
    · rintro (⟨r,mem,book,active,_⟩ | ⟨r,mem,book,active,_⟩) <;> exact ⟨r,mem,book,active⟩
  rw [← queued]
  unfold renewal reserved
  rw [if_neg inTime,if_neg (show ¬ maxRenewals ≤ l.renewalCount by omega)]
  split
  · rename_i yes; exact iff_of_true rfl yes
  · rename_i no; exact iff_of_false nofun no

theorem reservedBy (refused : renewal d l now = .error reserved) : OwnReservation d l ∨ OthersReservation d l := by
  by_cases late : 0 < calculateDaysLate l.dueDate now
  · simp [renewal,late,reserved] at refused
  by_cases full : maxRenewals ≤ l.renewalCount
  · simp [renewal,late,full,reserved] at refused
  · exact (reservedIff late (Int.not_le.mp full)).mp refused

theorem forOthersIff {w : World} {env : Oracle} (stored : w.db.loans.find l.id.text = some l) (active : l.status = .active)
    (inTime : ¬ 0 < calculateDaysLate l.dueDate (w.clock + (env 1).elapsed)) (below : l.renewalCount < maxRenewals) :
    ForOthers l w env ↔ ¬ OwnReservation w.db l ∨ OthersReservation w.db l := by
  unfold ForOthers
  rw [renewAlone stored active,reservedIff inTime below]
  constructor
  · intro only
    by_cases own : OwnReservation w.db l
    · exact .inr (only (.inl own))
    · exact .inl own
  · rintro (free | others) queued
    · exact queued.resolve_left free
    · exact others

end Renewing

def Unmixed (d : Database) : Prop := ∀ l ∈ d.loans.rows, l.status = .active → ¬ OwnReservation d l

def Mixes (d : Database) : Request → Prop
  | .createReservation bookId userId => ∃ l ∈ d.loans.rows, l.status = .active ∧ l.userId.text = userId ∧ l.bookId.text = bookId
  | .createLoan data => ∃ r ∈ d.reservations.rows, r.status = .active ∧ r.userId.text = data.userId ∧ r.bookId.text = data.bookId
  | _ => False

instance (d : Database) (r : Request) : Decidable (Mixes d r) := by cases r <;> unfold Mixes <;> infer_instance

section Steps
variable {seen : Seen} {own : Log} {before after : Database} {r : Request} {writes : List Write} {k : String}

theorem stepSame {l l' : LoanModel} (step : LoanStep seen k l r l') : l'.userId = l.userId ∧ l'.bookId = l.bookId ∧
    (l'.status = .active → l.status = .active) := by
  cases step with
  | kept => exact ⟨rfl,rfl,id⟩
  | returned active => exact ⟨rfl,rfl,fun _ => active⟩
  | cancelled active => exact ⟨rfl,rfl,fun _ => active⟩
  | renewed active => exact ⟨rfl,rfl,fun _ => active⟩
  | paid active => exact ⟨rfl,rfl,fun _ => active⟩
  | rescheduled => exact ⟨rfl,rfl,id⟩

theorem activeLoan (fresh : ∀ Q, seen Q → ∃ d t, Q d t) (e : Effect seen own before r writes)
    (ran : execAll writes before = .ok after) {l' : LoanModel} (mem : l' ∈ after.loans.rows) (active : l'.status = .active) :
    (∃ l ∈ before.loans.rows, l.status = .active ∧ l'.userId = l.userId ∧ l'.bookId = l.bookId) ∨
    ∃ data, r = .createLoan data ∧ own = [] ∧ l'.userId.text = data.userId ∧ l'.bookId.text = data.bookId := by
  have found' := Table.findComplete mem
  cases found : before.loans.find l'.id.text with
  | some l =>
    obtain ⟨l₁,found₁,step⟩ := loanStep e ran found
    cases Option.some.inj (found'.symm.trans found₁)
    obtain ⟨user,book,open_⟩ := stepSame step
    exact .inl ⟨l,(Table.findSound found).1,open_ active,user,book⟩
  | none =>
    obtain ⟨data,_,_,_,_,_,rfl,_⟩ := loanBorn e ran found found'
    cases e with
    | createLoan first reader _ stock =>
      obtain ⟨loans,added,rfl⟩ := ranLend ran
      rcases (Table.memInsert added l').mp mem with old | rfl
      · exact absurd (Table.findComplete old) (by rw [found]; nofun)
      · obtain ⟨d,_,row⟩ := fresh _ reader
        obtain ⟨row,_⟩ := Option.filter_eq_some_iff.mp row
        exact .inr ⟨data,rfl,first,(Table.findSound row).2,(Table.findSound stock).2⟩
    | notify => exact absurd mem (by rw [(elsewhereRan rfl (ranOne ran)).2]; exact fun old => absurd (Table.findComplete old) (by rw [found]; nofun))

theorem activeReservation (fresh : ∀ Q, seen Q → ∃ d t, Q d t) (e : Effect seen own before r writes)
    (ran : execAll writes before = .ok after) {x : ReservationModel} (mem : x ∈ after.reservations.rows)
    (active : x.status = .active) : x ∈ before.reservations.rows ∨
    ∃ bookId userId, r = .createReservation bookId userId ∧ own = [] ∧ x.userId.text = userId ∧ x.bookId.text = bookId := by
  by_cases new : ∃ bookId userId, r = .createReservation bookId userId
  · obtain ⟨bookId,userId,rfl⟩ := new
    cases e with
    | createReservation first reader visible =>
      obtain ⟨rows,added,rfl⟩ := Database.insertReservationRan (ranOne ran)
      rcases (Table.memInsert added x).mp mem with old | rfl
      · exact .inl old
      · obtain ⟨d,_,row⟩ := fresh _ reader
        obtain ⟨row,_⟩ := Option.filter_eq_some_iff.mp row
        obtain ⟨d',_,shown⟩ := fresh _ visible
        exact .inr ⟨bookId,userId,rfl,first,(Table.findSound row).2,(Table.findSound (ServiceRules.visibleBook shown).1).2⟩
    | notify =>
      rw [ReservationHistory.asideAll (by simp [ReservationHistory.aside]) ran] at mem
      exact .inl mem
  · have change := ReservationHistory.reservationsChanged e ran
    generalize after.reservations = rows at change mem
    cases change with
    | same => exact .inl mem
    | opened => exact absurd ⟨_,_,rfl⟩ new
    | closed _ _ _ was =>
      obtain ⟨old,inside,_,rfl⟩ := Table.memModify (g := ReservationHistory.reservationKey _ _) mem
      split at active
      · rw [ReservationHistory.closedStatus was] at active
        contradiction
      · rename_i other
        rw [if_neg other]
        exact .inl inside

theorem unmixedStep (fresh : ∀ Q, seen Q → ∃ d t, Q d t) (e : Effect seen own before r writes)
    (ran : execAll writes before = .ok after) (apart : own = [] → ¬ Mixes before r) (start : Unmixed before) :
    Unmixed after := by
  intro l' stored active
  rintro ⟨x,reservation,book,queued,user⟩
  rcases activeLoan fresh e ran stored active with ⟨l,mem,wasActive,userSame,bookSame⟩ | ⟨data,rfl,first,lender,lent⟩
  · rcases activeReservation fresh e ran reservation queued with old | ⟨bookId,userId,rfl,first,reader,wanted⟩
    · exact start l mem wasActive ⟨x,old,book.trans bookSame,queued,user.trans userSame⟩
    · exact apart first ⟨l,mem,wasActive,by rw [← userSame,← user,reader],by rw [← bookSame,← book,wanted]⟩
  · rcases activeReservation fresh e ran reservation queued with old | ⟨_,_,other,_⟩
    · exact apart first ⟨x,old,queued,by rw [user,lender],by rw [book,lent]⟩
    · contradiction

end Steps

section Runs
variable {t : Int} {calls : List (Request × Oracle)}

def NeverMixes (t : Int) (calls : List (Request × Oracle)) : Prop :=
  ∀ n r env, calls[n]? = some (r,env) → ¬ Mixes (serveAll 0 (opening t) (calls.take n)).2.db r

theorem runUnmixed (never : NeverMixes t calls) : Unmixed (serveAll 0 (opening t) calls).2.db := by
  refine runKeeps (fun l mem => absurd mem List.not_mem_nil) fun done r env rest same seen own before writes after fresh first
    e ran start => unmixedStep fresh e ran (fun none mixes => ?_) start
  subst same
  refine never done.length r env (by simp) ?_
  rw [List.take_left,← first none]
  exact mixes

/-- After requests served one after another, a renewal that is in time and below the limit is
refused for reservations only for somebody else's sake exactly when the borrower has not
reserved the book himself or somebody else has too; along a run that never mixes, always. -/
theorem queueForOthers (t : Int) (calls : List (Request × Oracle)) :
    let w := (serveAll 0 (opening t) calls).2
    (∀ l env, w.db.loans.find l.id.text = some l → l.status = .active →
      ¬ 0 < calculateDaysLate l.dueDate (w.clock + (env 1).elapsed) → l.renewalCount < maxRenewals →
      (ForOthers l w env ↔ ¬ OwnReservation w.db l ∨ OthersReservation w.db l)) ∧
    (NeverMixes t calls → ∀ l env, w.db.loans.find l.id.text = some l → l.status = .active → ForOthers l w env) := by
  intro w
  refine ⟨fun l env stored active inTime below => forOthersIff stored active inTime below,
    fun never l env stored active refused => ?_⟩
  rw [renewAlone stored active] at refused
  exact (reservedBy refused).resolve_left (runUnmixed never l (Table.findSound stored).1 active)

end Runs

section Samples

def waiting : List (Request × Oracle) :=
  borrowing 1 ++ [(.createUser ⟨"Bia","bia@example.com","segredo"⟩,fun _ => tick 5),
    (.createReservation (sampleId 3).text (sampleId 5).text,fun _ => tick 6)]

theorem refusedForBia : ∃ l, (serveAll 0 (opening 0) waiting).2.db.loans.find (sampleId 4).text = some l ∧
    (alone 0 (renewLoan l.id.text) [] (serveAll 0 (opening 0) waiting).2 fun _ => tick 7).1 = .error reserved ∧
    OthersReservation (serveAll 0 (opening 0) waiting).2.db l := by
  have lent : ∃ l ∈ (serveAll 0 (opening 0) waiting).2.db.loans.find (sampleId 4).text, l.status = .active ∧
      (alone 0 (renewLoan l.id.text) [] (serveAll 0 (opening 0) waiting).2 fun _ => tick 7).1 = .error reserved := by
    decide +kernel
  obtain ⟨l,found,active,refused⟩ := lent
  have id : l.id.text = (sampleId 4).text := (Table.findSound found).2
  have each : ∀ n < waiting.length, ∀ call ∈ waiting[n]?, ¬ Mixes (serveAll 0 (opening 0) (waiting.take n)).2.db call.1 := by
    decide +kernel
  have never : NeverMixes 0 waiting := fun n r env sent => each n (List.getElem?_eq_some_iff.mp sent).1 (r,env) sent
  exact ⟨l,found,refused,(queueForOthers 0 waiting).2 never l (fun _ => tick 7) (id ▸ found) active refused⟩

def reservingOwn : World := (serveAll 0 (opening 0)
  (borrowing 1 ++ [(.createReservation (sampleId 3).text (sampleId 2).text,fun _ => tick 5)])).2

theorem refusedForOneself : ∃ l, reservingOwn.db.loans.find (sampleId 4).text = some l ∧ l.status = .active ∧
    ¬ 0 < calculateDaysLate l.dueDate reservingOwn.clock ∧ l.renewalCount < maxRenewals ∧
    (alone 0 (renewLoan l.id.text) [] reservingOwn fun _ => tick 6).1 = .error reserved ∧
    ¬ ForOthers l reservingOwn fun _ => tick 6 := by
  have lent : ∃ l ∈ reservingOwn.db.loans.find (sampleId 4).text, l.status = .active ∧
      ¬ 0 < calculateDaysLate l.dueDate reservingOwn.clock ∧ l.renewalCount < maxRenewals ∧
      (alone 0 (renewLoan l.id.text) [] reservingOwn fun _ => tick 6).1 = .error reserved ∧
      ∀ r ∈ reservingOwn.db.reservations.rows, r.userId = l.userId := by decide +kernel
  obtain ⟨l,found,active,inTime,below,refused,alone⟩ := lent
  refine ⟨l,found,active,inTime,below,refused,fun only => ?_⟩
  obtain ⟨r,mem,_,_,other⟩ := only refused
  exact other (alone r mem)

end Samples
end LibraryApi.QueueForOthers
