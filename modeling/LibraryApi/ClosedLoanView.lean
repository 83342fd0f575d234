import LibraryApi.DueDateRaces

/-! The view of a closed loan. A returned loan is shown as of its return. A cancelled one is
shown as of now, so its days late go on counting although its fine was set to nothing. -/
namespace LibraryApi.ClosedLoanView
open Models CacheService KeyedTable LoanService Requests Effects Runs LoanHistory DueDateRaces
open FineCalculator (date dateMono calculateDaysLate calculateAmount dailyFineAmount daysLateNonneg daysLateMono days)
open Program (alone Path stateAfter)

def shown (l : LoanModel) (t : Int) : LoanView := match l.status,l.returnedAt with
  | .returned,some r => serializeAt l r
  | _,_ => serializeAt l t

def Steady (l : LoanModel) (t₁ t₂ : Int) : Prop :=
  ∀ w₁ env₁ w₂ env₂, w₁.clock + (env₁ 0).elapsed = t₁ → w₂.clock + (env₂ 0).elapsed = t₂ →
    ∃ v, (alone 0 (serializeLoan l) [] w₁ env₁).1 = .ok v ∧ (alone 0 (serializeLoan l) [] w₂ env₂).1 = .ok v ∧
      v.currentFineAmount = v.fineAmount ∧ v.isOverdue = false ∧ v.daysLate * 2 = v.fineAmount

section Views
variable {l : LoanModel} {t t₁ t₂ : Int}

theorem serializedAlone {w : World} {env : Oracle} :
    (alone 0 (serializeLoan l) [] w env).1 = .ok (shown l (w.clock + (env 0).elapsed)) := by
  unfold serializeLoan shown
  cases l.status with
  | returned => cases l.returnedAt <;> rfl
  | _ => rfl

theorem steadyIff : Steady l t₁ t₂ ↔ shown l t₁ = shown l t₂ ∧ (shown l t₁).currentFineAmount = (shown l t₁).fineAmount ∧
    (shown l t₁).isOverdue = false ∧ (shown l t₁).daysLate * 2 = (shown l t₁).fineAmount := by
  constructor
  · intro steady
    let still (t : Int) : World := settled Database.empty [] t
    have zero (t : Int) : (still t).clock + ((tick 0).elapsed : Int) = t := Int.add_zero t
    obtain ⟨v,first,second,facts⟩ := steady (still t₁) (fun _ => tick 0) (still t₂) (fun _ => tick 0) (zero t₁) (zero t₂)
    rw [serializedAlone,zero] at first second
    cases first
    exact ⟨(Except.ok.inj second).symm,facts⟩
  · rintro ⟨same,facts⟩ w₁ env₁ w₂ env₂ rfl rfl
    exact ⟨_,serializedAlone,by rw [serializedAlone,same],facts⟩

theorem notLateIff : calculateDaysLate l.dueDate t = 0 ↔ date t ≤ date l.dueDate := by
  unfold calculateDaysLate
  split
  · rename_i inTime; exact iff_of_true rfl (dateMono inTime)
  · rename_i past
    have := dateMono (show l.dueDate ≤ t by omega)
    constructor <;> intro h <;> omega

theorem returnedSteady (done : l.status = .returned) (charged : Charged l) : Steady l t₁ t₂ := by
  obtain ⟨r,at_,fine⟩ := charged done
  have view (t : Int) : shown l t = serializeAt l r := by
    unfold shown
    rw [done,at_]
  rw [steadyIff,view,view]
  refine ⟨rfl,?_,?_,?_⟩
  · simp [serializeAt,done]
  · simp [serializeAt,done]
  · show calculateDaysLate l.dueDate r * 2 = l.fineAmount
    rw [fine]; rfl

theorem cancelledSteady (done : l.status = .cancelled) (free : l.fineAmount = 0) (later : t₁ ≤ t₂) :
    Steady l t₁ t₂ ↔ date t₂ ≤ date l.dueDate := by
  have view (t : Int) : shown l t = serializeAt l t := by
    unfold shown
    rw [done]
  have days (t : Int) : (serializeAt l t).daysLate = calculateDaysLate l.dueDate t := rfl
  rw [steadyIff,view,view,← notLateIff]
  constructor
  · rintro ⟨same,_,_,charged⟩
    have counted : (serializeAt l t₁).daysLate * 2 = 0 := charged.trans free
    rw [same,days] at counted
    omega
  · intro none
    have earlier : calculateDaysLate l.dueDate t₁ = 0 := by
      have := daysLateNonneg l.dueDate t₁
      have := @daysLateMono l.dueDate _ _ later
      omega
    refine ⟨?_,?_,?_,?_⟩
    · simp [serializeAt,none,earlier,done]
    · simp [serializeAt,done]
    · simp [serializeAt,done]
    · rw [days,earlier]
      exact free.symm

end Views

def Waived (l : LoanModel) : Prop := l.status = .cancelled → l.fineAmount = 0

theorem waivedStep {seen : Seen} {k : String} {r : Request} {l l' : LoanModel} (step : LoanStep seen k l r l')
    (waived : Waived l) : Waived l' := by
  intro done
  cases step with
  | kept => exact waived done
  | returned => contradiction
  | cancelled => rfl
  | renewed active => rw [show (renewed l).status = l.status from rfl,active] at done; contradiction
  | paid active => rw [show (paid l _).status = l.status from rfl,active] at done; contradiction
  | rescheduled => exact waived done

/-- As long as no due date is committed on a closed loan, whatever the order of the requests:
the view of a closed loan does not depend on when it is looked at exactly when it was
returned or the day it was due on has not passed. -/
theorem closedViewSteady (t : Int) (requests : Nat → Option Request) (moves : Moves) (k : String) :
    let s := (begin (settled .empty [] t) requests).run moves
    StillActive k s.world.history → ∀ l, s.world.db.loans.find k = some l → l.status ≠ .active →
      ∀ t₁ t₂, t₁ ≤ t₂ → (Steady l t₁ t₂ ↔ l.status = .returned ∨ date t₂ ≤ date l.dueDate) := by
  intro s still l found closed t₁ t₂ later
  have good : PoolGood requests (fun _ => True) (fun _ _ => True) .empty t s := poolGood .empty [] t moves fun _ _ => trivial
  have stored : (stateAfter .empty s.world.history).loans.find k = some l := good.root.db ▸ found
  have none (l : LoanModel) : Database.empty.loans.find k ≠ some l := nofun
  have charged : Charged l := chargedPath (fun l there => absurd there (none l)) still good.path l stored
  have fresh (id : Uuid) (user : UserModel) (book : BookModel) (now createdAt : Int) : Waived (newLoan id user book now createdAt) :=
    fun done => by contradiction
  have waived : Waived l := everyLoan fresh waivedStep (fun l there => absurd there (none l)) good.path l stored
  cases done : l.status with
  | active => exact absurd done closed
  | returned => exact iff_of_true (returnedSteady done charged) (.inl rfl)
  | cancelled =>
    rw [cancelledSteady done (waived done) later]
    exact ⟨.inr,fun h => h.resolve_left nofun⟩

def lentAndReturned : State :=
  (begin (settled .empty [] 0) (requestsOf (borrowing 1 ++ [(.returnLoan (sampleId 4).text,fun _ => tick 5)]))).run
    ((List.range 5).flatMap fun j => List.replicate 30 (j,tick (j+1)))

theorem returnedLooksSame : ∃ l, lentAndReturned.world.db.loans.find (sampleId 4).text = some l ∧ l.status = .returned ∧
    Steady l (days 20) (days 40) := by
  have back : ∃ l ∈ lentAndReturned.world.db.loans.find (sampleId 4).text, l.status = .returned := by decide +kernel
  have still : StillActive (sampleId 4).text lentAndReturned.world.history := by decide +kernel
  obtain ⟨l,found,done⟩ := back
  refine ⟨l,found,done,?_⟩
  unfold lentAndReturned at still found
  exact (closedViewSteady 0 _ _ (sampleId 4).text still l found (by rw [done]; nofun) (days 20) (days 40) (by decide)).mpr
    (.inl done)

def lentAndCancelled : World :=
  (serveAll 0 (opening 0) (borrowing 1 ++ [(.cancelLoan (sampleId 4).text,fun _ => tick 5)])).2

theorem cancelledGrowsLate : ∃ l, lentAndCancelled.db.loans.find (sampleId 4).text = some l ∧ l.status = .cancelled ∧
    (shown l (days 20)).daysLate = 6 ∧ (shown l (days 40)).daysLate = 26 ∧ (shown l (days 20)).fineAmount = 0 ∧
    ¬ Steady l (days 20) (days 40) := by
  have closed : ∃ l ∈ lentAndCancelled.db.loans.find (sampleId 4).text, l.status = .cancelled ∧
      (shown l (days 20)).daysLate = 6 ∧ (shown l (days 40)).daysLate = 26 ∧ (shown l (days 20)).fineAmount = 0 := by
    decide +kernel
  obtain ⟨l,found,done,six,more,free⟩ := closed
  refine ⟨l,found,done,six,more,free,fun steady => ?_⟩
  obtain ⟨_,_,_,charged⟩ := steadyIff.mp steady
  rw [six,free] at charged
  contradiction

end LibraryApi.ClosedLoanView
