import LibraryApi.FineCalculator
import LibraryApi.Strikes

/-! What the calculator counts. The days a loan is late are the midnights after its due
date and up to the reference date, so they add up over any instant in between and jump at
midnights, not at multiples of 24 hours. -/
namespace LibraryApi.LateDays
open FineCalculator Strikes

def midnights (dueDate referenceDate : Int) : Finset Int := strikes dayMicros dueDate referenceDate

theorem dayPositive : 0 < dayMicros := by decide

section Calculator
variable {d r s : Int}

theorem midnightsCounted (d r : Int) : calculateDaysLate d r = (midnights d r).card := by
  unfold calculateDaysLate midnights
  split
  · rename_i inTime
    rw [noStrikes inTime]
    rfl
  · rename_i late
    exact (strikesCount dayPositive (Int.not_le.mp late).le).symm

theorem daysLateWider {d' r' : Int} (earlier : d' ≤ d) (later : r ≤ r') : calculateDaysLate d r ≤ calculateDaysLate d' r' := by
  rw [midnightsCounted,midnightsCounted]
  exact Int.ofNat_le.mpr (Finset.card_le_card (strikesWider earlier later))

theorem daysLateSplit (left : d ≤ s) (right : s ≤ r) :
    calculateDaysLate d r = calculateDaysLate d s + calculateDaysLate s r := by
  rw [midnightsCounted,midnightsCounted,midnightsCounted]
  exact_mod_cast strikesSplit left right

theorem wholeDays {k : Int} (forward : 0 ≤ k) : calculateDaysLate d (d + days k) = k := by
  obtain ⟨n,rfl⟩ := Int.eq_ofNat_of_zero_le forward
  rw [midnightsCounted]
  exact congrArg Nat.cast (strikesWhole dayPositive n)

/- What the later due date loses are the midnights that the move passed over. -/
theorem daysLateMoved {k : Int} (forward : 0 ≤ k) (late : d + days k < r) :
    calculateDaysLate (d + days k) r = calculateDaysLate d r - k := by
  have moved : d ≤ d + days k := Int.le_add_of_nonneg_right (Int.mul_nonneg forward dayPositive.le)
  have split := daysLateSplit moved late.le
  rw [wholeDays forward] at split
  omega

end Calculator

/-- The days late are the midnights passed, whatever the two instants; and so their laws. -/
theorem lateDaysAreMidnights (d r : Int) :
    calculateDaysLate d r = (midnights d r).card ∧ 0 ≤ calculateDaysLate d r ∧
    (∀ r', r ≤ r' → calculateDaysLate d r ≤ calculateDaysLate d r') ∧
    (∀ d', d ≤ d' → calculateDaysLate d' r ≤ calculateDaysLate d r) ∧
    (d < r → |calculateDaysLate d r * dayMicros - (r - d)| < dayMicros) ∧
    (∀ s, d ≤ s → s ≤ r → calculateDaysLate d r = calculateDaysLate d s + calculateDaysLate s r) ∧
    (∀ k, 0 ≤ k → d + days k < r → calculateDaysLate (d + days k) r = calculateDaysLate d r - k) ∧
    calculateAmount d r = 2 * calculateDaysLate d r := by
  refine ⟨midnightsCounted d r,daysLateNonneg d r,fun _ => daysLateMono,fun _ later => daysLateWider later le_rfl,
    fun late => ?_,fun _ => daysLateSplit,fun _ => daysLateMoved,Int.mul_comm _ _⟩
  rw [midnightsCounted]
  exact strikesNear dayPositive late.le

theorem lateAtMidnight : calculateDaysLate (days 14 - 1) (days 14) = 1 ∧
    calculateDaysLate (days 7 - 1 + days 3) (days 14) = calculateDaysLate (days 7 - 1) (days 14) - 3 :=
  ⟨by decide,(lateDaysAreMidnights (days 7 - 1) (days 14)).2.2.2.2.2.2.1 3 (by decide) (by decide)⟩

end LibraryApi.LateDays
