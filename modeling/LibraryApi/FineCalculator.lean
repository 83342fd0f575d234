import Mathlib.Tactic.Common

/-! Lateness and fines. An instant is a naive UTC datetime in microseconds, an
amount of money a number of currency units: the calculator only ever produces
multiples of 2.0, so both are exact. Instants are not bounded by year 9999. -/
namespace LibraryApi.FineCalculator

def dayMicros : Int := 86400000000

def days (n : Int) : Int := n * dayMicros

def date (t : Int) : Int := t / dayMicros

def dailyFineAmount : Int := 2

/- The guard compares instants, the difference counts midnights. -/
def calculateDaysLate (dueDate referenceDate : Int) : Int :=
  if referenceDate ≤ dueDate then 0 else date referenceDate - date dueDate

def calculateAmount (dueDate referenceDate : Int) : Int :=
  calculateDaysLate dueDate referenceDate * dailyFineAmount

theorem dateMono {a b : Int} (h : a ≤ b) : date a ≤ date b :=
  Int.ediv_le_ediv (by decide) h

theorem daysLateNonneg (due r : Int) : 0 ≤ calculateDaysLate due r := by
  unfold calculateDaysLate
  split
  · exact Int.le_refl 0
  · have := dateMono (a := due) (b := r) (by omega)
    omega

theorem daysLateMono {due a b : Int} (h : a ≤ b) :
    calculateDaysLate due a ≤ calculateDaysLate due b := by
  have later := daysLateNonneg due b
  unfold calculateDaysLate at later ⊢
  split
  · exact later
  · rw [if_neg (by omega)]
    have := dateMono h
    omega

theorem amountNonneg (due r : Int) : 0 ≤ calculateAmount due r :=
  Int.mul_nonneg (daysLateNonneg due r) (by decide)

theorem amountMono {due a b : Int} (h : a ≤ b) : calculateAmount due a ≤ calculateAmount due b :=
  Int.mul_le_mul_of_nonneg_right (daysLateMono h) (by decide)

theorem amountPositive {due r : Int} : 0 < calculateAmount due r ↔ 0 < calculateDaysLate due r := by
  unfold calculateAmount dailyFineAmount
  omega

end LibraryApi.FineCalculator
