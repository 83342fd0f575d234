import Mathlib.Data.Int.CardIntervalMod
import Mathlib.Data.Rat.Floor
import Mathlib.Tactic.Linarith

/-! A clock that strikes at every multiple of a step. What is counted between two
instants are the strikes after the first and up to the second: the count adds up over
any instant in between and never differs by a whole step from the time that passed. -/
namespace LibraryApi.Strikes

def strikes (step a b : Int) : Finset Int := (@Finset.Ioc Int _ Int.instLocallyFiniteOrder a b).filter fun m => step ∣ m

section Count
variable {step a b c : Int}

theorem strikesMember {m : Int} : m ∈ strikes step a b ↔ (a < m ∧ m ≤ b) ∧ step ∣ m := by
  rw [strikes,Finset.mem_filter,Finset.mem_Ioc]

theorem noStrikes (done : b ≤ a) : strikes step a b = ∅ := by
  rw [strikes,Finset.Ioc_eq_empty (by omega),Finset.filter_empty]

theorem strikesWider {a' b' : Int} (earlier : a' ≤ a) (later : b ≤ b') : strikes step a b ⊆ strikes step a' b' := by
  intro m mem
  obtain ⟨⟨after,upTo⟩,struck⟩ := strikesMember.mp mem
  exact strikesMember.mpr ⟨⟨by omega,by omega⟩,struck⟩

theorem strikesSplit (left : a ≤ b) (right : b ≤ c) :
    (strikes step a c).card = (strikes step a b).card + (strikes step b c).card := by
  have apart : Disjoint (strikes step a b) (strikes step b c) := by
    refine Finset.disjoint_left.mpr fun m first second => ?_
    have := (strikesMember.mp first).1.2
    have := (strikesMember.mp second).1.1
    omega
  rw [← Finset.card_union_of_disjoint apart,strikes,strikes,strikes,← Finset.filter_union,Finset.Ioc_union_Ioc_eq_Ioc left right]

theorem strikesCount (positive : 0 < step) (later : a ≤ b) : ((strikes step a b).card : Int) = b / step - a / step := by
  have floor (n : Int) : ⌊(n : ℚ) / (step : ℚ)⌋ = n / step := by
    obtain ⟨s,rfl⟩ := Int.eq_ofNat_of_zero_le positive.le
    exact_mod_cast Rat.floor_intCast_div_natCast n s
  have more : a / step ≤ b / step := Int.ediv_le_ediv positive later
  rw [strikes,Int.Ioc_filter_dvd_card a b positive,floor,floor]
  omega

theorem strikesWhole (positive : 0 < step) (k : Nat) : (strikes step a (a + k * step)).card = k := by
  have later : a ≤ a + k * step := Int.le_add_of_nonneg_right (Int.mul_nonneg (Int.natCast_nonneg k) positive.le)
  have count := strikesCount positive later
  rw [Int.add_mul_ediv_right _ _ positive.ne'] at count
  omega

theorem strikesNear (positive : 0 < step) (later : a ≤ b) : |(strikes step a b).card * step - (b - a)| < step := by
  have first := Int.emod_add_mul_ediv a step
  have second := Int.emod_add_mul_ediv b step
  have := Int.emod_nonneg a positive.ne'
  have := Int.emod_nonneg b positive.ne'
  have := Int.emod_lt_of_pos a positive
  have := Int.emod_lt_of_pos b positive
  rw [strikesCount positive later,abs_lt]
  constructor <;> linarith

end Count
end LibraryApi.Strikes
