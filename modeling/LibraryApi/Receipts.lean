import LibraryApi.Program
import Mathlib.Algebra.BigOperators.Group.Finset.Piecewise

/-! Commits that owe another. A client whose first commit is of a kind has to follow it with
a second one; the kind is due as many times as there are clients that have not. What the
commits of a history come to is the sum of what those of its clients do. -/
namespace LibraryApi.Program

variable {D W : Type}

def due (kind : Commit D W → Bool) (h : List (Commit D W)) : Nat :=
  h.countP fun c => kind c && (mine c.client h).length == 1

theorem mineMember {j : Nat} {h : List (Commit D W)} {m : Commit D W} (mem : m ∈ mine j h) : m ∈ h ∧ m.client = j := by
  obtain ⟨inside,own⟩ := List.mem_filter.mp mem
  exact ⟨inside,by simpa using own⟩

section Due
variable {kind : Commit D W → Bool} {h : List (Commit D W)} {m : Commit D W}

theorem countMine (p : Commit D W → Bool) (j : Nat) (h : List (Commit D W)) :
    h.countP p = (mine j h).countP p + h.countP fun c => p c && !(c.client == j) := by
  rw [mine,List.countP_eq_countP_filter_add h p fun c => c.client == j,List.countP_filter (l := h) (p := p)]
  simp only [List.countP_filter]

theorem dueCons : due kind (m :: h) + ((mine m.client h).countP fun c => kind c && (mine m.client h).length == 1) =
    due kind h + (m :: mine m.client h).countP fun c => kind c && (mine m.client h).length + 1 == 1 := by
  have own {c : Commit D W} (mem : c ∈ mine m.client h) : c.client = m.client := (mineMember mem).2
  have grown : mine m.client (m :: h) = m :: mine m.client h := by rw [mineCons,if_pos rfl]
  have others : ((m :: h).countP fun c => (kind c && (mine c.client (m :: h)).length == 1) && !(c.client == m.client)) =
      h.countP fun c => (kind c && (mine c.client h).length == 1) && !(c.client == m.client) := by
    rw [List.countP_cons_of_neg (by simp)]
    refine List.countP_congr fun c _ => ?_
    by_cases same : c.client = m.client
    · simp [same]
    · rw [mineCons,if_neg (Ne.symm same)]
  unfold due
  rw [countMine _ m.client (m :: h),countMine _ m.client h,others,grown]
  have here : ((m :: mine m.client h).countP fun c => kind c && (mine c.client (m :: h)).length == 1) =
      (m :: mine m.client h).countP fun c => kind c && (mine m.client h).length + 1 == 1 := by
    refine List.countP_congr fun c mem => ?_
    have client : c.client = m.client := by
      rcases List.mem_cons.mp mem with rfl | inside
      · rfl
      · exact own inside
    rw [client,grown,List.length_cons]
  have before : ((mine m.client h).countP fun c => kind c && (mine c.client h).length == 1) =
      (mine m.client h).countP fun c => kind c && (mine m.client h).length == 1 :=
    List.countP_congr fun c mem => by rw [own mem]
  omega

theorem dueFirst (none : mine m.client h = []) : due kind (m :: h) = due kind h + if kind m then 1 else 0 := by
  have balance := @dueCons _ _ kind h m
  rw [none] at balance
  simpa [List.countP_cons] using balance

theorem dueSecond {x : Commit D W} (one : mine m.client h = [x]) : due kind (m :: h) + (if kind x then 1 else 0) = due kind h := by
  have balance := @dueCons _ _ kind h m
  rw [one] at balance
  simpa [List.countP_cons] using balance

theorem dueQuiet (quiet : ∀ c ∈ mine m.client h, kind c = false) (plain : kind m = false) : due kind (m :: h) = due kind h := by
  have balance := @dueCons _ _ kind h m
  have old (n : Nat) : ((mine m.client h).countP fun c => kind c && n == 1) = 0 :=
    List.countP_eq_zero.mpr fun c mem => by simp [quiet c mem]
  rw [List.countP_cons,old,old] at balance
  simpa [plain] using balance

theorem dueNone (settled : ∀ c ∈ h, kind c = true → (mine c.client h).length ≠ 1) : due kind h = 0 :=
  List.countP_eq_zero.mpr fun c mem hit => by
    simp only [Bool.and_eq_true,beq_iff_eq] at hit
    exact settled c mem hit.1 hit.2

end Due

section Shares
variable {M : Type} [AddCommMonoid M] {f : Commit D W → M}

theorem sumMineCons (m : Commit D W) (h : List (Commit D W)) (j : Nat) :
    ((mine j (m :: h)).map f).sum = (if m.client = j then f m else 0) + ((mine j h).map f).sum := by
  rw [mineCons]
  split
  · rw [List.map_cons,List.sum_cons]
  · rw [zero_add]

theorem sumShares {n : Nat} {h : List (Commit D W)} (few : ∀ m ∈ h, m.client < n) :
    (h.map f).sum = ∑ j ∈ Finset.range n, ((mine j h).map f).sum := by
  induction h with
  | nil => exact (Finset.sum_eq_zero fun _ _ => rfl).symm
  | cons m h ih =>
    have here : m.client ∈ Finset.range n := Finset.mem_range.mpr (few m List.mem_cons_self)
    calc ((m :: h).map f).sum = f m + (h.map f).sum := by rw [List.map_cons,List.sum_cons]
      _ = (∑ j ∈ Finset.range n, if m.client = j then f m else 0) + ∑ j ∈ Finset.range n, ((mine j h).map f).sum := by
        rw [Finset.sum_ite_eq,if_pos here,ih fun c mem => few c (List.mem_cons_of_mem _ mem)]
      _ = ∑ j ∈ Finset.range n, ((mine j (m :: h)).map f).sum := by
        rw [← Finset.sum_add_distrib]
        exact Finset.sum_congr rfl fun j _ => (sumMineCons m h j).symm

end Shares
end LibraryApi.Program
