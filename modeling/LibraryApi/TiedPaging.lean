import LibraryApi.Paging
import Mathlib.Data.List.Sort
import Mathlib.Order.Lattice

/-! Pages cut out of an ordered result. Rows with one key come in any order among
themselves, and each page may see another one; that shows exactly when a page ends amid
the rows of one key. -/
namespace LibraryApi.Paging

variable {α κ : Type}

theorem prefixCount {l : List α} {p : α → Bool} (down : l.Pairwise fun a b => p b = true → p a = true) :
    l.filter p = l.take (l.countP p) := by
  induction l with
  | nil => rfl
  | cons a l ih =>
    obtain ⟨first,rest⟩ := List.pairwise_cons.mp down
    cases here : p a with
    | true => rw [List.filter_cons_of_pos here,List.countP_cons_of_pos here,List.take_succ_cons,ih rest]
    | false =>
      have none : ∀ b ∈ l, ¬ p b = true := fun b mem hit => by
        rw [first b mem hit] at here
        contradiction
      rw [List.filter_cons_of_neg (by simp [here]),List.countP_cons_of_neg (by simp [here]),List.countP_eq_zero.mpr none,
        List.filter_eq_nil_iff.mpr none,List.take_zero]

theorem prefixPlaced {l : List α} {p : α → Bool} (down : l.Pairwise fun a b => p b = true → p a = true) {i : Nat} {x : α}
    (there : l[i]? = some x) : p x = true ↔ i < l.countP p := by
  have front := prefixCount down
  constructor
  · intro hit
    by_contra late
    have behind : x ∈ l.drop (l.countP p) := by
      refine List.mem_of_getElem? (i := i - l.countP p) ?_
      rwa [List.getElem?_drop,Nat.add_sub_cancel' (by omega)]
    have split : l.countP p = (l.take (l.countP p)).countP p + (l.drop (l.countP p)).countP p := by
      rw [← List.countP_append,List.take_append_drop]
    have all : (l.take (l.countP p)).countP p = l.countP p := by
      rw [← front,List.countP_filter]
      exact List.countP_congr (by simp)
    exact List.countP_eq_zero.mp (by omega) x behind hit
  · intro early
    have inside : x ∈ l.take (l.countP p) := List.mem_of_getElem? (by rw [List.getElem?_take_of_lt early]; exact there)
    rw [← front] at inside
    exact (List.mem_filter.mp inside).2

section Ties
variable [LinearOrder κ] (key : α → κ)

def below (c : κ) (a : α) : Bool := decide (key a < c)
def upTo (c : κ) (a : α) : Bool := decide (key a ≤ c)

abbrev Ordered (l : List α) : Prop := l.Pairwise fun a b => key a ≤ key b

/-- Some page ends amid the rows of one key. -/
def Torn (size : Nat) (rows : List α) : Prop :=
  ∃ k c, rows.countP (below key c) < k * size ∧ k * size < rows.countP (upTo key c)

variable {key} {l l' rows : List α} {m size : Nat} {c : κ}

theorem belowPrefix (sorted : Ordered key l) (c : κ) : l.Pairwise fun a b => below key c b = true → below key c a = true :=
  sorted.imp fun {_ _} le hit => by
    simp only [below,decide_eq_true_eq] at hit ⊢
    exact lt_of_le_of_lt le hit

theorem upToPrefix (sorted : Ordered key l) (c : κ) : l.Pairwise fun a b => upTo key c b = true → upTo key c a = true :=
  sorted.imp fun {_ _} le hit => by
    simp only [upTo,decide_eq_true_eq] at hit ⊢
    exact le_trans le hit

theorem cutPerm (same : l'.Perm l) (sorted : Ordered key l) (sorted' : Ordered key l')
    (clean : ∀ c, ¬ (l.countP (below key c) < m ∧ m < l.countP (upTo key c))) : (l'.take m).Perm (l.take m) := by
  by_cases inside : m < l.length
  · have there := List.getElem?_eq_getElem inside
    have within : m < l.countP (upTo key (key l[m])) := (prefixPlaced (upToPrefix sorted _) there).mp (by simp [upTo])
    have least : ¬ m < l.countP (below key (key l[m])) := fun low => by
      have := (prefixPlaced (belowPrefix sorted _) there).mpr low
      simp [below] at this
    have count : l.countP (below key (key l[m])) = m := by
      have := clean (key l[m])
      omega
    have count' : l'.countP (below key (key l[m])) = m := same.countP_eq _ ▸ count
    have front := prefixCount (belowPrefix sorted (key l[m]))
    have front' := prefixCount (belowPrefix sorted' (key l[m]))
    rw [count] at front
    rw [count'] at front'
    rw [← front,← front']
    exact same.filter _
  · have all := Nat.le_of_not_lt inside
    rwa [List.take_of_length_le all,List.take_of_length_le (by rw [same.length_eq]; exact all)]

theorem tidyPages (fine : ¬ Torn key size rows) {order : Nat → List α} (same : ∀ page, (order page).Perm rows)
    (sorted : ∀ page, Ordered key (order page)) (n : Nat) :
    (collected n fun page => window page size (order page)).Perm ((order 0).take (n * size)) := by
  have cut (page k : Nat) : ((order page).take (k * size)).Perm ((order 0).take (k * size)) := by
    refine cutPerm ((same page).trans (same 0).symm) (sorted 0) (sorted page) fun c amid => fine ⟨k,c,?_⟩
    rwa [(same 0).countP_eq,(same 0).countP_eq] at amid
  induction n with
  | zero => simp [collected]
  | succ n ih =>
    have next : (order (n+1)).take ((n+1) * size) = (order (n+1)).take (n * size) ++ window (n+1) size (order (n+1)) := by
      rw [Nat.succ_mul,List.take_add]
      rfl
    rw [collectedSucc]
    exact ((ih.trans (cut (n+1) n).symm).append_right _).trans (next ▸ cut (n+1) (n+1))

def swapped (m : Nat) (l : List α) : List α := match l.drop m with
  | a :: b :: rest => l.take m ++ b :: a :: rest
  | _ => l

theorem swappedRows {a b : α} (first : l[m]? = some a) (second : l[m+1]? = some b) (tie : key a = key b) :
    (swapped m l).Perm l ∧ (Ordered key l → Ordered key (swapped m l)) ∧ (swapped m l)[m+1]? = some a := by
  have split : l.drop m = a :: b :: l.drop (m+2) := by
    obtain ⟨here,rfl⟩ := List.getElem?_eq_some_iff.mp first
    obtain ⟨there,rfl⟩ := List.getElem?_eq_some_iff.mp second
    rw [List.drop_eq_getElem_cons here,List.drop_eq_getElem_cons there]
  have whole : l = l.take m ++ a :: b :: l.drop (m+2) := by rw [← split,List.take_append_drop]
  have front : (l.take m).length = m := by
    obtain ⟨here,_⟩ := List.getElem?_eq_some_iff.mp first
    rw [List.length_take]; omega
  have other : swapped m l = l.take m ++ b :: a :: l.drop (m+2) := by unfold swapped; rw [split]
  rw [other]
  refine ⟨?_,fun sorted => ?_,?_⟩
  · conv_rhs => rw [whole]
    exact (List.Perm.swap a b _).append_left _
  · have keys : (l.take m ++ b :: a :: l.drop (m+2)).map key = l.map key := by
      conv_rhs => rw [whole]
      simp [tie]
    exact List.pairwise_map.mp (keys ▸ List.pairwise_map.mpr sorted)
  · rw [List.getElem?_append_right (by omega),front]
    simp

theorem windowHolds {page : Nat} {x : α} {i : Nat} (there : l[i]? = some x) (low : (page - 1) * size ≤ i)
    (high : i < (page - 1) * size + size) : x ∈ window page size l := by
  refine List.mem_of_getElem? (i := i - (page - 1) * size) ?_
  rw [window,List.getElem?_take_of_lt (by omega),List.getElem?_drop]
  rwa [Nat.add_sub_cancel' low]

theorem tornPages (positive : 1 ≤ size) (unique : rows.Nodup) {base : List α} (same : base.Perm rows) (sorted : Ordered key base)
    (torn : Torn key size rows) : ∃ order : Nat → List α, (∀ page, (order page).Perm rows) ∧ (∀ page, Ordered key (order page)) ∧
      ¬ (collected (pageCount rows.length size) fun page => window page size (order page)).Perm rows := by
  obtain ⟨k,c,low,high⟩ := torn
  rw [← same.countP_eq] at low high
  have bound := high.trans_le List.countP_le_length
  have some : 0 < k := Nat.pos_of_ne_zero fun none => by simp [none] at low
  obtain ⟨k,rfl⟩ : ∃ k', k = k' + 1 := ⟨k - 1,by omega⟩
  obtain ⟨m,edge⟩ : ∃ m, (k+1) * size = m + 1 := ⟨(k+1) * size - 1,by omega⟩
  have first := List.getElem?_eq_getElem (l := base) (i := m) (by omega)
  have second := List.getElem?_eq_getElem (l := base) (i := m+1) (by omega)
  have reached {i : Nat} {x : α} (there : base[i]? = Option.some x) (past : base.countP (below key c) ≤ i)
      (within : i < base.countP (upTo key c)) : key x = c := by
    have le := (prefixPlaced (upToPrefix sorted c) there).mpr within
    have ge := mt (prefixPlaced (belowPrefix sorted c) there).mp (by omega)
    simp only [upTo,below,decide_eq_true_eq] at le ge
    exact le_antisymm le (not_lt.mp ge)
  have tie : key base[m] = key base[m+1] :=
    (reached first (by omega) (by omega)).trans (reached second (by omega) (by omega)).symm
  obtain ⟨perm,still,moved⟩ := swappedRows first second tie
  let order (page : Nat) : List α := if page = k + 2 then swapped m base else base
  refine ⟨order,fun page => ?_,fun page => ?_,fun whole => ?_⟩
  · unfold order
    split
    · exact perm.trans same
    · exact same
  · unfold order
    split
    · exact still sorted
    · exact sorted
  · have once : (collected (pageCount rows.length size) fun page => window page size (order page)).Nodup :=
      whole.nodup_iff.mpr unique
    have pages : k + 2 ≤ pageCount rows.length size := by
      rw [← same.length_eq]
      refine (Nat.le_div_iff_mul_le positive).mpr ?_
      rw [Nat.succ_mul (k+1) size]
      omega
    have apart := List.pairwise_iff_getElem.mp (List.nodup_flatMap.mp once).2 k (k+1) (by simp; omega) (by simp; omega) (by omega)
    simp only [Function.onFun,List.getElem_range] at apart
    have here : (k+1) * size = k * size + size := Nat.succ_mul k size
    refine apart (windowHolds (i := m) ?_ ?_ ?_) (windowHolds (i := m+1) ?_ ?_ ?_) (a := base[m])
    · simp [order]
    · simp only [Nat.add_sub_cancel]; omega
    · simp only [Nat.add_sub_cancel]; omega
    · simpa [order] using moved
    · simp only [Nat.add_sub_cancel]; omega
    · simp only [Nat.add_sub_cancel]; omega

end Ties
end LibraryApi.Paging
