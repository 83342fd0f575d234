import Mathlib.Data.List.Perm.Basic
import Mathlib.Data.List.Nodup

/-! Pages cut out of a result by OFFSET and LIMIT. Every page is a query of its own, so
each may be cut out of another order of the same rows. -/
namespace LibraryApi.Paging

variable {α : Type}

def window (page size : Nat) (rows : List α) : List α := (rows.drop ((page - 1) * size)).take size

def pageCount (total size : Nat) : Nat := (total + size - 1) / size

def collected (n : Nat) (pages : Nat → List α) : List α := (List.range n).flatMap fun k => pages (k+1)

theorem collectedSucc (n : Nat) (pages : Nat → List α) : collected (n+1) pages = collected n pages ++ pages (n+1) := by
  simp [collected,List.range_succ]

theorem collectedPrefix (size n : Nat) (rows : List α) :
    collected n (fun page => window page size rows) = rows.take (n * size) := by
  induction n with
  | zero => simp [collected]
  | succ n ih =>
    rw [collectedSucc,ih,Nat.succ_mul,List.take_add]
    rfl

theorem pageCountEnough {total size : Nat} (positive : 1 ≤ size) : total ≤ pageCount total size * size := by
  have rest := Nat.div_add_mod (total + size - 1) size
  have small := Nat.mod_lt (total + size - 1) positive
  rw [Nat.mul_comm] at rest
  unfold pageCount
  omega

theorem oneOrder {size : Nat} (positive : 1 ≤ size) (rows : List α) :
    collected (pageCount rows.length size) (fun page => window page size rows) = rows := by
  rw [collectedPrefix,List.take_of_length_le (pageCountEnough positive)]

theorem onePage {total size : Nat} (positive : 1 ≤ size) (fits : total ≤ size) : pageCount total size ≤ 1 := by
  unfold pageCount
  exact Nat.lt_succ_iff.mp ((Nat.div_lt_iff_lt_mul positive).mpr (by omega))

theorem twoPages {total size : Nat} (positive : 1 ≤ size) (more : size < total) : 2 ≤ pageCount total size :=
  (Nat.le_div_iff_mul_le positive).mpr (by omega)

theorem fittingPage {size : Nat} (positive : 1 ≤ size) {rows : List α} (fits : rows.length ≤ size) {order : Nat → List α}
    (same : ∀ page, (order page).Perm rows) :
    (collected (pageCount rows.length size) fun page => window page size (order page)).Perm rows := by
  have counts : pageCount rows.length size = 0 ∨ pageCount rows.length size = 1 := by
    have := onePage positive fits
    omega
  have whole : collected (pageCount rows.length size) (fun page => window page size (order page)) =
      collected (pageCount rows.length size) (fun page => window page size (order 1)) := by
    rcases counts with none | one
    · rw [none]; rfl
    · rw [one]; rfl
  have length : pageCount rows.length size = pageCount (order 1).length size := by rw [(same 1).length_eq]
  rw [whole,length,oneOrder positive]
  exact same 1

def moved (size : Nat) (rows : List α) : List α := match rows with
  | [] => []
  | row :: rest => rest.take size ++ row :: rest.drop size

theorem movedPerm (size : Nat) (rows : List α) : (moved size rows).Perm rows := by
  cases rows with
  | nil => exact List.Perm.refl _
  | cons row rest =>
    have front : (rest.take size ++ row :: rest.drop size).Perm (row :: (rest.take size ++ rest.drop size)) :=
      List.perm_middle
    rwa [List.take_append_drop] at front

theorem shownTwice {size : Nat} (positive : 1 ≤ size) {rows : List α} (more : size < rows.length) (unique : rows.Nodup) :
    ¬ (collected (pageCount rows.length size)
      fun page => window page size (if page = 2 then moved size rows else rows)).Perm rows := by
  intro same
  have two := twoPages positive more
  cases rows with
  | nil => contradiction
  | cons row rest =>
    obtain ⟨n,count⟩ := Nat.exists_eq_add_of_le two
    let page : Nat → List α := fun page => window page size (if page = 2 then moved size (row :: rest) else row :: rest)
    have first : row ∈ page 1 := by
      obtain ⟨s,rfl⟩ := Nat.exists_eq_add_of_le' positive
      simp [page,window]
    have second : row ∈ page 2 := by
      obtain ⟨s,rfl⟩ := Nat.exists_eq_add_of_le' positive
      have length : (rest.take (s+1)).length = s+1 := by
        rw [List.length_take]; simp only [List.length_cons] at more; omega
      have dropped : (moved (s+1) (row :: rest)).drop (s+1) = row :: rest.drop (s+1) := by
        unfold moved
        rw [List.drop_append_of_le_length (by omega),List.drop_of_length_le (by omega)]
        rfl
      show row ∈ ((moved (s+1) (row :: rest)).drop ((2-1) * (s+1))).take (s+1)
      rw [show (2-1) * (s+1) = s+1 by omega,dropped]
      exact List.mem_cons_self
    have ordered : (page 1 ++ page 2).Sublist (collected (2+n) page) := by
      have pages : List.range (2+n) = 0 :: 1 :: (List.range n).map (fun k => k+2) := by
        rw [Nat.add_comm,List.range_succ_eq_map,List.range_succ_eq_map]
        simp [Function.comp_def]
      unfold collected
      rw [pages,List.flatMap_cons,List.flatMap_cons,← List.append_assoc]
      exact List.sublist_append_left _ _
    rw [count] at same
    have apart := (List.nodup_append.mp (ordered.nodup (same.nodup_iff.mpr unique))).2.2
    exact apart row first row second rfl

end LibraryApi.Paging
