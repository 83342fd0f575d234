import Mathlib.Data.List.Induction
import Mathlib.Data.List.Nodup
import Mathlib.Tactic.Common

/-! The elements of a list that are the first of their class, in the order of the list.
What comes later of a class that is there already does not count, wherever it stands. -/
namespace LibraryApi.FirstOfClass

variable {α κ : Type} [DecidableEq κ] (cls : α → κ)

def firsts (xs : List α) : List α :=
  (xs.zipIdx.filter fun p => (xs.take p.2).all fun x => decide (cls x ≠ cls p.1)).map Prod.fst

theorem firstsSnoc (xs : List α) (x : α) :
    firsts cls (xs ++ [x]) = if cls x ∈ xs.map cls then firsts cls xs else firsts cls xs ++ [x] := by
  have before : (xs.zipIdx.filter fun p => ((xs ++ [x]).take p.2).all fun y => decide (cls y ≠ cls p.1)) =
      xs.zipIdx.filter fun p => (xs.take p.2).all fun y => decide (cls y ≠ cls p.1) := by
    refine List.filter_congr fun p mem => ?_
    have bound : p.2 < xs.length := (List.getElem?_eq_some_iff.mp (List.mem_zipIdx_iff_getElem?.mp mem)).1
    rw [List.take_append_of_le_length (Nat.le_of_lt bound)]
  have last : ((xs ++ [x]).take xs.length).all (fun y => decide (cls y ≠ cls x)) = true ↔ cls x ∉ xs.map cls := by
    rw [List.take_left,List.all_eq_true]
    simp only [decide_eq_true_eq,List.mem_map,not_exists,not_and,ne_eq]
  unfold firsts
  rw [List.zipIdx_append,List.filter_append,List.map_append,before,List.zipIdx_singleton,Nat.zero_add,List.filter_singleton]
  by_cases there : cls x ∈ xs.map cls
  · have none := Bool.eq_false_iff.mpr fun h => last.mp h there
    rw [if_pos there]
    simp only [none,cond_false,List.map_nil,List.append_nil]
  · rw [if_neg there]
    simp only [last.mpr there,cond_true,List.map_cons,List.map_nil]

theorem firstsClasses (xs : List α) (k : κ) : k ∈ (firsts cls xs).map cls ↔ k ∈ xs.map cls := by
  induction xs using List.reverseRecOn with
  | nil => rfl
  | append_singleton xs x ih =>
    rw [firstsSnoc]
    split
    · rename_i there
      rw [ih,List.map_append,List.mem_append]
      exact ⟨.inl,fun h => h.elim id fun new => List.mem_singleton.mp new ▸ there⟩
    · rw [List.map_append,List.map_append,List.mem_append,List.mem_append,ih]

theorem firstsUnique (xs : List α) : ((firsts cls xs).map cls).Nodup := by
  induction xs using List.reverseRecOn with
  | nil => exact List.nodup_nil
  | append_singleton xs x ih =>
    rw [firstsSnoc]
    split
    · exact ih
    · rename_i new
      rw [List.map_append]
      refine List.Nodup.append ih (List.nodup_singleton _) fun k old here => new ?_
      rw [List.map_cons,List.map_nil,List.mem_singleton] at here
      exact here ▸ (firstsClasses cls xs k).mp old

theorem firstsAppend {xs ys : List α} (same : firsts cls xs = firsts cls ys) (zs : List α) :
    firsts cls (xs ++ zs) = firsts cls (ys ++ zs) := by
  induction zs using List.reverseRecOn with
  | nil => rwa [List.append_nil,List.append_nil]
  | append_singleton zs z ih =>
    have classes : cls z ∈ (xs ++ zs).map cls ↔ cls z ∈ (ys ++ zs).map cls := by
      rw [← firstsClasses cls (xs ++ zs),← firstsClasses cls (ys ++ zs),ih]
    rw [← List.append_assoc,← List.append_assoc,firstsSnoc,firstsSnoc,ih,if_congr classes rfl rfl]

theorem firstsAgain {xs zs : List α} (old : ∀ z ∈ zs, cls z ∈ xs.map cls) : firsts cls (xs ++ zs) = firsts cls xs := by
  induction zs using List.reverseRecOn with
  | nil => rw [List.append_nil]
  | append_singleton zs z ih =>
    have there : cls z ∈ (xs ++ zs).map cls := by
      rw [List.map_append]
      exact List.mem_append_left _ (old z (by simp))
    rw [← List.append_assoc,firstsSnoc,if_pos there]
    exact ih fun z mem => old z (List.mem_append_left _ mem)

end LibraryApi.FirstOfClass
