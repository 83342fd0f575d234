import Mathlib.Data.List.Nodup
import Mathlib.Tactic.Common

/-! Tables with a primary key: a list of rows in insertion order whose keys are
pairwise different. The uniqueness is a field, so a table with two rows under
one key cannot be built; an insert of a taken key is refused, not repaired. -/
namespace LibraryApi.KeyedTable

structure Table {κ ρ : Type} (key : ρ → κ) where
  rows : List ρ
  unique : (rows.map key).Nodup

variable {κ ρ : Type} {key : ρ → κ}

instance [DecidableEq ρ] : DecidableEq (Table key) := fun a b =>
  decidable_of_iff (a.rows = b.rows) ⟨fun h => by cases a; cases b; cases h; rfl,fun h => h ▸ rfl⟩

namespace Table

def empty : Table key := ⟨[],by simp⟩

variable [DecidableEq κ]

def find (t : Table key) (k : κ) : Option ρ := t.rows.find? (fun r => decide (key r = k))

def insert (t : Table key) (r : ρ) : Option (Table key) :=
  if fresh : key r ∈ t.rows.map key then none
  else some ⟨t.rows ++ [r],by
    simp only [List.map_append,List.map_cons,List.map_nil]
    exact List.Nodup.append t.unique (List.nodup_singleton _) (by simpa using fresh)⟩

/-- `UPDATE … WHERE key = k`: the row keeps its key. -/
def modify (t : Table key) (k : κ) (f : ρ → ρ) (keep : ∀ r, key (f r) = key r) : Table key :=
  ⟨t.rows.map (fun r => if key r = k then f r else r),by
    have same : key ∘ (fun r => if key r = k then f r else r) = key := by
      funext r; simp only [Function.comp_apply]; split
      · exact keep r
      · rfl
    rw [List.map_map,same]; exact t.unique⟩

def count (t : Table key) (p : ρ → Bool) : Nat := t.rows.countP p

theorem findSound {t : Table key} {k r} (h : t.find k = some r) : r ∈ t.rows ∧ key r = k :=
  ⟨List.mem_of_find?_eq_some h,by simpa using List.find?_some h⟩

omit [DecidableEq κ] in
theorem sameKey {rows : List ρ} (unique : (rows.map key).Nodup) {a b : ρ}
    (ha : a ∈ rows) (hb : b ∈ rows) (same : key a = key b) : a = b :=
  List.inj_on_of_nodup_map unique ha hb same

theorem findNone {t : Table key} {k} : t.find k = none ↔ ∀ r ∈ t.rows, key r ≠ k := by
  simp [find]

theorem findComplete {t : Table key} {r} (h : r ∈ t.rows) : t.find (key r) = some r := by
  cases found : t.find (key r) with
  | none => exact absurd rfl (findNone.mp found r h)
  | some x =>
    obtain ⟨hx,same⟩ := findSound found
    rw [sameKey t.unique hx h same]

@[simp] theorem findEmpty (k : κ) : (empty : Table key).find k = none := rfl

theorem insertRows {t t' : Table key} {r} (h : t.insert r = some t') :
    t'.rows = t.rows ++ [r] ∧ t.find (key r) = none := by
  unfold insert at h
  split at h <;> try contradiction
  rename_i fresh
  cases Option.some.inj h
  refine ⟨rfl,findNone.mpr fun x hx same => fresh ?_⟩
  exact List.mem_map.mpr ⟨x,hx,same⟩

theorem insertFresh {t : Table key} {r} (fresh : t.find (key r) = none) : ∃ t', t.insert r = some t' := by
  unfold insert
  rw [dif_neg]
  · exact ⟨_,rfl⟩
  · intro there
    obtain ⟨x,mem,same⟩ := List.mem_map.mp there
    exact findNone.mp fresh x mem same

theorem findInsert {t t' : Table key} {r} (h : t.insert r = some t') (k : κ) :
    t'.find k = if key r = k then some r else t.find k := by
  obtain ⟨rows,fresh⟩ := insertRows h
  unfold find at fresh ⊢
  rw [rows,List.find?_append]
  split
  · rename_i same; subst same; simp [fresh]
  · rename_i other
    simp [other]

theorem findModify {t : Table key} {k f keep} (k' : κ) :
    (t.modify k f keep).find k' = if k' = k then (t.find k').map f else t.find k' := by
  have step : ∀ rows : List ρ,
      (rows.map (fun r => if key r = k then f r else r)).find? (fun r => decide (key r = k')) =
        if k' = k then (rows.find? (fun r => decide (key r = k'))).map f
        else rows.find? (fun r => decide (key r = k')) := by
    intro rows
    induction rows with
    | nil => simp
    | cons r rest ih =>
      simp only [List.map_cons,List.find?_cons]
      by_cases hr : key r = k
      · by_cases hk : key r = k'
        · simp [hr,keep,← hk]
        · simp only [hr,if_true,keep]
          have : k ≠ k' := fun e => hk (hr.trans e)
          simp [this,ih]
      · by_cases hk : key r = k'
        · have : k' ≠ k := fun e => hr (hk.trans e)
          simp [hk,this]
        · simp [hr,hk,ih]
  exact step t.rows

theorem memInsert {t t' : Table key} {r} (h : t.insert r = some t') (x : ρ) :
    x ∈ t'.rows ↔ x ∈ t.rows ∨ x = r := by
  rw [(insertRows h).1]; simp

theorem memModify {t : Table key} {k f g x} (h : x ∈ (t.modify k f g).rows) :
    ∃ old ∈ t.rows, key x = key old ∧ x = if key old = k then f old else old := by
  obtain ⟨old,ho,same⟩ := List.mem_map.mp h
  refine ⟨old,ho,?_,same.symm⟩
  rw [← same]; split
  · exact g old
  · rfl

theorem countInsert {t t' : Table key} {r} (h : t.insert r = some t') (p : ρ → Bool) :
    t'.count p = t.count p + if p r then 1 else 0 := by
  simp [count,(insertRows h).1,List.countP_cons]

/- The row under the key is exchanged, every other row is counted as before. -/
theorem countExchanged {rows : List ρ} (unique : (rows.map key).Nodup) {k : κ} {f : ρ → ρ} {r : ρ}
    (mem : r ∈ rows) (hk : key r = k) (p : ρ → Bool) :
    (rows.map (fun x => if key x = k then f x else x)).countP p + (if p r then 1 else 0) =
      rows.countP p + if p (f r) then 1 else 0 := by
  induction rows with
  | nil => simp at mem
  | cons x rest ih =>
    obtain ⟨fresh,unique⟩ := List.nodup_cons.mp unique
    rcases List.mem_cons.mp mem with rfl | inside
    · have others : rest.map (fun y => if key y = k then f y else y) = rest := by
        conv_rhs => rw [← List.map_id rest]
        refine List.map_congr_left fun y hy => ?_
        have other : key y ≠ k := fun same => fresh (List.mem_map.mpr ⟨y,hy,same.trans hk.symm⟩)
        simp [other]
      simp only [List.map_cons,hk,if_true,List.countP_cons,others]
      omega
    · have other : key x ≠ k := by
        intro same
        exact fresh (List.mem_map.mpr ⟨r,inside,hk.trans same.symm⟩)
      have tail := ih unique inside
      simp only [List.map_cons,other,if_false,List.countP_cons]
      omega

theorem countModify {t : Table key} {k f g r} (found : t.find k = some r) (p : ρ → Bool) :
    (t.modify k f g).count p + (if p r then 1 else 0) =
      t.count p + if p (f r) then 1 else 0 :=
  countExchanged t.unique (findSound found).1 (findSound found).2 p

theorem countModifyAbsent {t : Table key} {k f keep} (absent : t.find k = none) (p : ρ → Bool) :
    (t.modify k f keep).count p = t.count p := by
  have others : ∀ r ∈ t.rows, key r ≠ k := findNone.mp absent
  unfold count modify
  congr 1
  conv_rhs => rw [← List.map_id t.rows]
  exact List.map_congr_left fun r hr => by simp [others r hr]

theorem countModifySame {t : Table key} {k f keep} {p : ρ → Bool}
    (same : ∀ r, key r = k → p (f r) = p r) : (t.modify k f keep).count p = t.count p := by
  cases found : t.find k with
  | none => exact countModifyAbsent found p
  | some r =>
    have changed : (t.modify k f keep).count p + _ = _ := countModify found p
    rw [same r (findSound found).2] at changed
    omega

end Table
end LibraryApi.KeyedTable
