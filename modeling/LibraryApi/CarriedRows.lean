import LibraryApi.KeyedTable
import LibraryApi.ProgramSound

/-! What a history leaves of a table: no row is lost, and each is related to what it was.
A relation that composes and that every commit keeps holds between any two states of a
history, also between a state a client has seen and the one it commits on. -/
namespace LibraryApi.KeyedTable.Table

variable {κ ρ : Type} {key : ρ → κ} [DecidableEq κ] {R : ρ → ρ → Prop}

def Carried (R : ρ → ρ → Prop) (t t' : Table key) : Prop :=
  ∀ k r, t.find k = some r → ∃ r', t'.find k = some r' ∧ R r r'

theorem carriedRefl (refl : ∀ r, R r r) (t : Table key) : Carried R t t := fun _ r found => ⟨r,found,refl r⟩

theorem carriedTrans (trans : ∀ {a b c}, R a b → R b c → R a c) {t₁ t₂ t₃ : Table key}
    (left : Carried R t₁ t₂) (right : Carried R t₂ t₃) : Carried R t₁ t₃ := by
  intro k r found
  obtain ⟨r₂,found₂,rel₂⟩ := left k r found
  obtain ⟨r₃,found₃,rel₃⟩ := right k r₂ found₂
  exact ⟨r₃,found₃,trans rel₂ rel₃⟩

theorem carriedMono {S : ρ → ρ → Prop} (sub : ∀ {a b}, R a b → S a b) {t t' : Table key} (h : Carried R t t') : Carried S t t' :=
  fun k r found => (h k r found).imp fun _ carried => ⟨carried.1,sub carried.2⟩

theorem carriedFound {t t' : Table key} (h : Carried R t t') {k : κ} (there : ∃ r, t.find k = some r) : ∃ r, t'.find k = some r := by
  obtain ⟨r,found⟩ := there
  obtain ⟨r',found',_⟩ := h k r found
  exact ⟨r',found'⟩

theorem carriedInsert (refl : ∀ r, R r r) {t t' : Table key} {row : ρ} (added : t.insert row = some t') : Carried R t t' := by
  intro k r found
  refine ⟨r,?_,refl r⟩
  rw [findInsert added,if_neg]
  · exact found
  · rintro rfl
    rw [(insertRows added).2] at found
    contradiction

theorem carriedModify (refl : ∀ r, R r r) {t : Table key} {k : κ} (f : ρ → ρ) (keep : ∀ r, key (f r) = key r)
    (changed : ∀ r, R r (f r)) : Carried R t (t.modify k f keep) := by
  intro k' r found
  rw [findModify,found]
  split
  · exact ⟨f r,rfl,changed r⟩
  · exact ⟨r,rfl,refl r⟩

end LibraryApi.KeyedTable.Table

namespace LibraryApi.Program

variable {D W K E : Type} [Backend D W K E] {effect : List (Commit D W) → Commit D W → Prop} {d : D} {t : Int}
  {R : D → D → Prop} {h later : List (Commit D W)}

theorem pathRelated (refl : ∀ d, R d d) (trans : ∀ {a b c}, R a b → R b c → R a c)
    (kept : ∀ {m h}, Path effect d t (m :: h) → R m.before m.after) (path : Path effect d t (later ++ h)) :
    R (stateAfter d h) (stateAfter d (later ++ h)) :=
  pathSince refl trans (fun path (_ : True) => kept path) path fun _ _ => trivial

theorem seenRelated (refl : ∀ d, R d d) (trans : ∀ {a b c}, R a b → R b c → R a c)
    (kept : ∀ {m h}, Path effect d t (m :: h) → R m.before m.after) (path : Path effect d t h) {clock : Int}
    {P : D → Int → Prop} (seen : seenIn d t h clock P) : ∃ d₀ t₀, P d₀ t₀ ∧ R d₀ (stateAfter d h) := by
  obtain ⟨later,h₀,t₀,rfl,_,_,held⟩ := seen
  exact ⟨_,t₀,held,pathRelated (R := R) refl trans kept path⟩

def Along (P : List (Commit D W) → Commit D W → Prop) : List (Commit D W) → Prop
  | [] => True
  | m :: h => P h m ∧ Along P h

theorem splitAlong {P : List (Commit D W) → Commit D W → Prop} {h : List (Commit D W)}
    (each : ∀ {later m rest}, h = later ++ m :: rest → P rest m) : Along P h := by
  induction h with
  | nil => trivial
  | cons m h ih =>
    refine ⟨@each [] m h rfl,ih fun {later _ _} same => @each (m :: later) _ _ ?_⟩
    rw [same,List.cons_append]

theorem pathInvariant {I : D → Prop} (start : I d)
    (step : ∀ {m h}, Path effect d t (m :: h) → (∀ P, seenIn d t h m.clock P → ∃ d₀ t₀, P d₀ t₀ ∧ I d₀) →
      I m.before → I m.after)
    (path : Path effect d t h) : ∀ h₀, h₀ <:+ h → I (stateAfter d h₀) := by
  induction path with
  | start => exact fun h₀ past => List.suffix_nil.mp past ▸ start
  | @commit m h rest before ran clock known ih =>
    intro h₀ past
    rcases List.suffix_cons_iff.mp past with rfl | past
    · refine step (.commit rest before ran clock known) (fun P seen => ?_) (before ▸ ih h List.suffix_rfl)
      obtain ⟨later,h₀,t₀,split,_,_,held⟩ := seen
      exact ⟨_,t₀,held,ih h₀ ⟨later,split.symm⟩⟩
    · exact ih h₀ past

end LibraryApi.Program
