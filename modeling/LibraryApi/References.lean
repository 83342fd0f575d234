import LibraryApi.CarriedRows

/-! Foreign keys. The rows of one table point to rows of another, and go on pointing to
them as long as the rows pointed to are carried on and a row points where it pointed. -/
namespace LibraryApi.KeyedTable.Table

variable {κ ρ κ' ρ' : Type} {key : ρ → κ} {key' : ρ' → κ'} [DecidableEq κ] [DecidableEq κ'] {fk : ρ → κ'}

def Refers (fk : ρ → κ') (t : Table key) (t' : Table key') : Prop := ∀ r ∈ t.rows, ∃ r', t'.find (fk r) = some r'

omit [DecidableEq κ] in
theorem refersCarried {R : ρ' → ρ' → Prop} {t : Table key} {t₁ t₂ : Table key'} (carried : Carried R t₁ t₂)
    (refers : Refers fk t t₁) : Refers fk t t₂ := fun r mem => carriedFound carried (refers r mem)

theorem refersInsert {t t' : Table key} {t₁ : Table key'} {row : ρ} (added : t.insert row = some t')
    (there : ∃ r', t₁.find (fk row) = some r') (refers : Refers fk t t₁) : Refers fk t' t₁ := by
  intro r mem
  rcases (memInsert added r).mp mem with old | rfl
  · exact refers r old
  · exact there

theorem refersModify {t : Table key} {t₁ : Table key'} {k : κ} (f : ρ → ρ) (keep : ∀ r, key (f r) = key r)
    (same : ∀ r, fk (f r) = fk r) (refers : Refers fk t t₁) : Refers fk (t.modify k f keep) t₁ := by
  intro r mem
  obtain ⟨old,there,_,rfl⟩ := memModify mem
  split
  · rw [same]
    exact refers old there
  · exact refers old there

end LibraryApi.KeyedTable.Table
