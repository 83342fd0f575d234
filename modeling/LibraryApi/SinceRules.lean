import LibraryApi.FairRules

/-! What a client has seen, carried to its commits. A fact of the world at one await holds
of a state that every later commit of the client still has in its past; so a contract
proved for the rest of a program may be narrowed by what was found before it. -/
namespace LibraryApi.Program

variable {D W K X C E α β : Type} [Backend D W K E] {c : Contract D W K X C} {d : D} {t : Int}
  {w₀ w w' : World D W K X}

structure Since (w₀ w : World D W K X) : Prop where
  past : w₀.history <:+ w.history
  clock : w₀.clock ≤ w.clock

omit [Backend D W K E] in
theorem sinceRefl (w : World D W K X) : Since w w := ⟨List.suffix_rfl,Int.le_refl _⟩

omit [Backend D W K E] in
theorem sinceTrans {w₁ w₂ : World D W K X} (left : Since w₀ w₁) (right : Since w₁ w₂) : Since w₀ w₂ :=
  ⟨left.past.trans right.past,Int.le_trans left.clock right.clock⟩

theorem sinceFrame {i : Nat} (f : Frame i w w') : Since w w' := by
  obtain ⟨later,grown,_⟩ := f.history
  exact ⟨⟨later,grown.symm⟩,f.clock⟩

omit [Backend D W K E] in
theorem sinceTick (since : Since w₀ w) (n : Nat) : Since w₀ {w with clock := w.clock + n} :=
  ⟨since.past,Int.le_trans since.clock (Int.le_add_of_nonneg_right (Int.natCast_nonneg n))⟩

omit [Backend D W K E] in
theorem sinceRecord (since : Since w₀ w) (i : Nat) (pending : List W) (after : D) : Since w₀ (w.record i pending after) :=
  ⟨since.past.trans (List.suffix_cons _ _),since.clock⟩

omit [Backend D W K E] in
theorem sinceSeen {P : D → Int → Prop} (root : Rooted d t w₀) (held : P w₀.db w₀.clock) {h : List (Commit D W)}
    {clock : Int} (past : w₀.history <:+ h) (later : w₀.clock ≤ clock) : seenIn d t h clock P := by
  obtain ⟨more,rfl⟩ := past
  exact ⟨more,w₀.history,w₀.clock,rfl,root.clock,later,root.db ▸ held⟩

theorem rootedTick (root : Rooted d t w) (n : Nat) : Rooted d t {w with clock := w.clock + n} :=
  ⟨root.db,Int.le_trans root.clock (Int.le_add_of_nonneg_right (Int.natCast_nonneg n))⟩

variable [DecidableEq K] {ok : α → List W → World D W K X → Prop} {err : E → World D W K X → Prop} {pending : List W}

theorem wpSince (frame : ∀ {w w'}, c.rely w w' → Frame c.client w w') {effect : List (Commit D W) → Commit D W → Prop}
    (sub : ∀ h m, m.client = c.client → w₀.history <:+ h → w₀.clock ≤ m.clock → c.effect h m → effect h m)
    (since : Since w₀ w) {p : Prog D W K X C E α} (h : wp c ok err p pending w) :
    wp {c with effect := effect} ok err p pending w := by
  induction p generalizing pending w with
  | pure a => exact h
  | raise e => exact h
  | select query next ih => exact fun w' r => ih _ (sinceTrans since (sinceFrame (frame r))) (h w' r)
  | lock query key next ih =>
    intro w' r
    have later := sinceTrans since (sinceFrame (frame r))
    have here := h w' r
    split at here
    · exact ih _ later here
    · exact ih _ ⟨later.past,later.clock⟩ here
  | write x next ih =>
    intro w' r
    have later := sinceTrans since (sinceFrame (frame r))
    have here := h w' r
    split at here
    · exact ih ⟨later.past,later.clock⟩ here
    · exact here
  | commit next ih =>
    intro w' r
    have later := sinceTrans since (sinceFrame (frame r))
    have here := h w' r
    split at here
    · exact ⟨sub _ _ rfl later.past later.clock here.1,ih (sinceRecord later _ _ _) here.2⟩
    · exact here
  | now next ih => exact fun w' r n => ih _ (sinceTick (sinceTrans since (sinceFrame (frame r))) n) (h w' r n)
  | call act next ih =>
    intro w' r a admitted
    have later := sinceTrans since (sinceFrame (frame r))
    have here := h w' r a admitted
    split at here
    · exact ih _ ⟨later.past,later.clock⟩ here
    · exact here

end LibraryApi.Program
