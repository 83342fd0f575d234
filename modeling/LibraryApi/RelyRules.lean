import LibraryApi.ProgramRules

/-! What a client of a pool concludes in a run that is known to stay within a
relation. The relation is a hypothesis on the run, not a promise of the clients:
`wp` is followed under it, and its posts are those of the whole run. -/
namespace LibraryApi.Program

variable {D W K X C E α : Type} [Backend D W K E] [DecidableEq K]

def Within (R : World D W K X → World D W K X → Prop) :
    State D W K X C E α → List (Nat × Env C) → Prop
  | _,[] => True
  | s,m :: rest => R s.world (s.step m).world ∧ Within R (s.step m) rest

structure Contract.Steady (c : Contract D W K X C) : Prop where
  trans : ∀ {a b c' : World D W K X}, c.rely a b → c.rely b c' → c.rely a c'
  stay : ∀ {a b : World D W K X}, c.rely a b → c.rely b b

def Held (c : Contract D W K X C) (ok : α → World D W K X → Prop) (err : E → World D W K X → Prop)
    (w : World D W K X) : Thread D W K X C E α → Prop
  | .running p pending => wp c (fun a _ w => ok a w) err p pending w
  | .finished (.ok a) => ok a w
  | .finished (.error e) => err e w

section Held
variable {c : Contract D W K X C} {ok : α → World D W K X → Prop} {err : E → World D W K X → Prop}
  {w w' : World D W K X}

theorem heldUnderRely (steady : c.Steady) (okKept : ∀ a {w w'}, c.rely w w' → ok a w → ok a w')
    (errKept : ∀ e {w w'}, c.rely w w' → err e w → err e w') (r : c.rely w w')
    {x : Thread D W K X C E α} (h : Held c ok err w x) : Held c ok err w' x := by
  cases x with
  | running p pending =>
    unfold Held at h ⊢
    cases p with
    | pure a => exact okKept a r h
    | raise e => exact errKept e r h
    | select query next => exact fun w₁ r₁ => h w₁ (steady.trans r r₁)
    | lock query key next => exact fun w₁ r₁ => h w₁ (steady.trans r r₁)
    | write statement next => exact fun w₁ r₁ => h w₁ (steady.trans r r₁)
    | commit next => exact fun w₁ r₁ => h w₁ (steady.trans r r₁)
    | now next => exact fun w₁ r₁ => h w₁ (steady.trans r r₁)
    | call act next => exact fun w₁ r₁ => h w₁ (steady.trans r r₁)
  | finished result =>
    cases result with
    | ok a => exact okKept a r h
    | error e => exact errKept e r h

theorem stepHeld (okKept : ∀ a {w w'}, c.rely w w' → ok a w → ok a w')
    (errKept : ∀ e {w w'}, c.rely w w' → err e w → err e w') (here : c.rely w w) (r : c.rely w w')
    {env : Env C} (admitted : c.admits env.answer) {p : Prog D W K X C E α} {pending : List W}
    {x : Thread D W K X C E α} (moved : step c.client env w p pending = some (w',x))
    (h : Held c ok err w (.running p pending)) : Held c ok err w' x := by
  unfold Held at h
  cases p with
  | pure a => cases moved; exact okKept a r h
  | raise e => cases moved; exact errKept e r h
  | select query next => cases moved; exact h w here
  | lock query key next =>
    replace h := h w here
    simp only [step] at moved
    cases found : query (view w.db pending) with
    | none => simp only [found] at moved h; cases moved; exact h
    | some row =>
      simp only [found] at moved h
      split at moved <;> try contradiction
      cases moved; exact h
  | write statement next =>
    replace h := h w here
    simp only [step] at moved
    split at moved <;> try contradiction
    cases ran : Backend.exec statement (view w.db pending) with
    | ok d => simp only [ran] at moved h; cases moved; exact h
    | error e => simp only [ran] at moved h; cases moved; exact errKept e r h
  | commit next =>
    replace h := h w here
    simp only [step] at moved
    cases ran : execAll pending w.db with
    | ok d => simp only [ran] at moved h; cases moved; exact h.2
    | error e => simp only [ran] at moved h; cases moved; exact errKept e r h
  | now next => cases moved; exact h w here env.elapsed
  | call act next =>
    replace h := h w here env.answer admitted
    simp only [step] at moved
    cases answered : act env.answer w.ext with
    | ok done => simp only [answered] at moved h; cases moved; exact h
    | error e => simp only [answered] at moved h; cases moved; exact errKept e r h

theorem moveHeld (steady : c.Steady) (okKept : ∀ a {w w'}, c.rely w w' → ok a w → ok a w')
    (errKept : ∀ e {w w'}, c.rely w w' → err e w → err e w') {s : State D W K X C E α}
    {m : Nat × Env C} (here : c.rely s.world s.world) (r : c.rely s.world (s.step m).world)
    (admitted : c.admits m.2.answer)
    (held : ∀ x, s.pool c.client = some x → Held c ok err s.world x) :
    ∀ x, (s.step m).pool c.client = some x → Held c ok err (s.step m).world x := by
  intro x found
  unfold State.step at found r ⊢
  split at found
  · rename_i p pending at_
    simp only [at_] at r ⊢
    cases moved : step m.1 m.2 s.world p pending with
    | none => simp only [moved] at found ⊢; exact held x found
    | some next =>
      simp only [moved] at found r ⊢
      split at found
      · rename_i same
        cases found
        rw [← same] at moved
        exact stepHeld okKept errKept here r admitted moved (held _ (same ▸ at_))
      · exact heldUnderRely steady okKept errKept r (held x found)
  · exact held x found

theorem runHeld (steady : c.Steady) (okKept : ∀ a {w w'}, c.rely w w' → ok a w → ok a w')
    (errKept : ∀ e {w w'}, c.rely w w' → err e w → err e w') {s : State D W K X C E α}
    {moves : List (Nat × Env C)} (here : c.rely s.world s.world)
    (admitted : ∀ m ∈ moves, c.admits m.2.answer) (within : Within c.rely s moves)
    (held : ∀ x, s.pool c.client = some x → Held c ok err s.world x) :
    ∀ x, (s.run moves).pool c.client = some x → Held c ok err (s.run moves).world x := by
  induction moves generalizing s with
  | nil => exact held
  | cons m rest ih =>
    obtain ⟨r,within⟩ := within
    exact ih (steady.stay r) (fun n mem => admitted n (List.mem_cons_of_mem _ mem)) within
      (moveHeld steady okKept errKept here r (admitted m (by simp)) held)

end Held

theorem withinRun {R : World D W K X → World D W K X → Prop} {s : State D W K X C E α} {moves : List (Nat × Env C)}
    (each : ∀ a m, R (s.run a).world (s.run (a ++ [m])).world) : Within R s moves := by
  induction moves generalizing s with
  | nil => trivial
  | cons m rest ih => exact ⟨each [] m,ih fun a m' => each (m :: a) m'⟩

section Committed
variable {w w' : World D W K X}

theorem stepRecords {i : Nat} {env : Env C} {p : Prog D W K X C E α} {pending : List W}
    {x : Thread D W K X C E α} (moved : step i env w p pending = some (w',x)) :
    (w'.db = w.db ∧ w'.history = w.history) ∨
      ∃ m : Commit D W, m.client = i ∧ m.before = w.db ∧ m.after = w'.db ∧ w'.history = m :: w.history := by
  cases p with
  | pure a => cases moved; exact .inl ⟨rfl,rfl⟩
  | raise e => cases moved; exact .inl ⟨rfl,rfl⟩
  | select query next => cases moved; exact .inl ⟨rfl,rfl⟩
  | lock query key next =>
    simp only [step] at moved
    split at moved
    · cases moved; exact .inl ⟨rfl,rfl⟩
    · split at moved <;> try contradiction
      cases moved; exact .inl ⟨rfl,rfl⟩
  | write statement next =>
    simp only [step] at moved
    split at moved <;> try contradiction
    split at moved <;> cases moved <;> exact .inl ⟨rfl,rfl⟩
  | commit next =>
    simp only [step] at moved
    split at moved <;> cases moved
    · exact .inr ⟨_,rfl,rfl,rfl,rfl⟩
    · exact .inl ⟨rfl,rfl⟩
  | now next => cases moved; exact .inl ⟨rfl,rfl⟩
  | call act next =>
    simp only [step] at moved
    split at moved <;> cases moved <;> exact .inl ⟨rfl,rfl⟩

theorem moveRecords (s : State D W K X C E α) (m : Nat × Env C) :
    ((s.step m).world.db = s.world.db ∧ (s.step m).world.history = s.world.history) ∨
      ∃ c : Commit D W, c.client = m.1 ∧ c.before = s.world.db ∧ c.after = (s.step m).world.db ∧
        (s.step m).world.history = c :: s.world.history := by
  unfold State.step
  split
  · split
    · rename_i moved; exact stepRecords moved
    · exact .inl ⟨rfl,rfl⟩
  · exact .inl ⟨rfl,rfl⟩

theorem moveGrows (s : State D W K X C E α) (m : Nat × Env C) :
    s.world.history <:+ (s.step m).world.history := by
  rcases moveRecords s m with ⟨_,same⟩ | ⟨c,_,_,_,grown⟩
  · simp [same]
  · rw [grown]; exact List.suffix_cons _ _

theorem runGrows (s : State D W K X C E α) (moves : List (Nat × Env C)) :
    s.world.history <:+ (s.run moves).world.history := by
  induction moves generalizing s with
  | nil => exact List.suffix_rfl
  | cons m rest ih => exact (moveGrows s m).trans (ih _)

def seeing (j : Nat) (I : D → Prop) (admits : C → Prop) : Contract D W K X C :=
  ⟨j,fun _ w' => I w'.db,admits,fun _ _ => True⟩

omit [Backend D W K E] [DecidableEq K] in
theorem seeingSteady {j : Nat} {I : D → Prop} {admits : C → Prop} :
    (seeing (W := W) (K := K) (X := X) j I admits).Steady := ⟨fun _ h => h,fun h => h⟩

theorem withinCommitted {I : D → Prop} {s : State D W K X C E α} {moves : List (Nat × Env C)}
    (here : I s.world.db) (all : ∀ m ∈ (s.run moves).world.history, I m.after) :
    Within (fun _ w' => I w'.db) s moves := by
  induction moves generalizing s with
  | nil => trivial
  | cons m rest ih =>
    have next : I (s.step m).world.db := by
      rcases moveRecords s m with ⟨same,_⟩ | ⟨c,_,_,after,grown⟩
      · rw [same]; exact here
      · rw [← after]
        exact all c ((runGrows (s.step m) rest).subset (by rw [grown]; exact List.mem_cons_self))
    exact ⟨next,ih next all⟩

end Committed
end LibraryApi.Program
