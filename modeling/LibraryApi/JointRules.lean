import LibraryApi.ExitRules
import LibraryApi.InvariantRules
import LibraryApi.SinceRules
import LibraryApi.UseRules

/-! Contracts put together. Two contracts under one interference that a program keeps, each
proved on its own, are one contract; where nothing is asked of the commits every program
keeps it; what a text calls and where it fails go together under an invariant; a program
whose text only reads is a reading one; and a client that may commit nothing commits nothing
in a run that stays within its interference. -/
namespace LibraryApi.Program

variable {D W K X C E α : Type} [Backend D W K E] [DecidableEq K] {c : Contract D W K X C} {pending : List W}
  {w : World D W K X}

theorem wpFree (free : ∀ h m, m.client = c.client → c.effect h m) (p : Prog D W K X C E α) :
    wp c (fun _ _ _ => True) (fun _ _ => True) p pending w := by
  induction p generalizing pending w with
  | pure a => trivial
  | raise e => trivial
  | select query next ih => exact fun w' _ => ih _
  | lock query key next ih => intro w' _; split <;> exact ih _
  | write x next ih =>
    intro w' _
    split
    · exact ih
    · trivial
  | commit next ih =>
    intro w' _
    split
    · exact ⟨free _ _ rfl,ih⟩
    · trivial
  | now next ih => exact fun w' _ t => ih _
  | call act next ih =>
    intro w' _ a _
    split
    · exact ih _
    · trivial

theorem wpBoth {left right : List (Commit D W) → Commit D W → Prop} {okₗ okᵣ : α → List W → World D W K X → Prop}
    {errₗ errᵣ : E → World D W K X → Prop} {p : Prog D W K X C E α}
    (hₗ : wp {c with effect := left} okₗ errₗ p pending w) (hᵣ : wp {c with effect := right} okᵣ errᵣ p pending w) :
    wp {c with effect := fun h m => left h m ∧ right h m} (fun a pending w => okₗ a pending w ∧ okᵣ a pending w)
      (fun e w => errₗ e w ∧ errᵣ e w) p pending w := by
  induction p generalizing pending w with
  | pure a => exact ⟨hₗ,hᵣ⟩
  | raise e => exact ⟨hₗ,hᵣ⟩
  | select query next ih => exact fun w' r => ih _ (hₗ w' r) (hᵣ w' r)
  | lock query key next ih =>
    intro w' r
    have l := hₗ w' r
    have r := hᵣ w' r
    split at l <;> rename_i found <;> simp only [found] at r ⊢ <;> exact ih _ l r
  | write x next ih =>
    intro w' r
    have l := hₗ w' r
    have r := hᵣ w' r
    split at l <;> rename_i ran <;> simp only [ran] at r ⊢
    · exact ih l r
    · exact ⟨l,r⟩
  | commit next ih =>
    intro w' r
    have l := hₗ w' r
    have r := hᵣ w' r
    split at l <;> rename_i ran <;> simp only [ran] at r ⊢
    · exact ⟨⟨l.1,r.1⟩,ih l.2 r.2⟩
    · exact ⟨l,r⟩
  | now next ih => exact fun w' r n => ih _ (hₗ w' r n) (hᵣ w' r n)
  | call act next ih =>
    intro w' r a admitted
    have l := hₗ w' r a admitted
    have r := hᵣ w' r a admitted
    split at l <;> rename_i answered <;> simp only [answered] at r ⊢
    · exact ih _ l r
    · exact ⟨l,r⟩

omit [DecidableEq K] in
theorem upholdsRaises {I : D → Prop} {J : X → Prop} {duty : Duty W C} {S : X → X → Prop} {R : E → Prop} {n : Nat}
    (free : ∀ xs, duty.commits xs) (kept : ∀ x x', S x x' → J x → J x') {p : Prog D W K X C E α} (calls : Calls S p)
    (raises : Raises (fun _ => R) n pending p) : upholds I J duty (fun _ _ => True) R p pending := by
  induction p generalizing n pending with
  | pure a => trivial
  | raise e => exact raises
  | select query next ih => exact fun d _ => ih _ (calls _) (raises _)
  | lock query key next ih => exact fun d _ => ih _ (calls _) (raises _)
  | write statement next ih =>
    intro d _
    split
    · exact ih calls raises.2
    · rename_i failed; exact raises.1 _ _ failed
  | commit next ih =>
    intro d _
    split
    · exact ⟨free _,ih calls raises.2⟩
    · rename_i failed; exact raises.1 _ _ failed
  | now next ih => exact fun t => ih t (calls t) (raises t)
  | call act next ih =>
    intro a _ x held
    split
    · rename_i b x' done
      exact ⟨kept x x' (calls.1 a x b x' done) held,ih b (calls.2 b) (raises.2 b)⟩
    · rename_i failed; exact raises.1 _ _ _ failed

theorem looksReading (fair : c.Fair) {p : Prog D W K X C E α} (looks : Looks p) : Reading c (fun _ => True) p := by
  induction p with
  | pure a => exact readingPure fair a
  | raise e => exact readingRaise fair trivial
  | select query next ih => exact readingBind fair (readingSelect query) fun b => ih b (looks b)
  | lock query key next ih => exact looks.1.elim
  | write x next ih => exact looks.1.elim
  | commit next ih => exact looks.1.elim
  | now next ih => exact readingBind fair (readingNow fair) fun t => ih t (looks t)
  | call act next ih => exact readingBind fair (readingCall fair fun _ _ _ _ _ => trivial) fun b => ih b (looks b)

section Silent
variable {ok : α → World D W K X → Prop} {err : E → World D W K X → Prop} {w' : World D W K X}

theorem stepClock {i : Nat} {env : Env C} {p : Prog D W K X C E α} {x : Thread D W K X C E α}
    (moved : step i env w p pending = some (w',x)) : w.clock ≤ w'.clock := by
  cases p with
  | pure a => cases moved; exact Int.le_refl _
  | raise e => cases moved; exact Int.le_refl _
  | select query next => cases moved; exact Int.le_refl _
  | lock query key next =>
    simp only [step] at moved
    split at moved
    · cases moved; exact Int.le_refl _
    · split at moved <;> cases moved
      exact Int.le_refl _
  | write statement next =>
    simp only [step] at moved
    split at moved
    · split at moved <;> cases moved <;> exact Int.le_refl _
    · contradiction
  | commit next =>
    simp only [step] at moved
    split at moved <;> cases moved <;> exact Int.le_refl _
  | now next => cases moved; exact Int.le_add_of_nonneg_right (Int.natCast_nonneg _)
  | call act next =>
    simp only [step] at moved
    split at moved <;> cases moved <;> exact Int.le_refl _

theorem moveClock (s : State D W K X C E α) (m : Nat × Env C) : s.world.clock ≤ (s.step m).world.clock := by
  unfold State.step
  split
  · split
    · rename_i moved
      exact stepClock moved
    · exact Int.le_refl _
  · exact Int.le_refl _

theorem stepSilent (never : ∀ h m, ¬ c.effect h m) (here : c.rely w w) {env : Env C} {p : Prog D W K X C E α}
    {x : Thread D W K X C E α} (moved : step c.client env w p pending = some (w',x))
    (h : Held c ok err w (.running p pending)) : w'.history = w.history := by
  cases p with
  | commit next =>
    replace h := h w here
    simp only [step] at moved
    split at moved <;> rename_i ran <;> rw [ran] at h
    · exact absurd h.1 (never _ _)
    · cases moved; rfl
  | lock query key next =>
    simp only [step] at moved
    split at moved
    · cases moved; rfl
    · split at moved <;> cases moved
      rfl
  | write statement next =>
    simp only [step] at moved
    split at moved
    · split at moved <;> cases moved <;> rfl
    · contradiction
  | call act next =>
    simp only [step] at moved
    split at moved <;> cases moved <;> rfl
  | _ => cases moved; rfl

theorem moveSilent (never : ∀ h m, ¬ c.effect h m) {s : State D W K X C E α} {m : Nat × Env C} (here : c.rely s.world s.world)
    (held : ∀ x, s.pool c.client = some x → Held c ok err s.world x) :
    mine c.client (s.step m).world.history = mine c.client s.world.history := by
  by_cases own : m.1 = c.client
  · unfold State.step
    split
    · rename_i p pending at_
      split
      · rename_i w' x moved
        rw [own] at at_ moved
        exact congrArg (mine c.client) (stepSilent never here moved (held _ at_))
      · rfl
    · rfl
  · rcases moveRecords s m with ⟨_,same⟩ | ⟨x,client,_,_,grown⟩
    · rw [same]
    · rw [grown,mineCons,if_neg]
      rw [client]
      exact own

theorem runSilent (never : ∀ h m, ¬ c.effect h m) (steady : c.Steady) (okKept : ∀ a {w w'}, c.rely w w' → ok a w → ok a w')
    (errKept : ∀ e {w w'}, c.rely w w' → err e w → err e w') {s : State D W K X C E α} {moves : List (Nat × Env C)}
    (here : c.rely s.world s.world) (admitted : ∀ m ∈ moves, c.admits m.2.answer) (within : Within c.rely s moves)
    (held : ∀ x, s.pool c.client = some x → Held c ok err s.world x) :
    mine c.client (s.run moves).world.history = mine c.client s.world.history := by
  induction moves generalizing s with
  | nil => rfl
  | cons m rest ih =>
    obtain ⟨r,within⟩ := within
    have next := ih (steady.stay r) (fun n mem => admitted n (List.mem_cons_of_mem _ mem)) within
      (moveHeld steady okKept errKept here r (admitted m (by simp)) held)
    exact next.trans (moveSilent never here held)

end Silent
end LibraryApi.Program
