import LibraryApi.ProgramSound

/-! The rules of `wp` for fair contracts, all of one shape: what has to hold of
any later world. A later world is one that interference and the client's own
quiet awaits can lead to, so later worlds compose and keep locked rows. -/
namespace LibraryApi.Program

variable {D W K X C E α β : Type} [Backend D W K E] [DecidableEq K] {c : Contract D W K X C}
  {ok : α → List W → World D W K X → Prop} {err : E → World D W K X → Prop} {pending : List W}
  {w : World D W K X}

omit [DecidableEq K] in
theorem laterRefl (fair : c.Fair) (w : World D W K X) : c.rely w w := fair.quiet (Quiet.refl _ w)

theorem selectRule {query : D → α}
    (good : ∀ w', c.rely w w' → ok (query (view w'.db pending)) pending w') :
    wp c ok err (select query) pending w := good

theorem nowRule (fair : c.Fair) {ok : Int → List W → World D W K X → Prop}
    (good : ∀ w', c.rely w w' → ok w'.clock pending w') : wp c ok err now pending w :=
  fun w' r n => good _ (fair.trans r (fair.quiet (Quiet.now _ w' n)))

theorem lockRule (fair : c.Fair) {query : D → Option β} {key : β → K}
    {ok : Option β → List W → World D W K X → Prop}
    (missing : ∀ w', c.rely w w' → query (view w'.db pending) = none → ok none pending w')
    (found : ∀ w' row, c.rely w w' → query (view w'.db pending) = some row →
      w'.locks (key row) = some c.client → ok (some row) pending w') :
    wp c ok err (lock query key) pending w := by
  intro w' r
  split
  · rename_i absent; exact missing w' r absent
  · rename_i row present
    exact found _ row (fair.trans r (fair.quiet (Quiet.acquire _ w' _))) present
      (by simp [World.acquire])

theorem writeRule (fair : c.Fair) {x : W} {ok : Unit → List W → World D W K X → Prop}
    (good : ∀ w', c.rely w w' → (∀ κ ∈ Backend.keys D x, w'.locks κ = some c.client) →
      ok () (pending ++ [x]) w')
    (bad : ∀ w' e, c.rely w w' → Backend.exec x (view w'.db pending) = .error e → err e w') :
    wp c ok err (write x) pending w := by
  intro w' r
  split
  · exact good _ (fair.trans r (fair.quiet (Quiet.acquire _ w' _)))
      fun κ mem => by simp [World.acquire,mem]
  · rename_i e failed; exact bad w' e r failed

theorem commitRule {ok : Unit → List W → World D W K X → Prop}
    (good : ∀ w' d, c.rely w w' → execAll pending w'.db = .ok d →
      c.effect w'.history ⟨c.client,w'.db,pending,d,w'.clock⟩ ∧ ok () [] (w'.record c.client pending d))
    (bad : ∀ w' e, c.rely w w' → execAll pending w'.db = .error e → err e w') :
    wp c ok err commit pending w := by
  intro w' r
  split
  · rename_i d ran; exact good w' d r ran
  · rename_i e failed; exact bad w' e r failed

def Reading (c : Contract D W K X C) (raises : E → Prop) (p : Prog D W K X C E α) : Prop :=
  ∀ (ok : α → List W → World D W K X → Prop) (err : E → World D W K X → Prop) pending w,
    (∀ a w', c.rely w w' → ok a pending w') → (∀ e w', c.rely w w' → raises e → err e w') →
    wp c ok err p pending w

section Reading
variable {raises : E → Prop}

theorem readingPure (fair : c.Fair) (a : α) : Reading c raises (pure a) :=
  fun _ _ _ w good _ => good a w (laterRefl fair w)

theorem readingRaise (fair : c.Fair) {e : E} (h : raises e) :
    Reading c raises (raise e : Prog D W K X C E α) :=
  fun _ _ _ w _ bad => bad e w (laterRefl fair w) h

theorem readingSelect (query : D → α) : Reading c raises (select query) :=
  fun _ _ _ _ good _ w' r => good _ w' r

theorem readingNow (fair : c.Fair) : Reading c raises (now : Prog D W K X C E Int) :=
  fun _ _ _ _ good _ => nowRule fair fun w' r => good _ w' r

theorem readingCall (fair : c.Fair) {act : C → X → Except E (α × X)}
    (h : ∀ a x e, c.admits a → act a x = .error e → raises e) : Reading c raises (call act) := by
  intro ok err pending w good bad w' r a admitted
  split
  · exact good _ _ (fair.trans r (fair.quiet (Quiet.call _ w' _)))
  · rename_i e failed; exact bad e w' r (h a _ e admitted failed)

theorem readingBind (fair : c.Fair) {p : Prog D W K X C E α} {f : α → Prog D W K X C E β}
    (hp : Reading c raises p) (hf : ∀ a, Reading c raises (f a)) : Reading c raises (p >>= f) := by
  intro ok err pending w good bad
  refine wpBind.mpr (hp _ _ _ _ (fun a w₁ r₁ => ?_) bad)
  exact hf a _ _ _ _ (fun b w₂ r₂ => good b w₂ (fair.trans r₁ r₂))
    fun e w₂ r₂ => bad e w₂ (fair.trans r₁ r₂)

theorem readingThen (hp : Reading c raises (p : Prog D W K X C E α)) {f : α → Prog D W K X C E β}
    {ok : β → List W → World D W K X → Prop}
    (good : ∀ a w', c.rely w w' → wp c ok err (f a) pending w')
    (bad : ∀ e w', c.rely w w' → raises e → err e w') : wp c ok err (p >>= f) pending w :=
  wpBind.mpr (hp _ _ _ _ good bad)

end Reading
end LibraryApi.Program
