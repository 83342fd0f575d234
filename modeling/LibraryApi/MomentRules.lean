import LibraryApi.LoneRules

/-! What is left with the other service. A moment of a run is the database and the clock one of
its states has; a program is followed await by await with what it reads taken from moments,
and each of its calls has to leave true what is kept of the other service. -/
namespace LibraryApi.Program

variable {D W K X C E α β : Type} [Backend D W K E]

def leaves (I : D → Int → Prop) (J : X → Prop) (ok : α → List W → Prop) : Prog D W K X C E α → List W → Prop
  | .pure a, pending => ok a pending
  | .raise _, _ => True
  | .select query next, pending => ∀ d t, I d t → leaves I J ok (next (query (view d pending))) pending
  | .lock query _ next, pending => ∀ d t, I d t → leaves I J ok (next (query (view d pending))) pending
  | .write statement next, pending => leaves I J ok next (pending ++ [statement])
  | .commit next, _ => leaves I J ok next []
  | .now next, pending => ∀ d t, I d t → leaves I J ok (next t) pending
  | .call act next, pending => ∀ a x, J x → match act a x with
      | .ok (b,x') => J x' ∧ leaves I J ok (next b) pending
      | .error _ => True

section Rules
variable {I : D → Int → Prop} {J : X → Prop} {ok : α → List W → Prop} {pending : List W}

theorem leavesMono {ok' : α → List W → Prop} (good : ∀ a pending, ok a pending → ok' a pending) {p : Prog D W K X C E α}
    (h : leaves I J ok p pending) : leaves I J ok' p pending := by
  induction p generalizing pending with
  | pure a => exact good _ _ h
  | raise e => trivial
  | select query next ih => exact fun d t here => ih _ (h d t here)
  | lock query key next ih => exact fun d t here => ih _ (h d t here)
  | write statement next ih => exact ih h
  | commit next ih => exact ih h
  | now next ih => exact fun d t here => ih t (h d t here)
  | call act next ih =>
    intro a x held
    have now := h a x held
    split at now
    · exact ⟨now.1,ih _ now.2⟩
    · trivial

theorem leavesBind {okβ : β → List W → Prop} {p : Prog D W K X C E α} {f : α → Prog D W K X C E β} :
    leaves I J okβ (p >>= f) pending ↔ leaves I J (fun a pending => leaves I J okβ (f a) pending) p pending := by
  show leaves I J okβ (p.bind f) pending ↔ _
  induction p generalizing pending with
  | pure a => exact Iff.rfl
  | raise e => exact Iff.rfl
  | select query next ih => exact forall₂_congr fun d t => forall_congr' fun _ => ih _
  | lock query key next ih => exact forall₂_congr fun d t => forall_congr' fun _ => ih _
  | write statement next ih => exact ih
  | commit next ih => exact ih
  | now next ih => exact forall₂_congr fun d t => forall_congr' fun _ => ih t
  | call act next ih =>
    refine forall₂_congr fun a x => forall_congr' fun _ => ?_
    split
    · exact and_congr_right fun _ => ih _
    · exact Iff.rfl

theorem leavesCalls {S : X → X → Prop} (kept : ∀ x x', S x x' → J x → J x') {p : Prog D W K X C E α} (h : Calls S p) :
    leaves I J (fun _ _ => True) p pending := by
  induction p generalizing pending with
  | pure a => trivial
  | raise e => trivial
  | select query next ih => exact fun d _ _ => ih _ (h _)
  | lock query key next ih => exact fun d _ _ => ih _ (h _)
  | write statement next ih => exact ih h
  | commit next ih => exact ih h
  | now next ih => exact fun _ t _ => ih t (h t)
  | call act next ih =>
    intro a x held
    split
    · rename_i b x' done
      exact ⟨kept x x' (h.1 a x b x' done) held,ih b (h.2 b)⟩
    · trivial

end Rules

section Runs
variable [DecidableEq K] {I : D → Int → Prop} {J : X → Prop} {ok : Nat → α → Prop} {s : State D W K X C E α}

def Leaving (I : D → Int → Prop) (J : X → Prop) (ok : α → Prop) : Thread D W K X C E α → Prop
  | .running p pending => leaves I J (fun a _ => ok a) p pending
  | .finished (.ok a) => ok a
  | .finished (.error _) => True

theorem stepLeaving {i : Nat} {env : Env C} {w w' : World D W K X} {p : Prog D W K X C E α} {pending : List W}
    {x : Thread D W K X C E α} {ok : α → Prop} (here : I w.db w.clock) (held : J w.ext) (moved : step i env w p pending = some (w',x))
    (there : I w'.db w'.clock) (h : leaves I J (fun a _ => ok a) p pending) : J w'.ext ∧ Leaving I J ok x := by
  cases p with
  | pure a => cases moved; exact ⟨held,h⟩
  | raise e => cases moved; exact ⟨held,trivial⟩
  | select query next => cases moved; exact ⟨held,h _ _ here⟩
  | lock query key next =>
    have next := h _ _ here
    simp only [step] at moved
    split at moved
    · rename_i none
      cases moved
      rw [none] at next
      exact ⟨held,next⟩
    · rename_i row found
      split at moved <;> cases moved
      rw [found] at next
      exact ⟨held,next⟩
  | write statement next =>
    simp only [step] at moved
    split at moved
    · split at moved <;> cases moved
      · exact ⟨held,h⟩
      · exact ⟨held,trivial⟩
    · contradiction
  | commit next =>
    simp only [step] at moved
    split at moved <;> cases moved
    · exact ⟨held,h⟩
    · exact ⟨held,trivial⟩
  | now next => cases moved; exact ⟨held,h _ _ there⟩
  | call act next =>
    have next := h env.answer _ held
    simp only [step] at moved
    split at moved <;> rename_i answered <;> rw [answered] at next <;> cases moved
    · exact next
    · exact ⟨held,trivial⟩

structure Left (I : D → Int → Prop) (J : X → Prop) (ok : Nat → α → Prop) (s : State D W K X C E α) : Prop where
  held : J s.world.ext
  threads : ∀ j x, s.pool j = some x → Leaving I J (ok j) x

theorem moveLeft {m : Nat × Env C} (here : I s.world.db s.world.clock) (there : I (s.step m).world.db (s.step m).world.clock)
    (h : Left I J ok s) : Left I J ok (s.step m) := by
  unfold State.step at there ⊢
  split at there
  case h_2 => exact h
  rename_i p pending at_
  split at there
  case h_2 => exact h
  rename_i w' x moved
  obtain ⟨held,thread⟩ := stepLeaving here h.held moved there (h.threads _ _ at_)
  refine ⟨held,fun j y found => ?_⟩
  dsimp only at found
  split at found
  · rename_i same; subst same; cases found; exact thread
  · exact h.threads j y found

def moments (s : State D W K X C E α) (moves : List (Nat × Env C)) (d : D) (t : Int) : Prop :=
  ∃ seen, seen <+: moves ∧ (s.run seen).world.db = d ∧ (s.run seen).world.clock = t

theorem runLeft {moves : List (Nat × Env C)} (moments : ∀ seen, seen <+: moves → I (s.run seen).world.db (s.run seen).world.clock)
    (h : Left I J ok s) : Left I J ok (s.run moves) := by
  induction moves generalizing s with
  | nil => exact h
  | cons m rest ih =>
    have first : [m] <+: m :: rest := ⟨rest,rfl⟩
    exact ih (s := s.step m) (fun seen before => moments (m :: seen) (by simpa using before))
      (moveLeft (moments [] List.nil_prefix) (moments [m] first) h)

end Runs
end LibraryApi.Program
