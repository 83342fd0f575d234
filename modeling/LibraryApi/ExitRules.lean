import LibraryApi.LoneRules

/-! Where a program can fail, read off its text. `Raises S n p` says that whatever
the world answers, an error `e` leaves the program only after a number `k` of its
commits with `S k e`, when `n` have been made before it starts. -/
namespace LibraryApi.Program

variable {D W K X C E α β γ : Type} [Backend D W K E]

def Raises (S : Nat → E → Prop) : Nat → List W → Prog D W K X C E α → Prop
  | _,_,.pure _ => True
  | n,_,.raise e => S n e
  | n,pending,.select _ next => ∀ b, Raises S n pending (next b)
  | n,pending,.lock _ _ next => ∀ b, Raises S n pending (next b)
  | n,pending,.write x next =>
      (∀ (d : D) e, Backend.exec x d = .error e → S n e) ∧ Raises S n (pending ++ [x]) next
  | n,pending,.commit next =>
      (∀ (d : D) e, execAll pending d = .error e → S n e) ∧ Raises S (n+1) [] next
  | n,pending,.now next => ∀ t, Raises S n pending (next t)
  | n,pending,.call act next =>
      (∀ a x e, act a x = .error e → S n e) ∧ ∀ b, Raises S n pending (next b)

section Rules
variable {S : Nat → E → Prop} {n : Nat} {pending : List W}

@[simp] theorem raisesPure (a : α) : Raises S n pending (pure a : Prog D W K X C E α) := trivial
@[simp] theorem raisesRaise {e : E} {f : α → Prog D W K X C E β} :
    Raises S n pending (raise e >>= f) ↔ S n e := Iff.rfl
@[simp] theorem raisesSelect {query : D → α} {f : α → Prog D W K X C E β} :
    Raises S n pending (select query >>= f) ↔ ∀ a, Raises S n pending (f a) := Iff.rfl
@[simp] theorem raisesLock {query : D → Option α} {key : α → K} {f : Option α → Prog D W K X C E β} :
    Raises S n pending (lock query key >>= f) ↔ ∀ a, Raises S n pending (f a) := Iff.rfl
theorem raisesWrite {x : W} {f : Unit → Prog D W K X C E β} :
    Raises S n pending (write x >>= f) ↔
      (∀ (d : D) e, Backend.exec x d = .error e → S n e) ∧ Raises S n (pending ++ [x]) (f ()) := Iff.rfl
theorem raisesCommit {f : Unit → Prog D W K X C E β} :
    Raises S n pending (commit >>= f) ↔
      (∀ (d : D) e, execAll pending d = .error e → S n e) ∧ Raises S (n+1) [] (f ()) := Iff.rfl
@[simp] theorem raisesNow {f : Int → Prog D W K X C E β} :
    Raises S n pending (now >>= f) ↔ ∀ t, Raises S n pending (f t) := Iff.rfl
theorem raisesCall {act : C → X → Except E (α × X)} {f : α → Prog D W K X C E β} :
    Raises S n pending (call act >>= f) ↔
      (∀ a x e, act a x = .error e → S n e) ∧ ∀ b, Raises S n pending (f b) := Iff.rfl

variable [DecidableEq K]

theorem wpRaises {R : E → Prop} {c : Contract D W K X C} (free : ∀ h m, c.effect h m)
    {p : Prog D W K X C E α} (h : Raises (fun _ => R) n pending p) {w : World D W K X} :
    wp c (fun _ _ _ => True) (fun e _ => R e) p pending w := by
  induction p generalizing n pending w with
  | pure a => trivial
  | raise e => exact h
  | select query next ih => exact fun w' _ => ih _ (h _)
  | lock query key next ih => intro w' _; split <;> exact ih _ (h _)
  | write x next ih =>
    intro w' _
    split
    · exact ih h.2
    · rename_i e failed; exact h.1 _ e failed
  | commit next ih =>
    intro w' _
    split
    · exact ⟨free _ _,ih h.2⟩
    · rename_i e failed; exact h.1 _ e failed
  | now next ih => exact fun w' _ t => ih _ (h _)
  | call act next ih =>
    intro w' _ a _
    split
    · exact ih _ (h.2 _)
    · rename_i e failed; exact h.1 _ _ e failed

theorem aloneRaises {i : Nat} {p : Prog D W K X C E α} (h : Raises S n pending p) {w w' : World D W K X}
    {env : Nat → Env C} {e : E} (failed : alone i p pending w env = (.error e,w')) :
    ∃ k, S k e ∧ w'.history.length + n = w.history.length + k := by
  induction p generalizing n pending w env with
  | pure a => cases failed
  | raise e => cases failed; exact ⟨n,h,rfl⟩
  | select query next ih => exact ih _ (h _) failed
  | lock query key next ih =>
    simp only [alone] at failed
    split at failed
    · exact ih _ (h _) failed
    · exact ih _ (h _) (w := w.acquire i _) failed
  | write x next ih =>
    simp only [alone] at failed
    split at failed
    · exact ih h.2 (w := w.acquire i _) failed
    · rename_i e ran; cases failed; exact ⟨n,h.1 _ e ran,rfl⟩
  | commit next ih =>
    simp only [alone] at failed
    split at failed
    · rename_i d ran
      obtain ⟨k,here,grown⟩ := ih h.2 failed
      have more : (w.record i pending d).history.length = w.history.length + 1 := rfl
      exact ⟨k,here,by omega⟩
    · rename_i e ran; cases failed; exact ⟨n,h.1 _ e ran,rfl⟩
  | now next ih => exact ih _ (h _) (w := {w with clock := w.clock + (env 0).elapsed}) failed
  | call act next ih =>
    simp only [alone] at failed
    split at failed
    · rename_i b x _; exact ih _ (h.2 _) (w := {w with ext := x}) failed
    · rename_i e answered; cases failed; exact ⟨n,h.1 _ _ e answered,rfl⟩

end Rules
end LibraryApi.Program
