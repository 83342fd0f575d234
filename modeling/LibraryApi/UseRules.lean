import LibraryApi.RelyRules

/-! What a program may await, read off its text: which locks, which statements, whether it
commits. The text bounds every run of the program, whatever the database and the other
clients answer. -/
namespace LibraryApi.Program

variable {D W K X C E α β : Type}

inductive Use (W : Type) where
  | lock
  | write (x : W)
  | commit

variable {S S' : Use W → Prop}

def Uses (S : Use W → Prop) : Prog D W K X C E α → Prop
  | .pure _ => True
  | .raise _ => True
  | .select _ next => ∀ b, Uses S (next b)
  | .lock _ _ next => S .lock ∧ ∀ b, Uses S (next b)
  | .write x next => S (.write x) ∧ Uses S next
  | .commit next => S .commit ∧ Uses S next
  | .now next => ∀ t, Uses S (next t)
  | .call _ next => ∀ b, Uses S (next b)

abbrev Looks (p : Prog D W K X C E α) : Prop := Uses (fun _ => False) p

@[simp] theorem usesPure (a : α) : Uses S (pure a : Prog D W K X C E α) := trivial
@[simp] theorem usesRaise (e : E) : Uses S (raise e : Prog D W K X C E α) := trivial
@[simp] theorem usesSelect (query : D → α) : Uses S (select query : Prog D W K X C E α) := fun _ => trivial
@[simp] theorem usesNow : Uses S (now : Prog D W K X C E Int) := fun _ => trivial
@[simp] theorem usesCall (act : C → X → Except E (α × X)) : Uses S (call act : Prog D W K X C E α) := fun _ => trivial
@[simp] theorem usesLock (query : D → Option α) (key : α → K) :
    Uses S (lock query key : Prog D W K X C E (Option α)) ↔ S .lock := and_iff_left fun _ => trivial
@[simp] theorem usesWrite (x : W) : Uses S (write x : Prog D W K X C E Unit) ↔ S (.write x) := and_iff_left trivial
@[simp] theorem usesCommit : Uses S (commit : Prog D W K X C E Unit) ↔ S .commit := and_iff_left trivial

theorem usesBind {p : Prog D W K X C E α} {f : α → Prog D W K X C E β} (hp : Uses S p) (hf : ∀ a, Uses S (f a)) :
    Uses S (p >>= f) := by
  show Uses S (p.bind f)
  induction p with
  | pure a => exact hf a
  | raise e => trivial
  | select query next ih => exact fun b => ih b (hp b)
  | lock query key next ih => exact ⟨hp.1,fun b => ih b (hp.2 b)⟩
  | write statement next ih => exact ⟨hp.1,ih hp.2⟩
  | commit next ih => exact ⟨hp.1,ih hp.2⟩
  | now next ih => exact fun t => ih t (hp t)
  | call act next ih => exact fun b => ih b (hp b)

theorem usesMono (sub : ∀ x, S x → S' x) {p : Prog D W K X C E α} (h : Uses S p) : Uses S' p := by
  induction p with
  | pure a => trivial
  | raise e => trivial
  | select query next ih => exact fun b => ih b (h b)
  | lock query key next ih => exact ⟨sub _ h.1,fun b => ih b (h.2 b)⟩
  | write statement next ih => exact ⟨sub _ h.1,ih h.2⟩
  | commit next ih => exact ⟨sub _ h.1,ih h.2⟩
  | now next ih => exact fun t => ih t (h t)
  | call act next ih => exact fun b => ih b (h b)

theorem looksUses {p : Prog D W K X C E α} (h : Looks p) : Uses S p := usesMono (fun _ => False.elim) h

end LibraryApi.Program
