import LibraryApi.ProgramSound

/-! Rules for a client with nobody else connected, where the other service is
followed call by call. `Calls` bounds what a program does to that service by the
text of the program alone; under the contract `lone` its state is exact. -/
namespace LibraryApi.Program

variable {D W K X C E α β : Type}

section Calls
variable {S : X → X → Prop}

def Calls (S : X → X → Prop) : Prog D W K X C E α → Prop
  | .pure _ => True
  | .raise _ => True
  | .select _ next => ∀ b, Calls S (next b)
  | .lock _ _ next => ∀ b, Calls S (next b)
  | .write _ next => Calls S next
  | .commit next => Calls S next
  | .now next => ∀ t, Calls S (next t)
  | .call act next => (∀ a x b x', act a x = .ok (b,x') → S x x') ∧ ∀ b, Calls S (next b)

theorem callsBind {p : Prog D W K X C E α} {f : α → Prog D W K X C E β} (hp : Calls S p)
    (hf : ∀ a, Calls S (f a)) : Calls S (p >>= f) := by
  show Calls S (p.bind f)
  induction p with
  | pure a => exact hf a
  | raise e => trivial
  | select query next ih => exact fun b => ih b (hp b)
  | lock query key next ih => exact fun b => ih b (hp b)
  | write statement next ih => exact ih hp
  | commit next ih => exact ih hp
  | now next ih => exact fun t => ih t (hp t)
  | call act next ih => exact ⟨hp.1,fun b => ih b (hp.2 b)⟩

theorem callsLeft {p : Prog D W K X C E α} {f : α → Prog D W K X C E β} (h : Calls S (p >>= f)) : Calls S p := by
  change Calls S (p.bind f) at h
  induction p with
  | pure a => trivial
  | raise e => trivial
  | select query next ih => exact fun b => ih b (h b)
  | lock query key next ih => exact fun b => ih b (h b)
  | write statement next ih => exact ih h
  | commit next ih => exact ih h
  | now next ih => exact fun t => ih t (h t)
  | call act next ih => exact ⟨h.1,fun b => ih b (h.2 b)⟩

theorem callsMono {S' : X → X → Prop} (sub : ∀ x x', S x x' → S' x x') {p : Prog D W K X C E α}
    (h : Calls S p) : Calls S' p := by
  induction p with
  | pure a => trivial
  | raise e => trivial
  | select query next ih => exact fun b => ih b (h b)
  | lock query key next ih => exact fun b => ih b (h b)
  | write statement next ih => exact ih h
  | commit next ih => exact ih h
  | now next ih => exact fun t => ih t (h t)
  | call act next ih => exact ⟨fun a x b x' done => sub _ _ (h.1 a x b x' done),fun b => ih b (h.2 b)⟩

section Then
variable {γ : Type}

@[simp] theorem bindBind (p : Prog D W K X C E α) (f : α → Prog D W K X C E β)
    (g : β → Prog D W K X C E γ) : (p >>= f) >>= g = p >>= fun a => f a >>= g := by
  show (p.bind f).bind g = p.bind fun a => (f a).bind g
  induction p with
  | pure a => rfl
  | raise e => rfl
  | select query next ih => exact congrArg _ (funext ih)
  | lock query key next ih => exact congrArg _ (funext ih)
  | write statement next ih => exact congrArg _ ih
  | commit next ih => exact congrArg _ ih
  | now next ih => exact congrArg _ (funext ih)
  | call act next ih => exact congrArg _ (funext ih)

theorem bindPure (p : Prog D W K X C E α) : (p >>= fun a => pure a) = p := by
  show p.bind _ = p
  induction p with
  | pure a => rfl
  | raise e => rfl
  | select query next ih => exact congrArg _ (funext ih)
  | lock query key next ih => exact congrArg _ (funext ih)
  | write statement next ih => exact congrArg _ ih
  | commit next ih => exact congrArg _ ih
  | now next ih => exact congrArg _ (funext ih)
  | call act next ih => exact congrArg _ (funext ih)

@[simp] theorem pureThen (a : α) (f : α → Prog D W K X C E β) : (pure a >>= f) = f a := rfl

@[simp] theorem callsPure (a : α) : Calls S (pure a : Prog D W K X C E α) := trivial
@[simp] theorem callsRaise (e : E) (f : α → Prog D W K X C E β) : Calls S (raise e >>= f) := trivial
@[simp] theorem callsSelect {query : D → α} {f : α → Prog D W K X C E β} :
    Calls S (select query >>= f) ↔ ∀ a, Calls S (f a) := Iff.rfl
@[simp] theorem callsLock {query : D → Option α} {key : α → K} {f : Option α → Prog D W K X C E β} :
    Calls S (lock query key >>= f) ↔ ∀ a, Calls S (f a) := Iff.rfl
@[simp] theorem callsWrite {x : W} {f : Unit → Prog D W K X C E β} :
    Calls S (write x >>= f) ↔ Calls S (f ()) := Iff.rfl
@[simp] theorem callsCommit {f : Unit → Prog D W K X C E β} :
    Calls S (commit >>= f) ↔ Calls S (f ()) := Iff.rfl
@[simp] theorem callsNow {f : Int → Prog D W K X C E β} :
    Calls S (now >>= f) ↔ ∀ t, Calls S (f t) := Iff.rfl

end Then

variable [Backend D W K E] [DecidableEq K]

theorem aloneMap (f : α → β) (i : Nat) (p : Prog D W K X C E α) (pending : List W) (w : World D W K X)
    (env : Nat → Env C) : alone i (p >>= fun a => pure (f a)) pending w env =
      ((alone i p pending w env).1.map f,(alone i p pending w env).2) := by
  show alone i (p.bind _) pending w env = _
  induction p generalizing pending w env with
  | pure a => rfl
  | raise e => rfl
  | select query next ih => exact ih _ _ _ _
  | lock query key next ih =>
    simp only [Prog.bind,alone]
    split <;> exact ih _ _ _ _
  | write statement next ih =>
    simp only [Prog.bind,alone]
    split
    · exact ih _ _ _
    · rfl
  | commit next ih =>
    simp only [Prog.bind,alone]
    split
    · exact ih _ _ _
    · rfl
  | now next ih => exact ih _ _ _ _
  | call act next ih =>
    simp only [Prog.bind,alone]
    split
    · exact ih _ _ _ _
    · rfl

theorem aloneLater (i : Nat) (p : Prog D W K X C E α) (pending : List W) (w : World D W K X)
    (env : Nat → Env C) : w.clock ≤ (alone i p pending w env).2.clock := by
  induction p generalizing pending w env with
  | pure a => exact Int.le_refl _
  | raise e => exact Int.le_refl _
  | select query next ih => exact ih _ _ w _
  | lock query key next ih =>
    simp only [alone]
    split
    · exact ih _ _ w _
    · exact ih _ _ (w.acquire i _) _
  | write statement next ih =>
    simp only [alone]
    split
    · exact ih _ (w.acquire i _) _
    · exact Int.le_refl _
  | commit next ih =>
    simp only [alone]
    split
    · exact ih _ (w.record i pending _) _
    · exact Int.le_refl _
  | now next ih =>
    have later := ih (w.clock + (env 0).elapsed) pending {w with clock := w.clock + (env 0).elapsed} fun n => env (n+1)
    exact Int.le_trans (Int.le_add_of_nonneg_right (Int.natCast_nonneg _)) later
  | call act next ih =>
    simp only [alone]
    split
    · exact ih _ pending {w with ext := _} _
    · exact Int.le_refl _

theorem aloneCalls (refl : ∀ x, S x x) (trans : ∀ {a b c}, S a b → S b c → S a c) {i : Nat}
    {p : Prog D W K X C E α} (h : Calls S p) (pending : List W) (w : World D W K X)
    (env : Nat → Env C) : S w.ext (alone i p pending w env).2.ext := by
  induction p generalizing pending w env with
  | pure a => exact refl _
  | raise e => exact refl _
  | select query next ih => exact ih _ (h _) pending w _
  | lock query key next ih =>
    simp only [alone]
    split
    · exact ih _ (h _) pending w _
    · exact ih _ (h _) pending (w.acquire i _) _
  | write statement next ih =>
    simp only [alone]
    split
    · exact ih h _ (w.acquire i _) _
    · exact refl _
  | commit next ih =>
    simp only [alone]
    split
    · exact ih h [] (w.record i pending _) _
    · exact refl _
  | now next ih => exact ih _ (h _) pending {w with clock := w.clock + (env 0).elapsed} _
  | call act next ih =>
    simp only [alone]
    split
    · rename_i b x done
      exact trans (h.1 _ _ b x done) (ih b (h.2 b) pending {w with ext := x} _)
    · exact refl _

end Calls

section Lone
variable [Backend D W K E] [DecidableEq K] {i : Nat} {admits : C → Prop} {pending : List W}
  {w : World D W K X} {ok : α → List W → World D W K X → Prop}

def lone (i : Nat) (admits : C → Prop) : Contract D W K X C := ⟨i,(· = ·),admits,fun _ _ => True⟩

theorem loneAny (p : Prog D W K X C E α) :
    wp (lone i admits) (fun _ _ _ => True) (fun _ _ => True) p pending w := by
  induction p generalizing pending w with
  | pure a => trivial
  | raise e => trivial
  | select query next ih => exact fun _ _ => ih _
  | lock query key next ih => intro w' _; split <;> exact ih _
  | write statement next ih =>
    intro w' _
    split
    · exact ih
    · trivial
  | commit next ih =>
    intro w' _
    split
    · exact ⟨trivial,ih⟩
    · trivial
  | now next ih => exact fun _ _ _ => ih _
  | call act next ih =>
    intro w' _ a _
    split
    · exact ih _
    · trivial

theorem loneSkip {p : Prog D W K X C E β} {f : β → Prog D W K X C E α}
    (rest : ∀ b pending w, wp (lone i admits) ok (fun _ _ => True) (f b) pending w) :
    wp (lone i admits) ok (fun _ _ => True) (p >>= f) pending w :=
  wpBind.mpr (wpMono (fun b pending w _ => rest b pending w) (fun _ _ _ => trivial) (loneAny p))

theorem loneSelect {query : D → α} {err : E → World D W K X → Prop}
    (here : ok (query (view w.db pending)) pending w) :
    wp (lone i admits) ok err (select query) pending w := fun _ same => same ▸ here

theorem loneCommit {ok : Unit → List W → World D W K X → Prop} (here : ∀ w, ok () [] w) :
    wp (lone i admits) ok (fun _ _ => True) commit pending w := by
  intro w' _
  split
  · exact ⟨trivial,here _⟩
  · trivial

theorem loneEnded {err : E → World D W K X → Prop} {p : Prog D W K X C E α} {env : Nat → Env C}
    (admitted : ∀ n, admits (env n).answer) (h : wp (lone i admits) ok err p pending w) :
    Ended (lone i admits) ok err (alone i p pending w env) := by
  induction p generalizing pending w env with
  | pure a => exact ⟨_,w,h,rfl⟩
  | raise e => exact ⟨w,h,rfl⟩
  | select query next ih => exact ih _ (fun n => admitted (n+1)) (h w rfl)
  | lock query key next ih =>
    have here := h w rfl
    simp only [alone]
    split <;> rename_i found <;> rw [found] at here
    · exact ih _ (fun n => admitted (n+1)) here
    · exact ih _ (fun n => admitted (n+1)) here
  | write statement next ih =>
    have here := h w rfl
    simp only [alone]
    split <;> rename_i ran <;> rw [ran] at here
    · exact ih (fun n => admitted (n+1)) here
    · exact ⟨w,here,rfl⟩
  | commit next ih =>
    have here := h w rfl
    simp only [alone]
    split <;> rename_i ran <;> rw [ran] at here
    · exact ih (fun n => admitted (n+1)) here.2
    · exact ⟨w,here,rfl⟩
  | now next ih => exact ih _ (fun n => admitted (n+1)) (h w rfl (env 0).elapsed)
  | call act next ih =>
    have here := h w rfl (env 0).answer (admitted 0)
    simp only [alone]
    split <;> rename_i answered <;> rw [answered] at here
    · exact ih _ (fun n => admitted (n+1)) here
    · exact ⟨w,here,rfl⟩

end Lone
end LibraryApi.Program
