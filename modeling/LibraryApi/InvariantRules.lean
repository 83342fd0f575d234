import LibraryApi.LoneRules
import LibraryApi.RelyRules

/-! Programs of a pool that share an invariant. What a client reads satisfies `I` and
what the other service holds satisfies `J`, whatever the others do; a program is followed
await by await under both, and its own calls have to leave `J` true. -/
namespace LibraryApi.Program

variable {D W K X C E α β : Type} [Backend D W K E]

/-- What the other service may answer a client, and what the client may commit. -/
structure Duty (W C : Type) where
  admits : C → Prop
  commits : List W → Prop

def upholds (I : D → Prop) (J : X → Prop) (duty : Duty W C) (ok : α → List W → Prop) (err : E → Prop) :
    Prog D W K X C E α → List W → Prop
  | .pure a, pending => ok a pending
  | .raise e, _ => err e
  | .select query next, pending =>
      ∀ d, I d → upholds I J duty ok err (next (query (view d pending))) pending
  | .lock query _ next, pending =>
      ∀ d, I d → upholds I J duty ok err (next (query (view d pending))) pending
  | .write statement next, pending => ∀ d, I d → match Backend.exec statement (view d pending) with
      | .ok _ => upholds I J duty ok err next (pending ++ [statement])
      | .error e => err e
  | .commit next, pending => ∀ d, I d → match execAll pending d with
      | .ok _ => duty.commits pending ∧ upholds I J duty ok err next []
      | .error e => err e
  | .now next, pending => ∀ t, upholds I J duty ok err (next t) pending
  | .call act next, pending => ∀ a, duty.admits a → ∀ x, J x → match act a x with
      | .ok (b,x') => J x' ∧ upholds I J duty ok err (next b) pending
      | .error e => err e

section Rules
variable {I : D → Prop} {J : X → Prop} {duty : Duty W C} {ok : α → List W → Prop} {err : E → Prop}
  {pending : List W}

theorem upholdsMono {I' : D → Prop} {ok' : α → List W → Prop} {err' : E → Prop} (sub : ∀ d, I' d → I d)
    (good : ∀ a pending, ok a pending → ok' a pending) (bad : ∀ e, err e → err' e)
    {p : Prog D W K X C E α} (h : upholds I J duty ok err p pending) : upholds I' J duty ok' err' p pending := by
  induction p generalizing pending with
  | pure a => exact good _ _ h
  | raise e => exact bad _ h
  | select query next ih => exact fun d here => ih _ (h d (sub d here))
  | lock query key next ih => exact fun d here => ih _ (h d (sub d here))
  | write statement next ih =>
    intro d here
    have now := h d (sub d here)
    split at now
    · exact ih now
    · exact bad _ now
  | commit next ih =>
    intro d here
    have now := h d (sub d here)
    split at now
    · exact ⟨now.1,ih now.2⟩
    · exact bad _ now
  | now next ih => exact fun t => ih t (h t)
  | call act next ih =>
    intro a admitted x held
    have now := h a admitted x held
    split at now
    · exact ⟨now.1,ih _ now.2⟩
    · exact bad _ now

theorem upholdsBind {okβ : β → List W → Prop} {p : Prog D W K X C E α} {f : α → Prog D W K X C E β} :
    upholds I J duty okβ err (p >>= f) pending ↔
      upholds I J duty (fun a pending => upholds I J duty okβ err (f a) pending) err p pending := by
  show upholds I J duty okβ err (p.bind f) pending ↔ _
  induction p generalizing pending with
  | pure a => exact Iff.rfl
  | raise e => exact Iff.rfl
  | select query next ih => exact forall₂_congr fun d _ => ih _
  | lock query key next ih => exact forall₂_congr fun d _ => ih _
  | write statement next ih =>
    refine forall₂_congr fun d _ => ?_
    split
    · exact ih
    · exact Iff.rfl
  | commit next ih =>
    refine forall₂_congr fun d _ => ?_
    split
    · exact and_congr_right fun _ => ih
    · exact Iff.rfl
  | now next ih => exact forall_congr' fun t => ih t
  | call act next ih =>
    refine forall₂_congr fun a _ => forall₂_congr fun x _ => ?_
    split
    · exact and_congr_right fun _ => ih _
    · exact Iff.rfl

theorem upholdsWrite {x : W} {f : Unit → Prog D W K X C E α} (failed : ∀ e, err e)
    (here : upholds I J duty ok err (f ()) (pending ++ [x])) : upholds I J duty ok err (write x >>= f) pending := by
  intro d _
  split
  · exact here
  · exact failed _

theorem upholdsCommit {f : Unit → Prog D W K X C E α} (failed : ∀ e, err e) (free : duty.commits pending)
    (here : upholds I J duty ok err (f ()) []) : upholds I J duty ok err (commit >>= f) pending := by
  intro d _
  split
  · exact ⟨free,here⟩
  · exact failed _

theorem upholdsCalls {S : X → X → Prop} (free : ∀ xs, duty.commits xs) (kept : ∀ x x', S x x' → J x → J x')
    {p : Prog D W K X C E α} (h : Calls S p) :
    upholds I J duty (fun _ _ => True) (fun _ => True) p pending := by
  induction p generalizing pending with
  | pure a => trivial
  | raise e => trivial
  | select query next ih => exact fun d _ => ih _ (h _)
  | lock query key next ih => exact fun d _ => ih _ (h _)
  | write statement next ih =>
    intro d _
    split
    · exact ih h
    · trivial
  | commit next ih =>
    intro d _
    split
    · exact ⟨free _,ih h⟩
    · trivial
  | now next ih => exact fun t => ih t (h t)
  | call act next ih =>
    intro a _ x held
    split
    · rename_i b x' done
      exact ⟨kept x x' (h.1 a x b x' done) held,ih b (h.2 b)⟩
    · trivial

end Rules

def Reads : Prog D W K X C E α → Prop
  | .select _ _ => True
  | _ => False

def begun (d : D) : Prog D W K X C E α → Prog D W K X C E α
  | .select query next => next (query d)
  | p => p

omit [Backend D W K E] in
theorem begunBind {d : D} (p : Prog D W K X C E α) {f : α → Prog D W K X C E β} (reads : Reads p) :
    begun d (p >>= f) = begun d p >>= f := by
  cases p <;> first | contradiction | rfl

theorem stepReads [DecidableEq K] {i : Nat} {env : Env C} {w : World D W K X} {p : Prog D W K X C E α}
    (reads : Reads p) : step i env w p [] = some (w,.running (begun w.db p) []) := by
  cases p <;> first | contradiction | rfl

theorem aloneReads [DecidableEq K] {i : Nat} {w : World D W K X} {env : Nat → Env C} {p : Prog D W K X C E α}
    (reads : Reads p) : alone i p [] w env = alone i (begun w.db p) [] w fun n => env (n+1) := by
  cases p <;> first | contradiction | rfl

section Served
variable [DecidableEq K] {I : D → Prop} {J : X → Prop} {duty : Duty W C} {ok : α → List W → Prop} {err : E → Prop}
  {pending : List W} {w w' : World D W K X}

def Upheld (I : D → Prop) (J : X → Prop) (duty : Duty W C) (ok : α → List W → Prop) (err : E → Prop) :
    Thread D W K X C E α → Prop
  | .running p pending => upholds I J duty ok err p pending
  | .finished (.ok a) => ∃ pending, ok a pending
  | .finished (.error e) => err e

omit [DecidableEq K] in
theorem upheldMono {I' : D → Prop} {ok' : α → List W → Prop} {err' : E → Prop} (sub : ∀ d, I' d → I d)
    (good : ∀ a pending, ok a pending → ok' a pending) (bad : ∀ e, err e → err' e) {x : Thread D W K X C E α}
    (h : Upheld I J duty ok err x) : Upheld I' J duty ok' err' x := by
  cases x with
  | running p pending => exact upholdsMono sub good bad h
  | finished result =>
    cases result with
    | ok a =>
      obtain ⟨pending,done⟩ := h
      exact ⟨pending,good a pending done⟩
    | error e => exact bad e h

theorem stepUpheld {i : Nat} {env : Env C} {p : Prog D W K X C E α} {x : Thread D W K X C E α}
    (here : I w.db) (held : J w.ext) (admitted : duty.admits env.answer)
    (moved : step i env w p pending = some (w',x)) (h : upholds I J duty ok err p pending) :
    J w'.ext ∧ Upheld I J duty ok err x ∧
      ∀ m, w'.history = m :: w.history → m.client = i ∧ duty.commits m.writes := by
  cases p with
  | pure a => cases moved; exact ⟨held,⟨_,h⟩,fun m same => absurd same.symm (List.cons_ne_self m _)⟩
  | raise e => cases moved; exact ⟨held,h,fun m same => absurd same.symm (List.cons_ne_self m _)⟩
  | select query next => cases moved; exact ⟨held,h _ here,fun m same => absurd same.symm (List.cons_ne_self m _)⟩
  | lock query key next =>
    replace h := h _ here
    simp only [step] at moved
    split at moved
    · rename_i none
      cases moved
      rw [none] at h
      exact ⟨held,h,fun m same => absurd same.symm (List.cons_ne_self m _)⟩
    · rename_i row found
      split at moved <;> try contradiction
      cases moved
      rw [found] at h
      exact ⟨held,h,fun m same => absurd same.symm (List.cons_ne_self m _)⟩
  | write statement next =>
    replace h := h _ here
    simp only [step] at moved
    split at moved <;> try contradiction
    split at moved <;> rename_i ran <;> rw [ran] at h <;> cases moved
    · exact ⟨held,h,fun m same => absurd same.symm (List.cons_ne_self m _)⟩
    · exact ⟨held,h,fun m same => absurd same.symm (List.cons_ne_self m _)⟩
  | commit next =>
    replace h := h _ here
    simp only [step] at moved
    split at moved <;> rename_i ran <;> rw [ran] at h <;> cases moved
    · refine ⟨held,h.2,fun m same => ?_⟩
      obtain ⟨rfl,_⟩ := List.cons.inj same
      exact ⟨rfl,h.1⟩
    · exact ⟨held,h,fun m same => absurd same.symm (List.cons_ne_self m _)⟩
  | now next => cases moved; exact ⟨held,h _,fun m same => absurd same.symm (List.cons_ne_self m _)⟩
  | call act next =>
    replace h := h _ admitted _ held
    simp only [step] at moved
    split at moved <;> rename_i answered <;> rw [answered] at h <;> cases moved
    · exact ⟨h.1,h.2,fun m same => absurd same.symm (List.cons_ne_self m _)⟩
    · exact ⟨held,h,fun m same => absurd same.symm (List.cons_ne_self m _)⟩

theorem aloneUpheld (i : Nat) {p : Prog D W K X C E α} (w : World D W K X) (env : Nat → Env C)
    (never : ∀ xs, ¬ duty.commits xs) (here : I w.db) (held : J w.ext) (admitted : ∀ n, duty.admits (env n).answer)
    (h : upholds I J duty ok err p pending) :
    Upheld (K := K) I J duty ok err (.finished (alone i p pending w env).1) ∧ (alone i p pending w env).2.db = w.db := by
  induction p generalizing pending w env with
  | pure a => exact ⟨⟨_,h⟩,rfl⟩
  | raise e => exact ⟨h,rfl⟩
  | select query next ih => exact ih _ w _ here held (fun n => admitted (n+1)) (h _ here)
  | lock query key next ih =>
    have now := h _ here
    simp only [alone]
    split <;> rename_i found <;> rw [found] at now
    · exact ih _ w _ here held (fun n => admitted (n+1)) now
    · exact ih _ (w.acquire i _) _ here held (fun n => admitted (n+1)) now
  | write statement next ih =>
    have now := h _ here
    simp only [alone]
    split <;> rename_i ran <;> rw [ran] at now
    · exact ih (w.acquire i _) _ here held (fun n => admitted (n+1)) now
    · exact ⟨now,rfl⟩
  | commit next ih =>
    have now := h _ here
    simp only [alone]
    split <;> rename_i ran <;> rw [ran] at now
    · exact absurd now.1 (never _)
    · exact ⟨now,rfl⟩
  | now next ih =>
    have later := h (w.clock + (env 0).elapsed)
    exact ih _ {w with clock := w.clock + (env 0).elapsed} _ here held (fun n => admitted (n+1)) later
  | call act next ih =>
    have now := h _ (admitted 0) _ held
    simp only [alone]
    split <;> rename_i answered <;> rw [answered] at now
    · exact ih _ {w with ext := _} _ here now.1 (fun n => admitted (n+1)) now.2
    · exact ⟨now,rfl⟩

end Served

section Pool
variable [DecidableEq K] {I : D → Prop} {J : X → Prop} {duty : Nat → Duty W C} {ok : Nat → α → List W → Prop}
  {err : Nat → E → Prop} {s : State D W K X C E α}

structure Upright (I : D → Prop) (J : X → Prop) (duty : Nat → Duty W C) (ok : Nat → α → List W → Prop)
    (err : Nat → E → Prop) (s : State D W K X C E α) : Prop where
  held : J s.world.ext
  threads : ∀ j x, s.pool j = some x → Upheld I J (duty j) (ok j) (err j) x

theorem moveUpright {m : Nat × Env C} (here : I s.world.db) (h : Upright I J duty ok err s)
    (admitted : (duty m.1).admits m.2.answer) : Upright I J duty ok err (s.step m) ∧
      ∀ c, (s.step m).world.history = c :: s.world.history → (duty c.client).commits c.writes := by
  unfold State.step
  split
  case h_2 => exact ⟨h,fun c same => absurd same.symm (List.cons_ne_self c _)⟩
  rename_i p pending at_
  split
  case h_2 => exact ⟨h,fun c same => absurd same.symm (List.cons_ne_self c _)⟩
  rename_i w' x moved
  obtain ⟨held,thread,commits⟩ := stepUpheld here h.held admitted moved (h.threads _ _ at_)
  refine ⟨⟨held,fun j y found => ?_⟩,fun c same => ?_⟩
  · dsimp only at found
    split at found
    · rename_i same; subst same; cases found; exact thread
    · exact h.threads j y found
  · obtain ⟨client,allowed⟩ := commits c same
    rw [client]; exact allowed

theorem readsUpright {j : Nat} {env : Env C} {p : Prog D W K X C E α} (reads : Reads p)
    (here : s.pool j = some (.running p [])) (held : J s.world.ext)
    (others : ∀ i x, i ≠ j → s.pool i = some x → Upheld I J (duty i) (ok i) (err i) x)
    (h : upholds I J (duty j) (ok j) (err j) (begun s.world.db p) []) :
    (s.step (j,env)).world = s.world ∧ Upright I J duty ok err (s.step (j,env)) := by
  have moved : s.step (j,env) =
      ⟨s.world,fun i => if i = j then some (.running (begun s.world.db p) []) else s.pool i⟩ := by
    simp only [State.step,here,stepReads reads]
  rw [moved]
  refine ⟨rfl,held,fun i x found => ?_⟩
  dsimp only at found
  split at found
  · rename_i same; subst same; cases found; exact h
  · rename_i other; exact others i x other found

theorem runClients (s : State D W K X C E α) (moves : List (Nat × Env C)) :
    ∀ c ∈ (s.run moves).world.history, c ∈ s.world.history ∨ ∃ m ∈ moves, m.1 = c.client := by
  induction moves generalizing s with
  | nil => exact fun c mem => .inl mem
  | cons m rest ih =>
    intro c mem
    rcases ih (s.step m) c mem with old | ⟨n,inside,client⟩
    · rcases moveRecords s m with ⟨_,same⟩ | ⟨c',client,_,_,grown⟩
      · rw [same] at old; exact .inl old
      · rw [grown] at old
        rcases List.mem_cons.mp old with rfl | before
        · exact .inr ⟨m,List.mem_cons_self,client.symm⟩
        · exact .inl before
    · exact .inr ⟨n,List.mem_cons_of_mem _ inside,client⟩

theorem runUpright {moves : List (Nat × Env C)} (reads : ∀ seen, seen <+: moves → I (s.run seen).world.db)
    (h : Upright I J duty ok err s) (admitted : ∀ m ∈ moves, (duty m.1).admits m.2.answer) :
    Upright I J duty ok err (s.run moves) ∧
      ∀ m ∈ (s.run moves).world.history, m ∈ s.world.history ∨ (duty m.client).commits m.writes := by
  induction moves generalizing s with
  | nil => exact ⟨h,fun m mem => .inl mem⟩
  | cons m rest ih =>
    obtain ⟨next,commits⟩ := moveUpright (reads [] (List.nil_prefix)) h (admitted m (by simp))
    obtain ⟨last,allowed⟩ := ih (s := s.step m) (fun seen before => reads (m :: seen) (by simpa using before)) next
      fun n mem => admitted n (List.mem_cons_of_mem _ mem)
    refine ⟨last,fun c mem => ?_⟩
    rcases allowed c mem with old | new
    · rcases moveRecords s m with ⟨_,same⟩ | ⟨c',_,_,_,grown⟩
      · rw [same] at old; exact .inl old
      · rw [grown] at old
        rcases List.mem_cons.mp old with rfl | before
        · exact .inr (commits c grown)
        · exact .inl before
    · exact .inr new

end Pool
end LibraryApi.Program
