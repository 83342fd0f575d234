import Mathlib.Tactic.Common

/-! Programs of a database client under READ COMMITTED with row locks. A program
is the tree of its awaits: statements, commits, clock readings and calls to one
other service. The tree is served alone or interleaved with other clients; a
session that ends without a commit leaves nothing behind. -/
namespace LibraryApi.Program

/-- What the server does with one INSERT or UPDATE. `Same κ` says that the row
under the lock `κ` did not change; a statement changes only rows it locks. -/
class Backend (D W : Type) (K E : outParam Type) where
  keys : W → List K
  exec : W → D → Except E D
  Same : K → D → D → Prop
  sameRefl : ∀ κ d, Same κ d d
  sameTrans : ∀ {κ a b c}, Same κ a b → Same κ b c → Same κ a c
  execSame : ∀ {x d d' κ}, exec x d = .ok d' → κ ∉ keys x → Same κ d d'

/-- `select` is a plain SELECT, `lock` a SELECT … FOR UPDATE of at most one row,
`write` one flushed statement, `call` an await on the other service. -/
inductive Prog (D W K X C E : Type) (α : Type) : Type 1 where
  | pure (value : α)
  | raise (error : E)
  | select {β : Type} (query : D → β) (next : β → Prog D W K X C E α)
  | lock {β : Type} (query : D → Option β) (key : β → K) (next : Option β → Prog D W K X C E α)
  | write (statement : W) (next : Prog D W K X C E α)
  | commit (next : Prog D W K X C E α)
  | now (next : Int → Prog D W K X C E α)
  | call {β : Type} (act : C → X → Except E (β × X)) (next : β → Prog D W K X C E α)

variable {D W K X C E α β : Type}

namespace Prog

def bind : Prog D W K X C E α → (α → Prog D W K X C E β) → Prog D W K X C E β
  | .pure a, f => f a
  | .raise e, _ => .raise e
  | .select query next, f => .select query (fun b => (next b).bind f)
  | .lock query key next, f => .lock query key (fun b => (next b).bind f)
  | .write statement next, f => .write statement (next.bind f)
  | .commit next, f => .commit (next.bind f)
  | .now next, f => .now (fun t => (next t).bind f)
  | .call act next, f => .call act (fun b => (next b).bind f)

instance : Monad (Prog D W K X C E) where
  pure := .pure
  bind := .bind

end Prog

def select (query : D → β) : Prog D W K X C E β := .select query .pure
def lock (query : D → Option β) (key : β → K) : Prog D W K X C E (Option β) :=
  .lock query key .pure
def write (statement : W) : Prog D W K X C E Unit := .write statement (.pure ())
def commit : Prog D W K X C E Unit := .commit (.pure ())
def now : Prog D W K X C E Int := .now .pure
def call (act : C → X → Except E (β × X)) : Prog D W K X C E β := .call act .pure
def raise (error : E) : Prog D W K X C E α := .raise error

structure Commit (D W : Type) where
  client : Nat
  before : D
  writes : List W
  after : D
  clock : Int

/-- `db` is the committed database. The history holds every commit, newest first. -/
structure World (D W K X : Type) where
  db : D
  locks : K → Option Nat
  ext : X
  clock : Int
  history : List (Commit D W)

structure Env (C : Type) where
  elapsed : Nat
  answer : C

section Session
variable [Backend D W K E]

def execAll : List W → D → Except E D
  | [], d => .ok d
  | x :: rest, d => match Backend.exec x d with
    | .ok d' => execAll rest d'
    | .error e => .error e

def view (d : D) (pending : List W) : D := match execAll pending d with
  | .ok d' => d'
  | .error _ => d

@[simp] theorem viewNil (d : D) : view d ([] : List W) = d := rfl

theorem execAllCons {x : W} {rest : List W} {d d' : D} : execAll (x :: rest) d = .ok d' ↔
    ∃ mid, Backend.exec x d = .ok mid ∧ execAll rest mid = .ok d' := by
  simp only [execAll]
  split
  · rename_i mid ran; simp [ran]
  · rename_i e failed; simp [failed]

theorem execAllKeeps {R : D → D → Prop} (refl : ∀ d, R d d) (trans : ∀ {a b c}, R a b → R b c → R a c)
    {xs : List W} (each : ∀ x ∈ xs, ∀ d d', Backend.exec x d = .ok d' → R d d') {d d' : D}
    (h : execAll xs d = .ok d') : R d d' := by
  induction xs generalizing d with
  | nil => cases h; exact refl _
  | cons x rest ih =>
    obtain ⟨mid,hx,h⟩ := execAllCons.mp h
    exact trans (each x (by simp) _ _ hx) (ih (fun y hy => each y (List.mem_cons_of_mem _ hy)) h)

theorem execAllSame {pending : List W} {d d' : D} {κ : K} (h : execAll pending d = .ok d')
    (outside : ∀ x ∈ pending, κ ∉ Backend.keys D x) : Backend.Same W κ d d' := by
  induction pending generalizing d with
  | nil => cases h; exact Backend.sameRefl κ _
  | cons x rest ih =>
    obtain ⟨mid,hx,h⟩ := execAllCons.mp h
    exact Backend.sameTrans (Backend.execSame hx (outside x (by simp)))
      (ih h fun y hy => outside y (List.mem_cons_of_mem _ hy))

end Session

namespace World
variable [DecidableEq K]

def free (w : World D W K X) (i : Nat) (κ : K) : Prop := w.locks κ = none ∨ w.locks κ = some i
instance (w : World D W K X) (i κ) : Decidable (w.free i κ) := by unfold free; infer_instance

def acquire (w : World D W K X) (i : Nat) (keys : List K) : World D W K X :=
  {w with locks := fun κ => if κ ∈ keys then some i else w.locks κ}

omit [DecidableEq K] in
def release (w : World D W K X) (i : Nat) : World D W K X :=
  {w with locks := fun κ => if w.locks κ = some i then none else w.locks κ}

omit [DecidableEq K] in
def record (w : World D W K X) (i : Nat) (pending : List W) (d : D) : World D W K X :=
  {w.release i with db := d, history := ⟨i,w.db,pending,d,w.clock⟩ :: w.history}

end World

def mine (i : Nat) (history : List (Commit D W)) : List (Commit D W) :=
  history.filter (fun c => c.client == i)

def stateAfter (start : D) : List (Commit D W) → D
  | [] => start
  | c :: _ => c.after

def clockAfter (start : Int) : List (Commit D W) → Int
  | [] => start
  | c :: _ => c.clock

theorem stateAfterAppend (d : D) (later h : List (Commit D W)) :
    stateAfter d (later ++ h) = stateAfter (stateAfter d h) later := by
  cases later <;> rfl

theorem clockAfterAppend (t : Int) (later h : List (Commit D W)) :
    clockAfter t (later ++ h) = clockAfter (clockAfter t h) later := by
  cases later <;> rfl

@[simp] theorem mineNil (i : Nat) : mine i ([] : List (Commit D W)) = [] := rfl

theorem mineCons (i : Nat) (c : Commit D W) (h : List (Commit D W)) :
    mine i (c :: h) = if c.client = i then c :: mine i h else mine i h := by
  simp [mine,List.filter_cons]

theorem mineOthers {i : Nat} {later h : List (Commit D W)} (others : ∀ c ∈ later, c.client ≠ i) :
    mine i (later ++ h) = mine i h := by
  have none : later.filter (fun c => c.client == i) = [] := by
    simpa [List.filter_eq_nil_iff] using others
  simp [mine,List.filter_append,none]

section Alone
variable [Backend D W K E] [DecidableEq K]

/-- One client served with nobody else at the server: no lock is ever waited for. -/
def alone (i : Nat) : Prog D W K X C E α → List W → World D W K X → (Nat → Env C) →
    Except E α × World D W K X
  | .pure a, _, w, _ => (.ok a,w.release i)
  | .raise e, _, w, _ => (.error e,w.release i)
  | .select query next, pending, w, env =>
      alone i (next (query (view w.db pending))) pending w (fun n => env (n+1))
  | .lock query key next, pending, w, env => match query (view w.db pending) with
    | none => alone i (next none) pending w (fun n => env (n+1))
    | some row => alone i (next (some row)) pending (w.acquire i [key row]) (fun n => env (n+1))
  | .write statement next, pending, w, env => match Backend.exec statement (view w.db pending) with
    | .ok _ => alone i next (pending ++ [statement]) (w.acquire i (Backend.keys D statement))
        (fun n => env (n+1))
    | .error e => (.error e,w.release i)
  | .commit next, pending, w, env => match execAll pending w.db with
    | .ok d => alone i next [] (w.record i pending d) (fun n => env (n+1))
    | .error e => (.error e,w.release i)
  | .now next, pending, w, env =>
      let t := w.clock + (env 0).elapsed
      alone i (next t) pending {w with clock := t} (fun n => env (n+1))
  | .call act next, pending, w, env => match act (env 0).answer w.ext with
    | .ok (b,x) => alone i (next b) pending {w with ext := x} (fun n => env (n+1))
    | .error e => (.error e,w.release i)

theorem aloneLock {i : Nat} {query : D → Option β} {key : β → K} {f : Option β → Prog D W K X C E α}
    {pending : List W} {w : World D W K X} {env : Nat → Env C} {row : β}
    (found : query (view w.db pending) = some row) : alone i (lock query key >>= f) pending w env =
      alone i (f (some row)) pending (w.acquire i [key row]) (fun n => env (n+1)) := by
  show alone i (.lock query key f) pending w env = _
  simp only [alone,found]

theorem aloneCalled {i : Nat} {act : C → X → Except E (β × X)} {f : β → Prog D W K X C E α}
    {pending : List W} {w : World D W K X} {env : Nat → Env C} {b : β} {x : X} (done : act (env 0).answer w.ext = .ok (b,x)) :
    alone i (call act >>= f) pending w env = alone i (f b) pending {w with ext := x} (fun n => env (n+1)) := by
  show alone i (.call act f) pending w env = _
  simp only [alone,done]

theorem aloneRefused {i : Nat} {act : C → X → Except E (β × X)} {f : β → Prog D W K X C E α}
    {pending : List W} {w : World D W K X} {env : Nat → Env C} {e : E} (refused : act (env 0).answer w.ext = .error e) :
    alone i (call act >>= f) pending w env = (.error e,w.release i) := by
  show alone i (.call act f) pending w env = _
  simp only [alone,refused]

theorem aloneNow {i : Nat} {f : Int → Prog D W K X C E α} {pending : List W} {w : World D W K X}
    {env : Nat → Env C} : alone i (now >>= f) pending w env =
      alone i (f (w.clock + (env 0).elapsed)) pending {w with clock := w.clock + (env 0).elapsed}
        (fun n => env (n+1)) := rfl

theorem aloneWrite {i : Nat} {x : W} {f : Unit → Prog D W K X C E α} {pending : List W} {w : World D W K X}
    {env : Nat → Env C} {d : D} (ran : Backend.exec x (view w.db pending) = .ok d) :
    alone i (write x >>= f) pending w env =
      alone i (f ()) (pending ++ [x]) (w.acquire i (Backend.keys D x)) (fun n => env (n+1)) := by
  show alone i (.write x (f ())) pending w env = _
  simp only [alone,ran]

theorem aloneRejected {i : Nat} {x : W} {f : Unit → Prog D W K X C E α} {pending : List W} {w : World D W K X}
    {env : Nat → Env C} {e : E} (failed : Backend.exec x (view w.db pending) = .error e) :
    alone i (write x >>= f) pending w env = (.error e,w.release i) := by
  show alone i (.write x (f ())) pending w env = _
  simp only [alone,failed]

theorem aloneCommit {i : Nat} {f : Unit → Prog D W K X C E α} {pending : List W} {w : World D W K X}
    {env : Nat → Env C} {d : D} (ran : execAll pending w.db = .ok d) : alone i (commit >>= f) pending w env =
      alone i (f ()) [] (w.record i pending d) (fun n => env (n+1)) := by
  show alone i (.commit (f ())) pending w env = _
  simp only [alone,ran]

end Alone

inductive Thread (D W K X C E α : Type) : Type 1 where
  | running (prog : Prog D W K X C E α) (pending : List W)
  | finished (result : Except E α)

structure State (D W K X C E α : Type) : Type 1 where
  world : World D W K X
  pool : Nat → Option (Thread D W K X C E α)

section Interleaved
variable [Backend D W K E] [DecidableEq K]

/-- One await of client `i`; `none` while it waits for a row lock. A locking read
that matches no committed row does not wait. -/
def step (i : Nat) (env : Env C) (w : World D W K X) :
    Prog D W K X C E α → List W → Option (World D W K X × Thread D W K X C E α)
  | .pure a, _ => some (w.release i,.finished (.ok a))
  | .raise e, _ => some (w.release i,.finished (.error e))
  | .select query next, pending => some (w,.running (next (query (view w.db pending))) pending)
  | .lock query key next, pending => match query (view w.db pending) with
    | none => some (w,.running (next none) pending)
    | some row =>
        if w.free i (key row) then some (w.acquire i [key row],.running (next (some row)) pending)
        else none
  | .write statement next, pending =>
      if ∀ κ ∈ Backend.keys D statement, w.free i κ then
        match Backend.exec statement (view w.db pending) with
        | .ok _ => some (w.acquire i (Backend.keys D statement),.running next (pending ++ [statement]))
        | .error e => some (w.release i,.finished (.error e))
      else none
  | .commit next, pending => match execAll pending w.db with
    | .ok d => some (w.record i pending d,.running next [])
    | .error e => some (w.release i,.finished (.error e))
  | .now next, pending =>
      let t := w.clock + env.elapsed
      some ({w with clock := t},.running (next t) pending)
  | .call act next, pending => match act env.answer w.ext with
    | .ok (b,x) => some ({w with ext := x},.running (next b) pending)
    | .error e => some (w.release i,.finished (.error e))

def State.step (s : State D W K X C E α) (move : Nat × Env C) : State D W K X C E α :=
  match s.pool move.1 with
  | some (.running prog pending) => match Program.step move.1 move.2 s.world prog pending with
    | some (w,t) => ⟨w,fun j => if j = move.1 then some t else s.pool j⟩
    | none => s
  | _ => s

def State.run (s : State D W K X C E α) (moves : List (Nat × Env C)) : State D W K X C E α :=
  moves.foldl State.step s

theorem State.runAppend (s : State D W K X C E α) (a b : List (Nat × Env C)) :
    s.run (a ++ b) = (s.run a).run b := List.foldl_append

def start (w : World D W K X) (programs : Nat → Option (Prog D W K X C E α)) :
    State D W K X C E α :=
  ⟨w,fun j => (programs j).map (fun p => .running p [])⟩

end Interleaved
end LibraryApi.Program
