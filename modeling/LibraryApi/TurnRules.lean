import LibraryApi.JointRules
import Mathlib.Data.List.TakeWhile

/-! A run seen from one of its states. The history is written and never read, so a run goes
on from a state as from the same state with nothing behind it; what a client commits can be
told from the world in which it gets its first turn. -/
namespace LibraryApi.Program

variable {D W K X C E α : Type} [Backend D W K E] [DecidableEq K] {s : State D W K X C E α} {j : Nat}

section Behind

def World.onto (w : World D W K X) (past : List (Commit D W)) : World D W K X := {w with history := w.history ++ past}

def State.onto (s : State D W K X C E α) (past : List (Commit D W)) : State D W K X C E α := ⟨s.world.onto past,s.pool⟩

omit [DecidableEq K] in
theorem ontoDb (w : World D W K X) (past : List (Commit D W)) : (w.onto past).db = w.db := rfl

theorem stepOnto (i : Nat) (env : Env C) (w : World D W K X) (p : Prog D W K X C E α) (pending : List W)
    (past : List (Commit D W)) :
    step i env (w.onto past) p pending = (step i env w p pending).map fun r => (r.1.onto past,r.2) := by
  cases p with
  | pure a => rfl
  | raise e => rfl
  | select query next => rfl
  | lock query key next =>
    simp only [step,ontoDb]
    cases query (view w.db pending) with
    | none => rfl
    | some row =>
      by_cases free : w.free i (key row)
      · simp only [if_pos free,if_pos (show (w.onto past).free i (key row) from free)]
        rfl
      · simp only [if_neg free,if_neg (show ¬ (w.onto past).free i (key row) from free)]
        rfl
  | write x next =>
    simp only [step,ontoDb]
    by_cases free : ∀ κ ∈ Backend.keys D x, w.free i κ
    · rw [if_pos free,if_pos (show ∀ κ ∈ Backend.keys D x, (w.onto past).free i κ from free)]
      cases Backend.exec x (view w.db pending) <;> rfl
    · rw [if_neg free,if_neg (show ¬ ∀ κ ∈ Backend.keys D x, (w.onto past).free i κ from free)]
      rfl
  | commit next =>
    simp only [step,ontoDb]
    cases execAll pending w.db <;> rfl
  | now next => rfl
  | call act next =>
    have sameExt : (w.onto past).ext = w.ext := rfl
    simp only [step,sameExt]
    cases act env.answer w.ext <;> rfl

theorem moveOnto (s : State D W K X C E α) (past : List (Commit D W)) (m : Nat × Env C) :
    (s.onto past).step m = (s.step m).onto past := by
  have samePool : (s.onto past).pool = s.pool := rfl
  have sameWorld : (s.onto past).world = s.world.onto past := rfl
  unfold State.step
  rw [samePool,sameWorld]
  cases s.pool m.1 with
  | none => rfl
  | some x =>
    cases x with
    | finished result => rfl
    | running prog pending =>
      simp only [stepOnto]
      cases step m.1 m.2 s.world prog pending <;> rfl

theorem runOnto (s : State D W K X C E α) (past : List (Commit D W)) (moves : List (Nat × Env C)) :
    (s.onto past).run moves = (s.run moves).onto past := by
  induction moves generalizing s with
  | nil => rfl
  | cons m rest ih =>
    show ((s.onto past).step m).run rest = ((s.step m).run rest).onto past
    rw [moveOnto,ih]

def State.anew (s : State D W K X C E α) : State D W K X C E α := ⟨{s.world with history := []},s.pool⟩

theorem runAnew (s : State D W K X C E α) (moves : List (Nat × Env C)) :
    s.run moves = (s.anew.run moves).onto s.world.history := runOnto s.anew s.world.history moves

end Behind

section Turns
variable {effect : List (Commit D W) → Commit D W → Prop} {p : Prog D W K X C E α}

theorem turnPath (here : s.pool j = some (.running p []))
    (owned : ∀ i q pending, s.pool i = some (.running q pending) → Owns i pending s.world)
    (rule : wp (pooled j (fun _ _ => True) (fun _ => True) fun h m => j = j → effect h m) (fun _ _ _ => True) (fun _ _ => True)
      p [] s.anew.world) (moves : List (Nat × Env C)) :
    Path (fun h m => m.client = j → effect h m) s.world.db s.world.clock (s.anew.run moves).world.history := by
  have start : Good (fun _ _ => True) (fun _ => True) (fun i h m => i = j → effect h m) (fun _ _ _ => True) (fun _ _ _ => True)
      s.world.db s.world.clock s.anew := by
    refine ⟨.start,⟨rfl,Int.le_refl _⟩,fun i x found => ?_⟩
    cases x with
    | finished result => cases result <;> trivial
    | running q pending =>
      refine ⟨owned i q pending found,?_⟩
      by_cases same : i = j
      · subst same
        cases Option.some.inj (here.symm.trans found)
        exact rule
      · exact wpFree (fun _ _ _ own => absurd own same) q
  exact (runGood (fun _ => trivial) (fun _ _ => trivial) (fun _ => trivial) start moves fun _ _ => trivial).path

def firstTurn (s : State D W K X C E α) (moves : List (Nat × Env C)) (j : Nat) : World D W K X :=
  (s.run (moves.takeWhile fun m => m.1 != j)).world

omit [Backend D W K E] [DecidableEq K] in
theorem turnWaits (moves : List (Nat × Env C)) (j : Nat) : ∀ m ∈ moves.takeWhile (fun m => m.1 != j), m.1 ≠ j :=
  fun m mem => by simpa using List.mem_takeWhile_imp mem

end Turns
end LibraryApi.Program
