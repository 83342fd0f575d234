import LibraryApi.LockOrder
import Mathlib.Data.DFinsupp.WellFounded

/-! Runs that go on for ever. A program is a well-founded tree of awaits, so finitely many
clients make finitely many moves; if in every state somebody unfinished can move, a
schedule that lets everybody try again and again answers them all. -/
namespace LibraryApi.Program

variable {D W K X C E α : Type} [Backend D W K E] [DecidableEq K] {s : State D W K X C E α}

section Descent

def Follows (x y : Thread D W K X C E α) : Prop :=
  ∃ (i : Nat) (env : Env C) (w w' : World D W K X) (p : Prog D W K X C E α) (pending : List W),
    y = .running p pending ∧ step i env w p pending = some (w',x)

theorem finishedAcc (result : Except E α) :
    Acc (Follows (D := D) (W := W) (K := K) (X := X) (C := C)) (.finished result) :=
  .intro _ fun _ ⟨_,_,_,_,_,_,same,_⟩ => nomatch same

theorem stepAcc {p : Prog D W K X C E α} {pending : List W}
    (next : ∀ {i env} {w w' : World D W K X} {x}, step i env w p pending = some (w',x) → Acc Follows x) :
    Acc Follows (.running p pending) := by
  refine .intro _ ?_
  rintro x ⟨_,_,_,_,_,_,same,moved⟩
  cases same
  exact next moved

theorem followsWell : WellFounded (Follows (D := D) (W := W) (K := K) (X := X) (C := C) (E := E) (α := α)) := by
  refine ⟨fun y => ?_⟩
  cases y with
  | finished result => exact finishedAcc result
  | running p pending =>
    induction p generalizing pending with
    | pure a =>
      refine stepAcc fun moved => ?_
      cases moved; exact finishedAcc _
    | raise e =>
      refine stepAcc fun moved => ?_
      cases moved; exact finishedAcc _
    | select query next ih =>
      refine stepAcc fun moved => ?_
      cases moved; exact ih _ _
    | lock query key next ih =>
      refine stepAcc fun moved => ?_
      simp only [step] at moved
      split at moved
      · cases moved; exact ih _ _
      · split at moved <;> cases moved
        exact ih _ _
    | write statement next ih =>
      refine stepAcc fun moved => ?_
      simp only [step] at moved
      split at moved <;> try contradiction
      split at moved <;> cases moved
      · exact ih _
      · exact finishedAcc _
    | commit next ih =>
      refine stepAcc fun moved => ?_
      simp only [step] at moved
      split at moved <;> cases moved
      · exact ih _
      · exact finishedAcc _
    | now next ih =>
      refine stepAcc fun moved => ?_
      cases moved; exact ih _ _
    | call act next ih =>
      refine stepAcc fun moved => ?_
      simp only [step] at moved
      split at moved <;> cases moved
      · exact ih _ _
      · exact finishedAcc _

def Shorter (x y : Option (Thread D W K X C E α)) : Prop := ∃ a b, x = some a ∧ y = some b ∧ Follows a b

theorem shorterWell : WellFounded (Shorter (D := D) (W := W) (K := K) (X := X) (C := C) (E := E) (α := α)) := by
  refine ⟨fun y => ?_⟩
  cases y with
  | none => exact .intro _ fun _ ⟨_,_,_,absent,_⟩ => nomatch absent
  | some b =>
    refine followsWell.induction (C := fun b => Acc Shorter (some b)) b fun b ih => ?_
    refine .intro _ fun x ⟨a,b',left,right,follows⟩ => ?_
    cases left; cases right
    exact ih a follows

def threads (n : Nat) (s : State D W K X C E α) (k : Fin n) : Option (Thread D W K X C E α) := s.pool k

def Descends (n : Nat) (s s' : State D W K X C E α) : Prop :=
  Pi.Lex (· < ·) (fun {_} => Shorter) (threads n s') (threads n s)

theorem moveDescends {n : Nat} (m : Nat × Env C) (bound : ∀ j, n ≤ j → s.pool j = none) :
    s.step m = s ∨ Descends n s (s.step m) := by
  unfold State.step
  split
  case h_2 => exact .inl rfl
  rename_i p pending here
  split
  case h_2 => exact .inl rfl
  rename_i w x moved
  have inside : m.1 < n := by
    by_contra outside
    rw [bound m.1 (by omega)] at here
    contradiction
  refine .inr ⟨⟨m.1,inside⟩,fun j before => ?_,x,_,if_pos rfl,here,m.1,m.2,s.world,w,p,pending,rfl,moved⟩
  have other : j.val ≠ m.1 := fun same => absurd before (by simp [Fin.lt_def,same])
  exact if_neg other

theorem movableDescends {n : Nat} {m : Nat × Env C} (bound : ∀ j, n ≤ j → s.pool j = none) (moves : Movable s m.1) :
    Descends n s (s.step m) := by
  rcases moveDescends m bound with same | down
  · obtain ⟨p,pending,here,can⟩ := moves
    obtain ⟨⟨w,x⟩,moved⟩ := Option.isSome_iff_exists.mp (can m.2)
    have after : (s.step m).pool m.1 = some x := by simp [State.step,here,moved]
    rw [same,here] at after
    cases after
    exact absurd ⟨m.1,m.2,s.world,w,p,pending,rfl,moved⟩ (followsWell.irrefl.irrefl _)
  · exact down

end Descent

section Schedules

def State.after (s : State D W K X C E α) (schedule : Nat → Nat × Env C) (n : Nat) : State D W K X C E α :=
  s.run ((List.range n).map schedule)

theorem afterSucc (s : State D W K X C E α) (schedule : Nat → Nat × Env C) (n : Nat) :
    s.after schedule (n+1) = (s.after schedule n).step (schedule n) := by
  simp only [State.after,List.range_succ,List.map_append,State.runAppend]
  rfl

def Fairly (s : State D W K X C E α) (schedule : Nat → Nat × Env C) : Prop :=
  ∀ j, (s.pool j).isSome → ∀ n, ∃ k, n ≤ k ∧ (schedule k).1 = j

def State.done (s : State D W K X C E α) : Prop := ∀ j p pending, s.pool j ≠ some (.running p pending)

theorem movePool (s : State D W K X C E α) (m : Nat × Env C) (j : Nat) : ((s.step m).pool j).isSome = (s.pool j).isSome := by
  unfold State.step
  split
  case h_2 => rfl
  rename_i p pending here
  split
  case h_2 => rfl
  dsimp only
  split
  · rename_i same; rw [same,here]; rfl
  · rfl

theorem afterPool (s : State D W K X C E α) (schedule : Nat → Nat × Env C) (n j : Nat) :
    ((s.after schedule n).pool j).isSome = (s.pool j).isSome := by
  induction n with
  | zero => rfl
  | succ n ih => rw [afterSucc,movePool,ih]

theorem doneStays (done : s.done) (m : Nat × Env C) : s.step m = s := by
  unfold State.step
  split
  · rename_i p pending here; exact absurd here (done _ p pending)
  · rfl

theorem descendsBy {n : Nat} (bound : ∀ j, n ≤ j → s.pool j = none) (schedule : Nat → Nat × Env C) {k d j : Nat}
    (moves : Movable (s.after schedule k) j) (turn : (schedule (k+d)).1 = j) :
    ∃ l, Descends n (s.after schedule k) (s.after schedule l) := by
  have bound' (k : Nat) : ∀ j, n ≤ j → (s.after schedule k).pool j = none := fun j high => by
    have same := afterPool s schedule k j
    rw [bound j high] at same
    simpa using same
  induction d generalizing k with
  | zero =>
    subst turn
    exact ⟨k+1,by rw [afterSucc]; exact movableDescends (bound' k) moves⟩
  | succ d ih =>
    rcases moveDescends (schedule k) (bound' k) with same | down
    · rw [← afterSucc] at same
      rw [← same]
      exact ih (by rw [same]; exact moves) (by rw [← turn,Nat.add_right_comm]; rfl)
    · exact ⟨k+1,by rw [afterSucc]; exact down⟩

theorem fairlyDone {n : Nat} (bound : ∀ j, n ≤ j → s.pool j = none) {schedule : Nat → Nat × Env C} (fair : Fairly s schedule)
    (live : ∀ k, (s.after schedule k).done ∨ ∃ j, Movable (s.after schedule k) j) :
    ∃ k, ∀ l, k ≤ l → (s.after schedule l).done := by
  have ends : ∃ k, (s.after schedule k).done := by
    have well : WellFounded (Pi.Lex (· < ·) (fun {_ : Fin n} => Shorter (D := D) (W := W) (K := K) (X := X) (C := C)
        (E := E) (α := α))) := Pi.Lex.wellFounded _ fun _ => shorterWell
    have from_ : ∀ v k, threads n (s.after schedule k) = v → ∃ k, (s.after schedule k).done := by
      intro v
      induction v using well.induction with
      | _ v ih =>
        rintro k rfl
        rcases live k with done | ⟨j,moves⟩
        · exact ⟨k,done⟩
        · obtain ⟨p,pending,here,-⟩ := id moves
          have waiting : (s.pool j).isSome := by rw [← afterPool s schedule k,here]; rfl
          obtain ⟨l,later,turn⟩ := fair j waiting k
          obtain ⟨l',down⟩ := descendsBy (d := l - k) bound schedule moves (by rw [Nat.add_sub_cancel' later,turn])
          exact ih _ down l' rfl
    exact from_ _ 0 rfl
  obtain ⟨k,done⟩ := ends
  refine ⟨k,fun l later => ?_⟩
  induction l, later using Nat.le_induction with
  | base => exact done
  | succ l _ ih => rw [afterSucc,doneStays ih]; exact ih

end Schedules
end LibraryApi.Program
