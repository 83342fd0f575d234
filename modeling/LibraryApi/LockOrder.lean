import LibraryApi.UseRules
import Mathlib.Logic.Relation

/-! No deadlock among clients that lock rows in one order. Ranks order the locks; of one
rank a client takes several only under a common guard, a lock of lower rank that it holds
already. Who guards whom is read from the database, within a relation `R` that the whole
run keeps. -/
namespace LibraryApi.Program

variable {D W K X C E α β : Type}

structure Hierarchy (D K : Type) where
  rank : K → Nat
  guard : D → K → Option K
  top : Nat
  bounded : ∀ κ, rank κ ≤ top

def Hierarchy.inOrder (o : Hierarchy D K) (d : D) (held : List K) (κ : K) : Prop :=
  κ ∈ held ∨ (∀ h ∈ held, o.rank h < o.rank κ) ∨ ∃ g ∈ held, o.guard d κ = some g ∧
    ∀ h ∈ held, o.rank h < o.rank κ ∨ (o.rank h = o.rank κ ∧ o.guard d h = some g)

variable [Backend D W K E]

def keyless (D : Type) {W K E : Type} [Backend D W K E] : Use W → Prop
  | .lock => False
  | .write x => Backend.keys D x = []
  | .commit => True

section Order
variable (o : Hierarchy D K) (R : D → D → Prop)

def Climbs (ok : α → List K → List W → D → Prop) : Prog D W K X C E α → List K → List W → D → Prop
  | .pure a, held, pending, d => ok a held pending d
  | .raise _, _, _, _ => True
  | .select query next, held, pending, d =>
      ∀ d', R d d' → Climbs ok (next (query (view d' pending))) held pending d'
  | .lock query key next, held, pending, d => ∀ d', R d d' → match query (view d' pending) with
      | none => Climbs ok (next none) held pending d'
      | some row => o.inOrder d' held (key row) ∧ Climbs ok (next (some row)) (key row :: held) pending d'
  | .write x next, held, pending, d => ∀ d', R d d' → (∀ κ ∈ Backend.keys D x, o.inOrder d' held κ) ∧
      Climbs ok next (Backend.keys D x ++ held) (pending ++ [x]) d'
  | .commit next, _, pending, d => ∀ d', R d d' → ∀ after, execAll pending d' = .ok after → Climbs ok next [] [] after
  | .now next, held, pending, d => ∀ d', R d d' → ∀ t, Climbs ok (next t) held pending d'
  | .call _ next, held, pending, d => ∀ d', R d d' → ∀ b, Climbs ok (next b) held pending d'

end Order

section Rules
variable {o : Hierarchy D K} {R : D → D → Prop} {ok ok' : α → List K → List W → D → Prop} {held : List K}
  {pending : List W} {d d' : D}

theorem climbsMono {p : Prog D W K X C E α} (good : ∀ a held pending d, ok a held pending d → ok' a held pending d)
    (h : Climbs o R ok p held pending d) : Climbs o R ok' p held pending d := by
  induction p generalizing held pending d with
  | pure a => exact good _ _ _ _ h
  | raise e => trivial
  | select query next ih => exact fun d' r => ih _ (h d' r)
  | lock query key next ih =>
    intro d' r
    have here := h d' r
    split at here
    · exact ih _ here
    · exact ⟨here.1,ih _ here.2⟩
  | write statement next ih => exact fun d' r => ⟨(h d' r).1,ih (h d' r).2⟩
  | commit next ih => exact fun d' r after ran => ih (h d' r after ran)
  | now next ih => exact fun d' r t => ih _ (h d' r t)
  | call act next ih => exact fun d' r b => ih _ (h d' r b)

theorem climbsBind {ok : β → List K → List W → D → Prop} {p : Prog D W K X C E α} {f : α → Prog D W K X C E β}
    (h : Climbs o R (fun a held pending d => Climbs o R ok (f a) held pending d) p held pending d) :
    Climbs o R ok (p >>= f) held pending d := by
  show Climbs o R ok (p.bind f) held pending d
  induction p generalizing held pending d with
  | pure a => exact h
  | raise e => trivial
  | select query next ih => exact fun d' r => ih _ (h d' r)
  | lock query key next ih =>
    intro d' r
    have here := h d' r
    split at here
    · exact ih _ here
    · exact ⟨here.1,ih _ here.2⟩
  | write statement next ih => exact fun d' r => ⟨(h d' r).1,ih (h d' r).2⟩
  | commit next ih => exact fun d' r after ran => ih (h d' r after ran)
  | now next ih => exact fun d' r t => ih _ (h d' r t)
  | call act next ih => exact fun d' r b => ih _ (h d' r b)

theorem climbsLater (trans : ∀ {a b c}, R a b → R b c → R a c) (kept : ∀ a held pending {d d'}, R d d' →
      ok a held pending d → ok a held pending d') {p : Prog D W K X C E α} (r : R d d')
    (h : Climbs o R ok p held pending d) : Climbs o R ok p held pending d' := by
  cases p with
  | pure a => exact kept _ _ _ r h
  | raise e => trivial
  | select query next => exact fun d'' r' => h d'' (trans r r')
  | lock query key next => exact fun d'' r' => h d'' (trans r r')
  | write statement next => exact fun d'' r' => h d'' (trans r r')
  | commit next => exact fun d'' r' => h d'' (trans r r')
  | now next => exact fun d'' r' => h d'' (trans r r')
  | call act next => exact fun d'' r' => h d'' (trans r r')

theorem climbsLooks (refl : ∀ d, R d d) (trans : ∀ {a b c}, R a b → R b c → R a c) {p : Prog D W K X C E α}
    (looks : Looks p) (good : ∀ a d', R d d' → ok a held pending d') : Climbs o R ok p held pending d := by
  induction p generalizing d with
  | pure a => exact good a d (refl d)
  | raise e => trivial
  | select query next ih => exact fun d' r => ih _ (looks _) fun a d'' r' => good a d'' (trans r r')
  | lock query key next ih => exact looks.1.elim
  | write statement next ih => exact looks.1.elim
  | commit next ih => exact looks.1.elim
  | now next ih => exact fun d' r t => ih _ (looks t) fun a d'' r' => good a d'' (trans r r')
  | call act next ih => exact fun d' r b => ih _ (looks b) fun a d'' r' => good a d'' (trans r r')

theorem climbsKeyless {p : Prog D W K X C E α} (none : Uses (keyless D) p)
    (good : ∀ a held pending d, ok a held pending d) : Climbs o R ok p held pending d := by
  induction p generalizing held pending d with
  | pure a => exact good _ _ _ _
  | raise e => trivial
  | select query next ih => exact fun d' _ => ih _ (none _)
  | lock query key next ih => exact none.1.elim
  | write statement next ih => exact fun d' _ => ⟨by simp [show Backend.keys D statement = [] from none.1],ih none.2⟩
  | commit next ih => exact fun d' _ after _ => ih none.2
  | now next ih => exact fun d' _ t => ih _ (none t)
  | call act next ih => exact fun d' _ b => ih _ (none b)

end Rules

variable [DecidableEq K]

section Waiting

def Wants (w : World D W K X) (pending : List W) (κ : K) : Prog D W K X C E α → Prop
  | .lock query key _ => (query (view w.db pending)).map key = some κ
  | .write x _ => κ ∈ Backend.keys D x
  | _ => False

def WaitsFor (s : State D W K X C E α) (i j : Nat) : Prop := ∃ p pending κ, s.pool i = some (.running p pending) ∧
  Wants s.world pending κ p ∧ s.world.locks κ = some j ∧ j ≠ i

def Movable (s : State D W K X C E α) (j : Nat) : Prop :=
  ∃ p pending, s.pool j = some (.running p pending) ∧ ∀ env, (step j env s.world p pending).isSome

variable {i : Nat} {w : World D W K X} {p : Prog D W K X C E α} {pending : List W}

theorem stuckWants {env : Env C} (stuck : step i env w p pending = none) :
    ∃ κ j, Wants w pending κ p ∧ w.locks κ = some j ∧ j ≠ i := by
  have taken {κ : K} (busy : ¬ w.free i κ) : ∃ j, w.locks κ = some j ∧ j ≠ i := by
    unfold World.free at busy
    cases held : w.locks κ with
    | none => exact absurd (.inl held) busy
    | some j => exact ⟨j,rfl,fun same => busy (.inr (same ▸ held))⟩
  cases p with
  | lock query key next =>
    simp only [step] at stuck
    split at stuck <;> try contradiction
    rename_i row found
    split at stuck <;> try contradiction
    rename_i busy
    obtain ⟨j,held,other⟩ := taken busy
    exact ⟨key row,j,by simp [Wants,found],held,other⟩
  | write x next =>
    simp only [step] at stuck
    split at stuck
    · split at stuck <;> contradiction
    · rename_i busy
      simp only [not_forall] at busy
      obtain ⟨κ,mem,busy⟩ := busy
      obtain ⟨j,held,other⟩ := taken busy
      exact ⟨κ,j,mem,held,other⟩
  | commit next => simp only [step] at stuck; split at stuck <;> contradiction
  | call act next => simp only [step] at stuck; split at stuck <;> contradiction
  | _ => cases stuck

end Waiting

section Pool
variable {o : Hierarchy D K} {R : D → D → Prop} {s : State D W K X C E α}

def Ordered (o : Hierarchy D K) (R : D → D → Prop) (w : World D W K X) (j : Nat) : Thread D W K X C E α → Prop
  | .running p pending => ∃ held, (∀ κ, w.locks κ = some j ↔ κ ∈ held) ∧
      Climbs o R (fun _ _ _ _ => True) p held pending w.db
  | .finished _ => ∀ κ, w.locks κ ≠ some j

structure Climbing (o : Hierarchy D K) (R : D → D → Prop) (s : State D W K X C E α) : Prop where
  threads : ∀ j x, s.pool j = some x → Ordered o R s.world j x
  absent : ∀ j, s.pool j = none → ∀ κ, s.world.locks κ ≠ some j

omit [Backend D W K E] [DecidableEq K] in
theorem releasedNone (w : World D W K X) (i : Nat) (κ : K) : (w.release i).locks κ ≠ some i := by
  simp only [World.release]
  split
  · nofun
  · assumption

omit [Backend D W K E] [DecidableEq K] in
theorem releasedOthers {i j : Nat} (other : j ≠ i) (w : World D W K X) (κ : K) :
    (w.release i).locks κ = some j ↔ w.locks κ = some j := by
  simp only [World.release]
  split
  · rename_i held
    rw [held]
    exact iff_of_false nofun fun same => other (Option.some.inj same).symm
  · exact Iff.rfl

omit [Backend D W K E] in
theorem acquiredOwn {i : Nat} {w : World D W K X} {held keys : List K} (own : ∀ κ, w.locks κ = some i ↔ κ ∈ held) (κ : K) :
    (w.acquire i keys).locks κ = some i ↔ κ ∈ keys ++ held := by
  simp only [World.acquire,List.mem_append]
  split
  · rename_i inside; simp [inside]
  · rename_i outside; simp [outside,own]

omit [Backend D W K E] in
theorem acquiredOthers {i j : Nat} (other : j ≠ i) {w : World D W K X} {keys : List K} (free : ∀ κ ∈ keys, w.free i κ)
    (κ : K) : (w.acquire i keys).locks κ = some j ↔ w.locks κ = some j := by
  simp only [World.acquire]
  split
  · rename_i inside
    refine iff_of_false (fun same => other (Option.some.inj same).symm) fun held => ?_
    rcases free κ inside with none | own
    · rw [none] at held; contradiction
    · exact other (Option.some.inj (held.symm.trans own))
  · exact Iff.rfl

theorem stepOrdered (refl : ∀ d, R d d) {i : Nat} {env : Env C} {w w' : World D W K X} {p : Prog D W K X C E α}
    {pending : List W} {x : Thread D W K X C E α} (moved : step i env w p pending = some (w',x))
    (h : Ordered o R w i (.running p pending)) :
    Ordered o R w' i x ∧ ∀ j, j ≠ i → ∀ κ, w'.locks κ = some j ↔ w.locks κ = some j := by
  obtain ⟨held,own,climbs⟩ := h
  have gone : ∀ e : Except E α, Ordered o R (w.release i) i (.finished e : Thread D W K X C E α) ∧
      ∀ j, j ≠ i → ∀ κ, (w.release i).locks κ = some j ↔ w.locks κ = some j :=
    fun _ => ⟨releasedNone w i,fun j other => releasedOthers other w⟩
  cases p with
  | pure a => cases moved; exact gone _
  | raise e => cases moved; exact gone _
  | select query next => cases moved; exact ⟨⟨held,own,climbs w.db (refl _)⟩,fun _ _ _ => Iff.rfl⟩
  | lock query key next =>
    have here := climbs w.db (refl _)
    simp only [step] at moved
    cases found : query (view w.db pending) with
    | none => simp only [found] at moved here; cases moved; exact ⟨⟨held,own,here⟩,fun _ _ _ => Iff.rfl⟩
    | some row =>
      simp only [found] at moved here
      split at moved <;> try contradiction
      rename_i free
      cases moved
      exact ⟨⟨key row :: held,acquiredOwn own,here.2⟩,fun j other => acquiredOthers other (by simpa using free)⟩
  | write statement next =>
    have here := climbs w.db (refl _)
    simp only [step] at moved
    split at moved <;> try contradiction
    rename_i free
    split at moved <;> cases moved
    · exact ⟨⟨_,acquiredOwn own,here.2⟩,fun j other => acquiredOthers other free⟩
    · exact gone _
  | commit next =>
    simp only [step] at moved
    split at moved <;> cases moved
    · rename_i after ran
      refine ⟨⟨[],fun κ => ?_,climbs w.db (refl _) after ran⟩,fun j other => releasedOthers other w⟩
      exact iff_of_false (releasedNone w i κ) List.not_mem_nil
    · exact gone _
  | now next => cases moved; exact ⟨⟨held,own,climbs w.db (refl _) _⟩,fun _ _ _ => Iff.rfl⟩
  | call act next =>
    simp only [step] at moved
    split at moved <;> cases moved
    · exact ⟨⟨held,own,climbs w.db (refl _) _⟩,fun _ _ _ => Iff.rfl⟩
    · exact gone _

omit [DecidableEq K] in
theorem orderedLater (trans : ∀ {a b c}, R a b → R b c → R a c) {w w' : World D W K X} {j : Nat} (r : R w.db w'.db)
    (locks : ∀ κ, w'.locks κ = some j ↔ w.locks κ = some j) {x : Thread D W K X C E α} (h : Ordered o R w j x) :
    Ordered o R w' j x := by
  cases x with
  | running p pending =>
    obtain ⟨held,own,climbs⟩ := h
    exact ⟨held,fun κ => (locks κ).trans (own κ),climbsLater (R := R) trans (fun _ _ _ _ _ _ h => h) r climbs⟩
  | finished result => exact fun κ held => h κ ((locks κ).mp held)

theorem moveClimbing (refl : ∀ d, R d d) (trans : ∀ {a b c}, R a b → R b c → R a c) {m : Nat × Env C}
    (r : R s.world.db (s.step m).world.db) (h : Climbing o R s) : Climbing o R (s.step m) := by
  unfold State.step at r ⊢
  split
  case h_2 => exact h
  rename_i p pending at_
  simp only [at_] at r
  split
  case h_2 => exact h
  rename_i w' x moved
  simp only [moved] at r
  obtain ⟨own,others⟩ := stepOrdered refl moved (h.threads _ _ at_)
  refine ⟨fun j y found => ?_,fun j found => ?_⟩ <;> dsimp only at found <;> split at found
  · rename_i same; subst same; cases found; exact own
  · rename_i other; exact orderedLater (R := R) trans r (others j other) (h.threads j y found)
  · contradiction
  · rename_i other; exact fun κ held => h.absent j found κ ((others j other κ).mp held)

theorem runClimbing (refl : ∀ d, R d d) (trans : ∀ {a b c}, R a b → R b c → R a c) {moves : List (Nat × Env C)}
    (within : Within (fun w w' => R w.db w'.db) s moves) (h : Climbing o R s) : Climbing o R (s.run moves) := by
  induction moves generalizing s with
  | nil => exact h
  | cons m rest ih => exact ih within.2 (moveClimbing refl trans within.1 h)

end Pool

section Deadlock
variable {o : Hierarchy D K} {R : D → D → Prop} {s : State D W K X C E α}

open Classical in
noncomputable def Hierarchy.weight (o : Hierarchy D K) (held : List K) (κ : K) : Nat :=
  2 * o.rank κ + if ∀ h ∈ held, o.rank h < o.rank κ then 0 else 1

omit [Backend D W K E] [DecidableEq K] in
theorem weightBound (held : List K) (κ : K) : o.weight held κ ≤ 2 * o.top + 1 := by
  have := o.bounded κ
  unfold Hierarchy.weight
  split <;> omega

omit [DecidableEq K] in
theorem wantsOrder (refl : ∀ d, R d d) {w : World D W K X} {held : List K} {pending : List W} {κ : K}
    {p : Prog D W K X C E α} (climbs : Climbs o R (fun _ _ _ _ => True) p held pending w.db)
    (wants : Wants w pending κ p) : o.inOrder w.db held κ := by
  cases p with
  | lock query key next =>
    have here := climbs w.db (refl _)
    obtain ⟨row,found,rfl⟩ := Option.map_eq_some_iff.mp wants
    rw [found] at here
    exact here.1
  | write x next => exact (climbs w.db (refl _)).1 κ wants
  | _ => exact wants.elim

omit [Backend D W K E] [DecidableEq K] in
theorem weightGrows {d : D} {w : World D W K X} {i j : Nat} {held held' : List K} {κ κ' : K}
    (own : ∀ k, w.locks k = some i ↔ k ∈ held) (own' : ∀ k, w.locks k = some j ↔ k ∈ held') (apart : j ≠ i)
    (first : o.inOrder d held κ) (second : o.inOrder d held' κ') (taken : w.locks κ = some j)
    (free : κ' ∉ held') : o.weight held κ < o.weight held' κ' := by
  have inside : κ ∈ held' := (own' κ).mp taken
  have outside : κ ∉ held := fun mem => apart (Option.some.inj (taken.symm.trans ((own κ).mpr mem)))
  have above {a b : Nat} (h : o.rank κ < o.rank κ') (ha : a ≤ 1) : 2 * o.rank κ + a < 2 * o.rank κ' + b := by omega
  rcases second with mem | below | ⟨g,guard,guards,same⟩
  · exact absurd mem free
  · unfold Hierarchy.weight
    exact above (below κ inside) (by split <;> decide)
  · rcases same κ inside with below | ⟨level,ours⟩
    · unfold Hierarchy.weight
      exact above below (by split <;> decide)
    -- both rows have one guard, which only one of the two clients can hold
    have lower : ∀ h ∈ held, o.rank h < o.rank κ := by
      rcases first with mem | below | ⟨g',guard',guards',_⟩
      · exact absurd mem outside
      · exact below
      · cases Option.some.inj (guards'.symm.trans ours)
        exact absurd (Option.some.inj (((own' g).mpr guard).symm.trans ((own g).mpr guard'))) apart
    have upper : ¬ ∀ h ∈ held', o.rank h < o.rank κ' := fun all => absurd (all κ inside) (by omega)
    unfold Hierarchy.weight
    rw [if_pos lower,if_neg upper]
    omega

structure Waiting (o : Hierarchy D K) (s : State D W K X C E α) (i j v : Nat) : Prop where
  waits : WaitsFor s i j
  height : ∃ held κ, (∀ k, s.world.locks k = some i ↔ k ∈ held) ∧ o.inOrder s.world.db held κ ∧
    s.world.locks κ = some j ∧ v = o.weight held κ

theorem runningMoves (refl : ∀ d, R d d) (h : Climbing o R s) {i : Nat} {p : Prog D W K X C E α} {pending : List W}
    (here : s.pool i = some (.running p pending)) : Movable s i ∨ ∃ j v, Waiting o s i j v := by
  by_cases moves : ∀ env, (step i env s.world p pending).isSome
  · exact .inl ⟨p,pending,here,moves⟩
  simp only [not_forall,Option.not_isSome_iff_eq_none] at moves
  obtain ⟨env,stuck⟩ := moves
  obtain ⟨κ,j,wants,taken,other⟩ := stuckWants stuck
  obtain ⟨held,own,climbs⟩ := h.threads i _ here
  exact .inr ⟨j,_,⟨p,pending,κ,here,wants,taken,other⟩,held,κ,own,wantsOrder refl climbs wants,taken,rfl⟩

theorem waitingMoves (refl : ∀ d, R d d) (h : Climbing o R s) {i j v : Nat} (waiting : Waiting o s i j v) :
    Movable s j ∨ ∃ k v', v < v' ∧ Waiting o s j k v' := by
  obtain ⟨⟨_,_,_,_,_,_,apart⟩,held,κ,own,order,taken,rfl⟩ := waiting
  cases thread : s.pool j with
  | none => exact absurd taken (h.absent j thread κ)
  | some y =>
    cases y with
    | finished result => exact absurd taken (h.threads j _ thread κ)
    | running q pending =>
      refine (runningMoves refl h thread).imp_right fun ⟨k,v',waiting'⟩ => ⟨k,v',?_,waiting'⟩
      obtain ⟨⟨_,_,_,_,_,_,apart'⟩,held',κ',own',order',taken',rfl⟩ := waiting'
      refine weightGrows own own' apart order order' taken fun mem => apart' ?_
      exact Option.some.inj (taken'.symm.trans ((own' κ').mpr mem))

theorem someMovable (refl : ∀ d, R d d) (h : Climbing o R s) {i : Nat} {p : Prog D W K X C E α} {pending : List W}
    (here : s.pool i = some (.running p pending)) : ∃ j, Relation.ReflTransGen (WaitsFor s) i j ∧ Movable s j := by
  have climb : ∀ n i j v, Waiting o s i j v → 2 * o.top + 1 < v + n →
      ∃ k, Relation.ReflTransGen (WaitsFor s) i k ∧ Movable s k := by
    intro n
    induction n with
    | zero =>
      intro i j v waiting high
      obtain ⟨held,κ,_,_,_,rfl⟩ := waiting.height
      have := weightBound (o := o) held κ
      omega
    | succ n ih =>
      intro i j v waiting high
      rcases waitingMoves refl h waiting with moves | ⟨k,v',higher,next⟩
      · exact ⟨j,.single waiting.waits,moves⟩
      · obtain ⟨last,chain,moves⟩ := ih j k v' next (by omega)
        exact ⟨last,.head waiting.waits chain,moves⟩
  rcases runningMoves refl h here with moves | ⟨j,v,waiting⟩
  · exact ⟨i,.refl,moves⟩
  · exact climb (2 * o.top + 2) i j v waiting (by omega)

end Deadlock
end LibraryApi.Program
