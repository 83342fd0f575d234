import LibraryApi.RelyRules
import LibraryApi.LoneRules

/-! What a commit of a client leaves undone. The rest of a program owes a call that
puts the other service in a state with `p`, if every way it can go comes to one before
it ends. Others may commit within `R` meanwhile. -/
namespace LibraryApi.Program

variable {D W K X C E α β : Type}

def Clears (p : X → Prop) (act : C → X → Except E (β × X)) : Prop :=
  ∀ a x b x', act a x = .ok (b,x') → p x'

def Owes (R : D → D → Prop) (admits : C → Prop) (p : X → Prop) : Prog D W K X C E α → D → Prop
  | .select query next, d => ∀ d', R d d' → Owes R admits p (next (query d')) d'
  | .now next, d => ∀ t, Owes R admits p (next t) d
  | .call act next, d => (∀ a x, admits a → ∃ b x', act a x = .ok (b,x')) ∧
      (Clears p act ∨ ∀ b, Owes R admits p (next b) d)
  | _, _ => False

def Pays [Backend D W K E] (R : D → D → Prop) (admits : C → Prop) (p : X → Prop)
    (bad : List W → Prop) : Prog D W K X C E α → List W → D → Prop
  | .pure _, _, _ => True
  | .raise _, _, _ => True
  | .select query next, pending, d =>
      ∀ d', R d d' → Pays R admits p bad (next (query (view d' pending))) pending d'
  | .lock query _ next, pending, d =>
      ∀ d', R d d' → Pays R admits p bad (next (query (view d' pending))) pending d'
  | .write statement next, pending, d => Pays R admits p bad next (pending ++ [statement]) d
  | .commit next, pending, d => ∀ d' d'', R d d' → execAll pending d' = .ok d'' → bad pending →
      Owes R admits p next d''
  | .now next, pending, d => ∀ t, Pays R admits p bad (next t) pending d
  | .call _ next, pending, d => ∀ b, Pays R admits p bad (next b) pending d

section Rules
variable {R : D → D → Prop} {admits : C → Prop} {p : X → Prop} {bad : List W → Prop} {d d' : D}
  {pending : List W}

theorem owesLater (trans : ∀ a b c, R a b → R b c → R a c) {q : Prog D W K X C E α}
    (h : Owes R admits p q d) (r : R d d') : Owes R admits p q d' := by
  induction q with
  | select query next ih => exact fun d₁ r₁ => h d₁ (trans _ _ _ r r₁)
  | now next ih => exact fun t => ih t (h t)
  | call act next ih => exact ⟨h.1,h.2.imp_right fun rest b => ih b (rest b)⟩
  | _ => exact h

theorem owesBind {q : Prog D W K X C E β} {f : β → Prog D W K X C E α} (h : Owes R admits p q d) :
    Owes R admits p (q >>= f) d := by
  show Owes R admits p (q.bind f) d
  induction q generalizing d with
  | select query next ih => exact fun d₁ r₁ => ih _ (h d₁ r₁)
  | now next ih => exact fun t => ih t (h t)
  | call act next ih => exact ⟨h.1,h.2.imp_right fun rest b => ih b (rest b)⟩
  | _ => exact h.elim

variable [Backend D W K E]

theorem paysLater (trans : ∀ a b c, R a b → R b c → R a c) {q : Prog D W K X C E α}
    (h : Pays R admits p bad q pending d) (r : R d d') : Pays R admits p bad q pending d' := by
  induction q generalizing pending with
  | pure a => trivial
  | raise e => trivial
  | select query next ih => exact fun d₁ r₁ => h d₁ (trans _ _ _ r r₁)
  | lock query key next ih => exact fun d₁ r₁ => h d₁ (trans _ _ _ r r₁)
  | write statement next ih => exact ih h
  | commit next ih => exact fun d₁ d₂ r₁ => h d₁ d₂ (trans _ _ _ r r₁)
  | now next ih => exact fun t => ih t (h t)
  | call act next ih => exact fun b => ih b (h b)

theorem paysSelect {query : D → β} {f : β → Prog D W K X C E α} :
    Pays R admits p bad (select query >>= f) pending d ↔
      ∀ d', R d d' → Pays R admits p bad (f (query (view d' pending))) pending d' := Iff.rfl

theorem paysLock {query : D → Option β} {key : β → K} {f : Option β → Prog D W K X C E α} :
    Pays R admits p bad (lock query key >>= f) pending d ↔
      ∀ d', R d d' → Pays R admits p bad (f (query (view d' pending))) pending d' := Iff.rfl

theorem paysCommit {f : Unit → Prog D W K X C E α} :
    Pays R admits p bad (commit >>= f) pending d ↔
      ∀ d' d'', R d d' → execAll pending d' = .ok d'' → bad pending → Owes R admits p (f ()) d'' := Iff.rfl

theorem paysBind {q : Prog D W K X C E β} {f : β → Prog D W K X C E α}
    (rest : ∀ b pending d, Pays R admits p bad (f b) pending d) (h : Pays R admits p bad q pending d) :
    Pays R admits p bad (q >>= f) pending d := by
  show Pays R admits p bad (q.bind f) pending d
  induction q generalizing pending d with
  | pure a => exact rest a pending d
  | raise e => trivial
  | select query next ih => exact fun d₁ r₁ => ih _ (h d₁ r₁)
  | lock query key next ih => exact fun d₁ r₁ => ih _ (h d₁ r₁)
  | write statement next ih => exact ih h
  | commit next ih => exact fun d₁ d₂ r₁ ran flushed => owesBind (h d₁ d₂ r₁ ran flushed)
  | now next ih => exact fun t => ih t (h t)
  | call act next ih => exact fun b => ih b (h b)

end Rules

section Pool
variable [Backend D W K E] [DecidableEq K] {R : D → D → Prop} {admits : C → Prop} {p : X → Prop}
  {bad : List W → Prop} {s : State D W K X C E α} {m : Nat × Env C} {i : Nat}

def Owing (R : D → D → Prop) (admits : C → Prop) (p : X → Prop) (s : State D W K X C E α) (i : Nat) : Prop :=
  ∃ q, s.pool i = some (.running q []) ∧ Owes R admits p q s.world.db

def Clearing (p : X → Prop) (s : State D W K X C E α) (i : Nat) : Prop :=
  ∃ (β : Type) (act : C → X → Except E (β × X)) (next : β → Prog D W K X C E α) (pending : List W),
    s.pool i = some (.running (.call act next) pending) ∧ Clears p act

theorem poolOther (other : m.1 ≠ i) : (s.step m).pool i = s.pool i := by
  unfold State.step
  split
  · split
    · simp [Ne.symm other]
    · rfl
  · rfl

theorem stepMoved {q : Prog D W K X C E α} {pending : List W} {w : World D W K X} {t : Thread D W K X C E α}
    (at_ : s.pool m.1 = some (.running q pending)) (moved : step m.1 m.2 s.world q pending = some (w,t)) :
    s.step m = ⟨w,fun j => if j = m.1 then some t else s.pool j⟩ := by
  unfold State.step
  rw [at_]
  simp only [moved]

theorem stepWaited {q : Prog D W K X C E α} {pending : List W} (at_ : s.pool m.1 = some (.running q pending))
    (waits : step m.1 m.2 s.world q pending = none) : s.step m = s := by
  unfold State.step
  rw [at_]
  simp only [waits]

theorem stepEnded (at_ : ∀ q pending, s.pool m.1 ≠ some (.running q pending)) : s.step m = s := by
  unfold State.step
  split
  · rename_i running; exact absurd running (at_ _ _)
  · rfl

theorem owingStep (refl : ∀ d, R d d) (trans : ∀ a b c, R a b → R b c → R a c)
    (r : R s.world.db (s.step m).world.db) (admitted : admits m.2.answer) (owing : Owing R admits p s i) :
    Owing R admits p (s.step m) i ∨ (m.1 = i ∧ Clearing p s i ∧ p (s.step m).world.ext) := by
  obtain ⟨q,at_,h⟩ := owing
  by_cases own : m.1 = i
  · subst own
    cases q with
    | select query next =>
      rw [stepMoved at_ (by rfl)]
      exact .inl ⟨_,by simp,h _ (refl _)⟩
    | now next =>
      rw [stepMoved at_ (by rfl)]
      exact .inl ⟨_,by simp only [if_true],h (s.world.clock + m.2.elapsed)⟩
    | call act next =>
      obtain ⟨b,x,answered⟩ := h.1 m.2.answer s.world.ext admitted
      rw [stepMoved (w := {s.world with ext := x}) (t := .running (next b) []) at_ (by simp [step,answered])]
      rcases h.2 with clears | rest
      · exact .inr ⟨rfl,⟨_,act,next,[],at_,clears⟩,clears _ _ _ _ answered⟩
      · exact .inl ⟨_,by simp,rest b⟩
    | _ => exact h.elim
  · exact .inl ⟨q,(poolOther own).trans at_,owesLater trans h r⟩

def Paying (R : D → D → Prop) (admits : C → Prop) (p : X → Prop) (bad : List W → Prop)
    (s : State D W K X C E α) (i : Nat) : Prop :=
  ∀ q pending, s.pool i = some (.running q pending) → Pays R admits p bad q pending s.world.db

theorem stepPays (refl : ∀ d, R d d) {env : Env C} {w w' : World D W K X} {q : Prog D W K X C E α}
    {pending : List W} {t : Thread D W K X C E α} (moved : step i env w q pending = some (w',t))
    (h : Pays R admits p bad q pending w.db) :
    (w'.history = w.history ∧ ∀ q' pending', t = .running q' pending' →
      Pays R admits p bad q' pending' w'.db) ∨ ∃ c q', c.client = i ∧
        w'.history = c :: w.history ∧ t = .running q' [] ∧ (bad c.writes → Owes R admits p q' w'.db) := by
  cases q with
  | pure a => cases moved; exact .inl ⟨rfl,by simp⟩
  | raise e => cases moved; exact .inl ⟨rfl,by simp⟩
  | select query next => cases moved; exact .inl ⟨rfl,fun _ _ same => by cases same; exact h _ (refl _)⟩
  | lock query key next =>
    have here := h _ (refl w.db)
    simp only [step] at moved
    split at moved <;> rename_i found <;> rw [found] at here
    · cases moved; exact .inl ⟨rfl,fun _ _ same => by cases same; exact here⟩
    · split at moved <;> try contradiction
      cases moved; exact .inl ⟨rfl,fun _ _ same => by cases same; exact here⟩
  | write statement next =>
    simp only [step] at moved
    split at moved <;> try contradiction
    split at moved <;> cases moved
    · exact .inl ⟨rfl,fun _ _ same => by cases same; exact h⟩
    · exact .inl ⟨rfl,by simp⟩
  | commit next =>
    simp only [step] at moved
    split at moved <;> rename_i ran <;> cases moved
    · exact .inr ⟨_,next,rfl,rfl,rfl,h _ _ (refl _) ran⟩
    · exact .inl ⟨rfl,by simp⟩
  | now next => cases moved; exact .inl ⟨rfl,fun _ _ same => by cases same; exact h _⟩
  | call act next =>
    simp only [step] at moved
    split at moved <;> cases moved
    · exact .inl ⟨rfl,fun _ _ same => by cases same; exact h _⟩
    · exact .inl ⟨rfl,by simp⟩

theorem payingStep (refl : ∀ d, R d d) (trans : ∀ a b c, R a b → R b c → R a c)
    (r : R s.world.db (s.step m).world.db) (paying : Paying R admits p bad s i) :
    ((m.1 = i → (s.step m).world.history = s.world.history) ∧ Paying R admits p bad (s.step m) i) ∨
      ∃ c : Commit D W, c.client = i ∧ m.1 = i ∧ (s.step m).world.history = c :: s.world.history ∧
        (bad c.writes → Owing R admits p (s.step m) i) := by
  by_cases own : m.1 = i
  · subst own
    by_cases at_ : ∃ q pending, s.pool m.1 = some (.running q pending)
    · obtain ⟨q,pending,at_⟩ := at_
      cases moved : step m.1 m.2 s.world q pending with
      | none => rw [stepWaited at_ moved]; exact .inl ⟨fun _ => rfl,paying⟩
      | some next =>
        obtain ⟨w,t⟩ := next
        rw [stepMoved at_ moved]
        rcases stepPays refl moved (paying q pending at_) with ⟨same,still⟩ | ⟨c,q',client,grown,rfl,owes⟩
        · refine .inl ⟨fun _ => same,fun q' pending' here => still q' pending' ?_⟩
          simpa using here
        · exact .inr ⟨c,client,rfl,grown,fun flushed => ⟨q',by simp,owes flushed⟩⟩
    · rw [stepEnded fun q pending here => at_ ⟨q,pending,here⟩]
      exact .inl ⟨fun _ => rfl,paying⟩
  · refine .inl ⟨fun same => absurd same own,fun q pending at_ => paysLater trans (paying q pending ?_) r⟩
    rw [← poolOther own]; exact at_

variable {S : X → X → Prop}

def CallsWithin (S : X → X → Prop) (s : State D W K X C E α) (i : Nat) : Prop :=
  ∀ q pending, s.pool i = some (.running q pending) → Calls S q

theorem stepCalls (refl : ∀ x, S x x) {env : Env C} {w w' : World D W K X} {q : Prog D W K X C E α}
    {pending : List W} {t : Thread D W K X C E α} (moved : step i env w q pending = some (w',t))
    (h : Calls S q) : S w.ext w'.ext ∧ ∀ q' pending', t = .running q' pending' → Calls S q' := by
  cases q with
  | pure a => cases moved; exact ⟨refl _,by simp⟩
  | raise e => cases moved; exact ⟨refl _,by simp⟩
  | select query next => cases moved; exact ⟨refl _,fun _ _ same => by cases same; exact h _⟩
  | lock query key next =>
    simp only [step] at moved
    split at moved
    · cases moved; exact ⟨refl _,fun _ _ same => by cases same; exact h _⟩
    · split at moved <;> try contradiction
      cases moved; exact ⟨refl _,fun _ _ same => by cases same; exact h _⟩
  | write statement next =>
    simp only [step] at moved
    split at moved <;> try contradiction
    split at moved <;> cases moved
    · exact ⟨refl _,fun _ _ same => by cases same; exact h⟩
    · exact ⟨refl _,by simp⟩
  | commit next =>
    simp only [step] at moved
    split at moved <;> cases moved
    · exact ⟨refl _,fun _ _ same => by cases same; exact h⟩
    · exact ⟨refl _,by simp⟩
  | now next => cases moved; exact ⟨refl _,fun _ _ same => by cases same; exact h _⟩
  | call act next =>
    simp only [step] at moved
    split at moved <;> rename_i answered <;> cases moved
    · exact ⟨h.1 _ _ _ _ answered,fun _ _ same => by cases same; exact h.2 _⟩
    · exact ⟨refl _,by simp⟩

theorem callsMove (refl : ∀ x, S x x) (within : CallsWithin S s m.1) :
    S s.world.ext (s.step m).world.ext ∧ CallsWithin S (s.step m) m.1 := by
  by_cases at_ : ∃ q pending, s.pool m.1 = some (.running q pending)
  · obtain ⟨q,pending,at_⟩ := at_
    cases moved : step m.1 m.2 s.world q pending with
    | none => rw [stepWaited at_ moved]; exact ⟨refl _,within⟩
    | some next =>
      obtain ⟨w,t⟩ := next
      obtain ⟨bound,rest⟩ := stepCalls refl moved (within q pending at_)
      rw [stepMoved at_ moved]
      refine ⟨bound,fun q' pending' here => rest q' pending' ?_⟩
      simpa using here
  · rw [stepEnded fun q pending here => at_ ⟨q,pending,here⟩]
    exact ⟨refl _,within⟩

end Pool
end LibraryApi.Program
