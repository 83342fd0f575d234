import LibraryApi.ProgramRules

/-! What a client may rely on, and the two soundness theorems of `wp`. A row lock
is the only protection there is: of everything else another client may have
changed any part between two awaits. -/
namespace LibraryApi.Program

variable {D W K X C E α : Type} [Backend D W K E]

structure Frame (i : Nat) (w w' : World D W K X) : Prop where
  locks : ∀ κ, w.locks κ = some i → w'.locks κ = some i ∧ Backend.Same W κ w.db w'.db
  history : ∃ later, w'.history = later ++ w.history ∧ (∀ c ∈ later, c.client ≠ i) ∧
    w'.db = stateAfter w.db later ∧ clockAfter w.clock later ≤ w'.clock
  clock : w.clock ≤ w'.clock

structure Quiet (i : Nat) (w w' : World D W K X) : Prop where
  db : w'.db = w.db
  history : w'.history = w.history
  locks : ∀ κ, w.locks κ = some i → w'.locks κ = some i
  clock : w.clock ≤ w'.clock

theorem Frame.trans {i} {a b c : World D W K X} (left : Frame i a b) (right : Frame i b c) :
    Frame i a c := by
  obtain ⟨l,hl,ol,dl,tl⟩ := left.history
  obtain ⟨r,hr,or,dr,tr⟩ := right.history
  refine ⟨fun κ held => ?_,⟨r ++ l,by rw [hr,hl,List.append_assoc],?_,?_,?_⟩,
    Int.le_trans left.clock right.clock⟩
  · have mid := left.locks κ held
    have last := right.locks κ mid.1
    exact ⟨last.1,Backend.sameTrans mid.2 last.2⟩
  · intro c mem
    rcases List.mem_append.mp mem with h | h
    · exact or c h
    · exact ol c h
  · rw [stateAfterAppend,← dl,← dr]
  · rw [clockAfterAppend]
    cases r with
    | nil => exact Int.le_trans tl right.clock
    | cons c rest => exact tr

theorem Frame.mine {i} {a b : World D W K X} (h : Frame i a b) :
    Program.mine i b.history = Program.mine i a.history := by
  obtain ⟨later,same,others,_⟩ := h.history
  rw [same,mineOthers others]

theorem Quiet.frame {i} {a b : World D W K X} (h : Quiet i a b) : Frame i a b :=
  ⟨fun κ held => ⟨h.locks κ held,by rw [h.db]; exact Backend.sameRefl κ _⟩,
    ⟨[],by simp [h.history],by simp,h.db,h.clock⟩,h.clock⟩

omit [Backend D W K E] in
theorem Quiet.refl (i) (w : World D W K X) : Quiet i w w := ⟨rfl,rfl,fun _ h => h,Int.le_refl _⟩

omit [Backend D W K E] in
theorem Quiet.trans {i} {a b c : World D W K X} (left : Quiet i a b) (right : Quiet i b c) :
    Quiet i a c :=
  ⟨right.db.trans left.db,right.history.trans left.history,
    fun κ h => right.locks κ (left.locks κ h),Int.le_trans left.clock right.clock⟩

omit [Backend D W K E] in
theorem Quiet.acquire [DecidableEq K] (i) (w : World D W K X) (keys : List K) : Quiet i w (w.acquire i keys) :=
  ⟨rfl,rfl,fun κ h => by simp [World.acquire,h],Int.le_refl _⟩

omit [Backend D W K E] in
theorem Quiet.now (i) (w : World D W K X) (n : Nat) : Quiet i w {w with clock := w.clock + n} :=
  ⟨rfl,rfl,fun _ h => h,Int.le_add_of_nonneg_right (Int.natCast_nonneg n)⟩

omit [Backend D W K E] in
theorem Quiet.call (i) (w : World D W K X) (x : X) : Quiet i w {w with ext := x} :=
  ⟨rfl,rfl,fun _ h => h,Int.le_refl _⟩

structure Contract.Fair (c : Contract D W K X C) : Prop where
  trans : ∀ {w₁ w₂ w₃}, c.rely w₁ w₂ → c.rely w₂ w₃ → c.rely w₁ w₃
  quiet : ∀ {w w'}, Quiet c.client w w' → c.rely w w'
  frame : ∀ {w w'}, c.rely w w' → Frame c.client w w'

def pooled (j : Nat) (G : D → D → Prop) (admits : C → Prop)
    (effect : List (Commit D W) → Commit D W → Prop) : Contract D W K X C :=
  ⟨j,fun w w' => Frame j w w' ∧ G w.db w'.db,admits,effect⟩

def still (j : Nat) (admits : C → Prop) (effect : List (Commit D W) → Commit D W → Prop) :
    Contract D W K X C :=
  ⟨j,Quiet j,admits,effect⟩

theorem pooledFair {j} {G : D → D → Prop} {admits : C → Prop}
    {effect : List (Commit D W) → Commit D W → Prop} (refl : ∀ d, G d d)
    (trans : ∀ {a b c}, G a b → G b c → G a c) :
    (pooled (K := K) (X := X) j G admits effect).Fair :=
  ⟨fun a b => ⟨a.1.trans b.1,trans a.2 b.2⟩,fun q => ⟨q.frame,by rw [q.db]; exact refl _⟩,
    fun h => h.1⟩

theorem stillFair {j} {admits : C → Prop} {effect : List (Commit D W) → Commit D W → Prop} :
    (still (K := K) (X := X) j admits effect).Fair :=
  ⟨Quiet.trans,id,Quiet.frame⟩

/-- The committed histories the effects allow, from the database `d` at time `t`. -/
inductive Path (effect : List (Commit D W) → Commit D W → Prop) (d : D) (t : Int) :
    List (Commit D W) → Prop where
  | start : Path effect d t []
  | commit {c h} (rest : Path effect d t h) (before : c.before = stateAfter d h)
      (ran : execAll c.writes c.before = .ok c.after) (clock : clockAfter t h ≤ c.clock)
      (allowed : effect h c) : Path effect d t (c :: h)

theorem Path.mono {effect effect' : List (Commit D W) → Commit D W → Prop} {d : D} {t : Int}
    (sub : ∀ h c, effect h c → effect' h c) {h : List (Commit D W)} (p : Path effect d t h) :
    Path effect' d t h := by
  induction p with
  | start => exact .start
  | commit rest before ran clock allowed ih => exact .commit ih before ran clock (sub _ _ allowed)

theorem Path.suffix {effect : List (Commit D W) → Commit D W → Prop} {d : D} {t : Int}
    {later h : List (Commit D W)} (p : Path effect d t (later ++ h)) : Path effect d t h := by
  induction later with
  | nil => exact p
  | cons c rest ih => cases p with | commit before => exact ih before

theorem pathUpTo {effect : List (Commit D W) → Commit D W → Prop} {d : D} {t : Int}
    {h : List (Commit D W)} {m : Commit D W} (path : Path effect d t h) (mem : m ∈ h) :
    ∃ rest, Path effect d t (m :: rest) ∧ ∀ c ∈ m :: rest, c ∈ h := by
  induction path with
  | start => contradiction
  | @commit c h rest before ran clock allowed ih =>
    rcases List.mem_cons.mp mem with rfl | inside
    · exact ⟨h,.commit rest before ran clock allowed,fun _ x => x⟩
    · obtain ⟨rest',path,sub⟩ := ih inside
      exact ⟨rest',path,fun x hx => List.mem_cons_of_mem _ (sub x hx)⟩

theorem pathSince {effect : List (Commit D W) → Commit D W → Prop} {d : D} {t : Int} {R : D → D → Prop} {calm : Commit D W → Prop}
    (refl : ∀ d, R d d) (trans : ∀ {a b c}, R a b → R b c → R a c)
    (kept : ∀ {m h}, Path effect d t (m :: h) → calm m → R m.before m.after) {since looked : List (Commit D W)}
    (path : Path effect d t (since ++ looked)) (quiet : ∀ m ∈ since, calm m) :
    R (stateAfter d looked) (stateAfter d (since ++ looked)) := by
  induction since with
  | nil => exact refl _
  | cons m rest ih =>
    have here := kept path (quiet m List.mem_cons_self)
    cases path with
    | commit path before =>
      rw [before] at here
      exact trans (ih path fun c mem => quiet c (List.mem_cons_of_mem _ mem)) here

theorem pathIff {effect : List (Commit D W) → Commit D W → Prop} {d : D} {t : Int} {I : D → Prop}
    {check : Commit D W → Prop} (start : I d)
    (step : ∀ {h m}, Path effect d t (m :: h) → I m.before → (I m.after ↔ check m))
    {h : List (Commit D W)} (path : Path effect d t h) :
    ((∀ m ∈ h, I m.after) ↔ ∀ m ∈ h, check m) ∧ ((∀ m ∈ h, check m) → I (stateAfter d h)) := by
  induction path with
  | start => exact ⟨iff_of_true nofun nofun,fun _ => start⟩
  | @commit m h rest before ran clock allowed ih =>
    obtain ⟨earlier,last⟩ := ih
    rw [← before] at last
    have here (old : ∀ m ∈ h, check m) : I m.after ↔ check m :=
      step (.commit rest before ran clock allowed) (last old)
    rw [List.forall_mem_cons,List.forall_mem_cons]
    refine ⟨⟨fun ⟨now,old⟩ => ?_,fun ⟨now,old⟩ => ⟨(here old).mpr now,earlier.mpr old⟩⟩,
      fun ⟨now,old⟩ => (here old).mpr now⟩
    have passed := earlier.mp old
    exact ⟨(here passed).mp now,passed⟩

theorem firstCommit {effect : List (Commit D W) → Commit D W → Prop} {d : D} {t : Int} {j : Nat}
    {later h : List (Commit D W)} {m : Commit D W} (path : Path effect d t h)
    (own : mine j h = later ++ [m]) : ∃ after rest, h = after ++ m :: rest ∧ m.client = j ∧
      mine j rest = [] ∧ Path effect d t (m :: rest) := by
  induction path generalizing later with
  | start => simp at own
  | @commit c h rest before ran clock allowed ih =>
    rw [mineCons] at own
    split at own
    · rename_i client
      cases later with
      | nil =>
        obtain ⟨rfl,none⟩ := List.cons.inj own
        exact ⟨[],h,rfl,client,none,.commit rest before ran clock allowed⟩
      | cons x xs =>
        obtain ⟨after,rest',rfl,facts⟩ := ih (List.cons.inj own).2
        exact ⟨c :: after,rest',rfl,facts⟩
    · obtain ⟨after,rest',rfl,facts⟩ := ih own
      exact ⟨c :: after,rest',rfl,facts⟩

/-- `P` was there at some moment of the history, from its start up to the instant; another
client may have changed that state since. -/
def seenIn (d : D) (t : Int) (h : List (Commit D W)) (clock : Int) (P : D → Int → Prop) : Prop :=
  ∃ later h₀ t₀, h = later ++ h₀ ∧ clockAfter t h₀ ≤ t₀ ∧ t₀ ≤ clock ∧ P (stateAfter d h₀) t₀

def seenLast (d : D) (t : Int) (h : List (Commit D W)) (clock : Int) (P : D → Int → Prop) : Prop :=
  ∃ t₀, clockAfter t h ≤ t₀ ∧ t₀ ≤ clock ∧ P (stateAfter d h) t₀

theorem seenSince {d : D} {t clock : Int} {h : List (Commit D W)} {P : D → Int → Prop} {j : Nat} (first : mine j h = [])
    (seen : seenIn d t h clock P) : ∃ since looked t₀, h = since ++ looked ∧ (∀ c ∈ since, c.client ≠ j) ∧
      P (stateAfter d looked) t₀ := by
  obtain ⟨since,looked,t₀,rfl,_,_,held⟩ := seen
  refine ⟨since,looked,t₀,rfl,fun c mem own => ?_,held⟩
  have inside : c ∈ mine j (since ++ looked) := List.mem_filter.mpr ⟨List.mem_append_left _ mem,by simp [own]⟩
  rw [first] at inside
  exact absurd inside List.not_mem_nil

def Witnessed (c : Contract D W K X C) (w : World D W K X)
    (seen : List (Commit D W) → Int → (D → Int → Prop) → Prop) : Prop :=
  ∀ w₁ w₂ (P : D → Int → Prop), c.rely w w₁ → c.rely w₁ w₂ → P w₁.db w₁.clock →
    seen w₂.history w₂.clock P

structure Rooted (d : D) (t : Int) (w : World D W K X) : Prop where
  db : w.db = stateAfter d w.history
  clock : clockAfter t w.history ≤ w.clock

theorem freshRooted {w : World D W K X} (fresh : w.history = []) : Rooted w.db w.clock w := by
  refine ⟨?_,?_⟩ <;> rw [fresh]
  · rfl
  · exact Int.le_refl _

theorem frameRooted {i d t} {w w' : World D W K X} (root : Rooted d t w) (f : Frame i w w') :
    Rooted d t w' := by
  obtain ⟨later,same,_,hd,ht⟩ := f.history
  refine ⟨by rw [same,stateAfterAppend,← root.db,hd],?_⟩
  rw [same,clockAfterAppend]
  cases later with
  | nil => exact Int.le_trans root.clock f.clock
  | cons c rest => exact ht

theorem pooledWitnessed {j d t} {G : D → D → Prop} {admits : C → Prop}
    {effect : List (Commit D W) → Commit D W → Prop} {w : World D W K X} (root : Rooted d t w) :
    Witnessed (pooled j G admits effect) w (seenIn d t) := by
  intro w₁ w₂ P r₁ r₂ held
  have root₁ := frameRooted root r₁.1
  obtain ⟨later,same,_⟩ := r₂.1.history
  exact ⟨later,w₁.history,w₁.clock,same,root₁.clock,r₂.1.clock,root₁.db ▸ held⟩

theorem stillWitnessed {j d t} {admits : C → Prop}
    {effect : List (Commit D W) → Commit D W → Prop} {w : World D W K X} (root : Rooted d t w) :
    Witnessed (still j admits effect) w (seenLast d t) := by
  intro w₁ w₂ P r₁ r₂ held
  have root₁ : Rooted d t w₁ := by
    refine ⟨by rw [r₁.db,r₁.history]; exact root.db,?_⟩
    rw [r₁.history]; exact Int.le_trans root.clock r₁.clock
  refine ⟨w₁.clock,?_,r₂.clock,?_⟩
  · rw [r₂.history]; exact root₁.clock
  · rw [r₂.history]; exact root₁.db ▸ held

def Owns (i : Nat) (pending : List W) (w : World D W K X) : Prop :=
  ∀ x ∈ pending, ∀ κ ∈ Backend.keys D x, w.locks κ = some i

theorem releaseOthers {i j : Nat} (other : j ≠ i) (w : World D W K X) : Frame j w (w.release i) :=
  ⟨fun κ held => ⟨by simp [World.release,held,other],Backend.sameRefl κ _⟩,
    ⟨[],by simp [World.release],by simp,rfl,Int.le_refl _⟩,Int.le_refl _⟩

theorem recordOthers {i j : Nat} (other : j ≠ i) {w : World D W K X} {pending : List W} {d : D}
    (owns : Owns i pending w) (ran : execAll pending w.db = .ok d) :
    Frame j w (w.record i pending d) := by
  refine ⟨fun κ held => ⟨by simp [World.record,World.release,held,other],?_⟩,
    ⟨[⟨i,w.db,pending,d,w.clock⟩],rfl,by simp [Ne.symm other],rfl,Int.le_refl _⟩,Int.le_refl _⟩
  refine execAllSame ran fun x hx mem => ?_
  have own := owns x hx κ mem
  rw [held] at own
  exact other (Option.some.inj own)

variable [DecidableEq K]

theorem acquireOthers {i j : Nat} (other : j ≠ i) {w : World D W K X} {keys : List K}
    (free : ∀ κ ∈ keys, w.free i κ) : Frame j w (w.acquire i keys) := by
  refine ⟨fun κ held => ⟨?_,Backend.sameRefl κ _⟩,
    ⟨[],by simp [World.acquire],by simp,rfl,Int.le_refl _⟩,Int.le_refl _⟩
  have outside : κ ∉ keys := by
    intro mem
    rcases free κ mem with h | h <;> rw [held] at h
    · contradiction
    · exact other (Option.some.inj h)
  simp [World.acquire,outside,held]

section Thread
variable {c : Contract D W K X C} {ok : α → List (Commit D W) → Prop}
  {err : E → List (Commit D W) → Prop}

def Keeps (c : Contract D W K X C) (ok : α → List (Commit D W) → Prop)
    (err : E → List (Commit D W) → Prop) (p : Prog D W K X C E α) (pending : List W)
    (w : World D W K X) : Prop :=
  wp c (fun a _ w => ok a (mine c.client w.history))
    (fun e w => err e (mine c.client w.history)) p pending w

theorem keepsUnderRely (fair : c.Fair) {p : Prog D W K X C E α} {pending : List W}
    {w w' : World D W K X} (r : c.rely w w') (h : Keeps c ok err p pending w) :
    Keeps c ok err p pending w' := by
  unfold Keeps at h ⊢
  cases p with
  | pure a => simpa only [wp,(fair.frame r).mine] using h
  | raise e => simpa only [wp,(fair.frame r).mine] using h
  | select query next => exact fun w₁ r₁ => h w₁ (fair.trans r r₁)
  | lock query key next => exact fun w₁ r₁ => h w₁ (fair.trans r r₁)
  | write statement next => exact fun w₁ r₁ => h w₁ (fair.trans r r₁)
  | commit next => exact fun w₁ r₁ => h w₁ (fair.trans r r₁)
  | now next => exact fun w₁ r₁ => h w₁ (fair.trans r r₁)
  | call act next => exact fun w₁ r₁ => h w₁ (fair.trans r r₁)

def Sound (c : Contract D W K X C) (ok : α → List (Commit D W) → Prop)
    (err : E → List (Commit D W) → Prop) (w : World D W K X) : Thread D W K X C E α → Prop
  | .running p pending => Owns c.client pending w ∧ Keeps c ok err p pending w
  | .finished (.ok a) => ok a (mine c.client w.history)
  | .finished (.error e) => err e (mine c.client w.history)

theorem soundUnderRely (fair : c.Fair) {w w' : World D W K X} (r : c.rely w w')
    {t : Thread D W K X C E α} (h : Sound c ok err w t) : Sound c ok err w' t := by
  cases t with
  | running p pending =>
    exact ⟨fun x hx κ hκ => ((fair.frame r).locks κ (h.1 x hx κ hκ)).1,keepsUnderRely fair r h.2⟩
  | finished result =>
    cases result <;> simpa only [Sound,(fair.frame r).mine] using h

structure Advanced (i : Nat) (effect : List (Commit D W) → Commit D W → Prop)
    (w w' : World D W K X) : Prop where
  others : ∀ j, j ≠ i → Frame j w w'
  kept : (w'.db = w.db ∧ w'.history = w.history) ∨ ∃ m : Commit D W, m.client = i ∧
    m.before = w.db ∧ m.after = w'.db ∧ m.clock = w.clock ∧
    execAll m.writes m.before = .ok m.after ∧ w'.history = m :: w.history ∧ effect w.history m
  clock : w.clock ≤ w'.clock

omit [DecidableEq K] in
theorem quietAdvanced {w w' : World D W K X} (q : Quiet c.client w w')
    (others : ∀ j, j ≠ c.client → Frame j w w') : Advanced c.client c.effect w w' :=
  ⟨others,.inl ⟨q.db,q.history⟩,q.clock⟩

omit [DecidableEq K] in
theorem releaseAdvanced (w : World D W K X) : Advanced c.client c.effect w (w.release c.client) :=
  ⟨fun _ other => releaseOthers other w,.inl ⟨rfl,rfl⟩,Int.le_refl _⟩

theorem stepSound (fair : c.Fair) {env : Env C} (admitted : c.admits env.answer)
    {w w' : World D W K X} {p : Prog D W K X C E α} {pending : List W}
    {t : Thread D W K X C E α} (moved : step c.client env w p pending = some (w',t))
    (owns : Owns c.client pending w) (h : Keeps c ok err p pending w) :
    Advanced c.client c.effect w w' ∧ Sound c ok err w' t := by
  have idle := fair.quiet (Quiet.refl c.client w)
  unfold Keeps at h
  cases p with
  | pure a => cases moved; exact ⟨releaseAdvanced w,h⟩
  | raise e => cases moved; exact ⟨releaseAdvanced w,h⟩
  | select query next =>
    cases moved
    exact ⟨quietAdvanced (Quiet.refl _ w) fun j _ => (Quiet.refl j w).frame,owns,h w idle⟩
  | lock query key next =>
    have here := h w idle
    simp only [step] at moved
    split at moved <;> rename_i found <;> simp only [found] at here
    · cases moved
      exact ⟨quietAdvanced (Quiet.refl _ w) fun j _ => (Quiet.refl j w).frame,owns,here⟩
    · split at moved <;> try contradiction
      rename_i row free
      cases moved
      have q := Quiet.acquire c.client w [key row]
      exact ⟨quietAdvanced q fun j other => acquireOthers other (by simpa using free),
        fun x hx κ hκ => q.locks κ (owns x hx κ hκ),here⟩
  | write statement next =>
    have here := h w idle
    simp only [step] at moved
    split at moved <;> try contradiction
    rename_i free
    split at moved <;> rename_i ran <;> simp only [ran] at here <;> cases moved
    · have q := Quiet.acquire c.client w (Backend.keys D statement)
      refine ⟨quietAdvanced q fun j other => acquireOthers other free,?_,here⟩
      intro x hx κ hκ
      rcases List.mem_append.mp hx with old | new
      · exact q.locks κ (owns x old κ hκ)
      · simp only [List.mem_singleton] at new
        subst new
        simp [World.acquire,hκ]
    · exact ⟨releaseAdvanced w,here⟩
  | commit next =>
    have here := h w idle
    simp only [step] at moved
    split at moved <;> rename_i ran <;> simp only [ran] at here <;> cases moved
    · exact ⟨⟨fun j other => recordOthers other owns ran,
        .inr ⟨_,rfl,rfl,rfl,rfl,ran,rfl,here.1⟩,Int.le_refl _⟩,by simp [Owns],here.2⟩
    · exact ⟨releaseAdvanced w,here⟩
  | now next =>
    cases moved
    exact ⟨quietAdvanced (Quiet.now _ w _) fun j _ => (Quiet.now j w _).frame,owns,
      h w idle env.elapsed⟩
  | call act next =>
    have here := h w idle env.answer admitted
    simp only [step] at moved
    split at moved <;> rename_i answered <;> simp only [answered] at here <;> cases moved
    · exact ⟨quietAdvanced (Quiet.call _ w _) fun j _ => (Quiet.call j w _).frame,owns,here⟩
    · exact ⟨releaseAdvanced w,here⟩

end Thread

section Pool
variable {G : D → D → Prop} {admits : C → Prop}
  {effect : Nat → List (Commit D W) → Commit D W → Prop} {ok : Nat → α → List (Commit D W) → Prop}
  {err : Nat → E → List (Commit D W) → Prop} {d : D} {t : Int}

structure Good (G : D → D → Prop) (admits : C → Prop)
    (effect : Nat → List (Commit D W) → Commit D W → Prop)
    (ok : Nat → α → List (Commit D W) → Prop) (err : Nat → E → List (Commit D W) → Prop) (d : D)
    (t : Int) (s : State D W K X C E α) : Prop where
  path : Path (fun h c => effect c.client h c) d t s.world.history
  root : Rooted d t s.world
  threads : ∀ j x, s.pool j = some x →
    Sound (pooled j G admits (effect j)) (ok j) (err j) s.world x

omit [DecidableEq K] in
theorem advancedPath {i} {w w' : World D W K X}
    (path : Path (fun h c => effect c.client h c) d t w.history) (root : Rooted d t w)
    (moved : Advanced i (effect i) w w') :
    Path (fun h c => effect c.client h c) d t w'.history ∧ Rooted d t w' := by
  rcases moved.kept with ⟨hd,hh⟩ | ⟨m,hi,hb,ha,hc,ran,hh,allowed⟩
  · rw [hh]
    exact ⟨path,by rw [hd,hh]; exact root.db,by rw [hh]; exact Int.le_trans root.clock moved.clock⟩
  · rw [hh]
    exact ⟨.commit path (hb.trans root.db) ran (hc ▸ root.clock) (by rw [hi]; exact allowed),
      by rw [hh]; exact ha.symm,by rw [hh]; exact Int.le_trans (Int.le_of_eq hc) moved.clock⟩

theorem stepGood (refl : ∀ d, G d d) (trans : ∀ {a b c}, G a b → G b c → G a c)
    (keeps : ∀ {c h}, Path (fun h c => effect c.client h c) d t (c :: h) → G c.before c.after)
    {s : State D W K X C E α} (good : Good G admits effect ok err d t s) {move : Nat × Env C}
    (admitted : admits move.2.answer) : Good G admits effect ok err d t (s.step move) := by
  unfold State.step
  split
  case h_2 => exact good
  rename_i p pending at_
  split
  case h_2 => exact good
  rename_i w' x moved
  have thread := good.threads _ _ at_
  have next := stepSound (c := pooled move.1 G admits (effect move.1)) (pooledFair refl trans)
    admitted moved thread.1 thread.2
  have after := advancedPath good.path good.root next.1
  have guaranteed : G s.world.db w'.db := by
    rcases next.1.kept with ⟨hd,_⟩ | ⟨m,_,hb,ha,_,_,hh,_⟩
    · rw [hd]; exact refl _
    · have path := after.1
      rw [hh] at path
      rw [← hb,← ha]
      exact keeps path
  refine ⟨after.1,after.2,fun j y found => ?_⟩
  dsimp only at found
  split at found
  · rename_i same; subst same; cases found; exact next.2
  · rename_i other
    exact soundUnderRely (pooledFair refl trans) ⟨next.1.others j other,guaranteed⟩
      (good.threads j y found)

theorem stepAdvanced (refl : ∀ d, G d d) (trans : ∀ {a b c}, G a b → G b c → G a c)
    {s : State D W K X C E α} (good : Good G admits effect ok err d t s) {move : Nat × Env C}
    (admitted : admits move.2.answer) : s.step move = s ∨
      Advanced move.1 (effect move.1) s.world (s.step move).world := by
  unfold State.step
  split
  case h_2 => exact .inl rfl
  rename_i p pending at_
  split
  case h_2 => exact .inl rfl
  rename_i w' x moved
  have thread := good.threads _ _ at_
  exact .inr (stepSound (c := pooled move.1 G admits (effect move.1)) (pooledFair refl trans)
    admitted moved thread.1 thread.2).1

theorem runGood (refl : ∀ d, G d d) (trans : ∀ {a b c}, G a b → G b c → G a c)
    (keeps : ∀ {c h}, Path (fun h c => effect c.client h c) d t (c :: h) → G c.before c.after)
    {s : State D W K X C E α} (good : Good G admits effect ok err d t s)
    (moves : List (Nat × Env C)) (admitted : ∀ m ∈ moves, admits m.2.answer) :
    Good G admits effect ok err d t (s.run moves) := by
  induction moves generalizing s with
  | nil => exact good
  | cons m rest ih =>
    exact ih (stepGood refl trans keeps good (admitted m (by simp)))
      fun x hx => admitted x (List.mem_cons_of_mem _ hx)

theorem startGood {w : World D W K X} {programs : Nat → Option (Prog D W K X C E α)}
    (fresh : w.history = [])
    (safe : ∀ j p, programs j = some p → Keeps (pooled j G admits (effect j)) (ok j) (err j) p [] w) :
    Good G admits effect ok err w.db w.clock (start w programs) := by
  refine ⟨by simpa [start,fresh] using .start,freshRooted fresh,fun j x found => ?_⟩
  obtain ⟨p,hp,rfl⟩ := Option.map_eq_some_iff.mp found
  exact ⟨by simp [Owns],safe j p hp⟩

theorem runIdle (refl : ∀ d, G d d) (trans : ∀ {a b c}, G a b → G b c → G a c)
    (keeps : ∀ {c h}, Path (fun h c => effect c.client h c) d t (c :: h) → G c.before c.after)
    {s : State D W K X C E α} (good : Good G admits effect ok err d t s)
    {moves : List (Nat × Env C)} (admitted : ∀ m ∈ moves, admits m.2.answer) {j : Nat}
    (others : ∀ m ∈ moves, m.1 ≠ j) :
    mine j (s.run moves).world.history = mine j s.world.history := by
  induction moves generalizing s with
  | nil => rfl
  | cons m rest ih =>
    have next := ih (stepGood refl trans keeps good (admitted m (by simp)))
      (fun x mem => admitted x (List.mem_cons_of_mem _ mem))
      fun x mem => others x (List.mem_cons_of_mem _ mem)
    refine next.trans ?_
    rcases stepAdvanced refl trans good (admitted m (by simp)) with same | moved
    · rw [same]
    · exact (moved.others j (Ne.symm (others m (by simp)))).mine

end Pool

section Moves

theorem stepOthers {s : State D W K X C E α} {move : Nat × Env C} {j : Nat} (other : move.1 ≠ j) :
    (s.step move).pool j = s.pool j := by
  unfold State.step
  split <;> try rfl
  split <;> try rfl
  exact if_neg (Ne.symm other)

theorem runOthers {s : State D W K X C E α} {moves : List (Nat × Env C)} {j : Nat}
    (others : ∀ m ∈ moves, m.1 ≠ j) : (s.run moves).pool j = s.pool j := by
  induction moves generalizing s with
  | nil => rfl
  | cons m rest ih =>
    exact (ih fun x mem => others x (List.mem_cons_of_mem _ mem)).trans (stepOthers (others m (by simp)))

end Moves

section Served
variable {c : Contract D W K X C} {ok : α → List W → World D W K X → Prop}
  {err : E → World D W K X → Prop} {effect : List (Commit D W) → Commit D W → Prop} {d : D} {t : Int}

def Ended (c : Contract D W K X C) (ok : α → List W → World D W K X → Prop)
    (err : E → World D W K X → Prop) : Except E α × World D W K X → Prop
  | (.ok a,w) => ∃ pending w', ok a pending w' ∧ w = w'.release c.client
  | (.error e,w) => ∃ w', err e w' ∧ w = w'.release c.client

structure Served (c : Contract D W K X C) (ok : α → List W → World D W K X → Prop)
    (err : E → World D W K X → Prop) (effect : List (Commit D W) → Commit D W → Prop) (d : D)
    (t : Int) (w : World D W K X) (r : Except E α × World D W K X) : Prop where
  path : Path effect d t r.2.history
  root : Rooted d t r.2
  own : ∃ later, r.2.history = later ++ w.history ∧ ∀ m ∈ later, m.client = c.client
  clock : w.clock ≤ r.2.clock
  ended : Ended c ok err r

omit [DecidableEq K] in
theorem servedFrom {w : World D W K X} {r : Except E α × World D W K X} (w' : World D W K X)
    (own : ∃ later, w'.history = later ++ w.history ∧ ∀ m ∈ later, m.client = c.client)
    (clock : w.clock ≤ w'.clock) (rest : Served c ok err effect d t w' r) :
    Served c ok err effect d t w r := by
  obtain ⟨l,hl,ol⟩ := own
  obtain ⟨m,hm,om⟩ := rest.own
  refine ⟨rest.path,rest.root,⟨m ++ l,by rw [hm,hl,List.append_assoc],?_⟩,
    Int.le_trans clock rest.clock,rest.ended⟩
  intro x mem
  rcases List.mem_append.mp mem with h | h
  · exact om x h
  · exact ol x h

omit [DecidableEq K] in
theorem servedEnd {w : World D W K X} {r : Except E α × World D W K X}
    (path : Path effect d t w.history) (root : Rooted d t w)
    (left : r.2 = w.release c.client) (ended : Ended c ok err r) :
    Served c ok err effect d t w r :=
  ⟨by rw [left]; exact path,by rw [left]; exact ⟨root.db,root.clock⟩,⟨[],by rw [left]; rfl,by simp⟩,
    by rw [left]; exact Int.le_refl _,ended⟩

omit [Backend D W K E] [DecidableEq K] in
theorem noCommit (i : Nat) (w : World D W K X) :
    ∃ later : List (Commit D W), w.history = later ++ w.history ∧ ∀ m ∈ later, m.client = i :=
  ⟨[],rfl,by simp⟩

theorem aloneSound (idle : ∀ w, c.rely w w)
    (sub : ∀ h m, m.client = c.client → c.effect h m → effect h m)
    {p : Prog D W K X C E α} {pending : List W} {w : World D W K X} {env : Nat → Env C}
    (admitted : ∀ n, c.admits (env n).answer) (path : Path effect d t w.history)
    (root : Rooted d t w) (h : wp c ok err p pending w) :
    Served c ok err effect d t w (alone c.client p pending w env) := by
  induction p generalizing pending w env with
  | pure a => exact servedEnd path root rfl ⟨_,w,h,rfl⟩
  | raise e => exact servedEnd path root rfl ⟨w,h,rfl⟩
  | select query next ih =>
    exact ih _ (fun n => admitted (n+1)) path root (h w (idle w))
  | lock query key next ih =>
    have here := h w (idle w)
    simp only [alone]
    cases found : query (view w.db pending) with
    | none =>
      simp only [found] at here
      exact ih _ (fun n => admitted (n+1)) path root here
    | some row =>
      simp only [found] at here
      exact servedFrom (w.acquire _ _) (noCommit _ w) (Int.le_refl _)
        (ih _ (fun n => admitted (n+1)) path ⟨root.db,root.clock⟩ here)
  | write statement next ih =>
    have here := h w (idle w)
    simp only [alone]
    cases ran : Backend.exec statement (view w.db pending) with
    | ok _ =>
      simp only [ran] at here
      exact servedFrom (w.acquire _ _) (noCommit _ w) (Int.le_refl _)
        (ih (fun n => admitted (n+1)) path ⟨root.db,root.clock⟩ here)
    | error e =>
      simp only [ran] at here
      exact servedEnd path root rfl ⟨w,here,rfl⟩
  | commit next ih =>
    have here := h w (idle w)
    simp only [alone]
    cases ran : execAll pending w.db with
    | ok d' =>
      simp only [ran] at here
      have longer : Path effect d t (w.record c.client pending d').history :=
        .commit path root.db ran root.clock (sub _ _ rfl here.1)
      exact servedFrom (w.record c.client pending d') ⟨[_],rfl,by simp⟩ (Int.le_refl _)
        (ih (fun n => admitted (n+1)) longer ⟨rfl,Int.le_refl _⟩ here.2)
    | error e =>
      simp only [ran] at here
      exact servedEnd path root rfl ⟨w,here,rfl⟩
  | now next ih =>
    have here := h w (idle w) (env 0).elapsed
    exact servedFrom {w with clock := w.clock + (env 0).elapsed} (noCommit _ w)
      (Quiet.now c.client w _).clock (ih _ (fun n => admitted (n+1)) path
        ⟨root.db,Int.le_trans root.clock (Quiet.now c.client w _).clock⟩ here)
  | call act next ih =>
    have here := h w (idle w) (env 0).answer (admitted 0)
    simp only [alone]
    cases answered : act (env 0).answer w.ext with
    | ok done =>
      obtain ⟨b,x⟩ := done
      simp only [answered] at here
      exact servedFrom {w with ext := x} (noCommit _ w) (Int.le_refl _)
        (ih b (fun n => admitted (n+1)) path ⟨root.db,root.clock⟩ here)
    | error e =>
      simp only [answered] at here
      exact servedEnd path root rfl ⟨w,here,rfl⟩

end Served
end LibraryApi.Program
