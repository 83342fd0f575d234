import LibraryApi.BookDebts

/-! A book in the cache while requests interleave. `get_book` stores what it has read an
await before, and a write lets the entry go some awaits after its commit: the entry is
out of date at rest only if a whole write came between a read and its refill. -/
namespace LibraryApi.StaleRefill
open Models CacheService KeyedTable Repositories Requests Effects Runs CatalogueHistory CacheRules BookDebts
open BookService (detailKey serializeBook)
open BookRepository (findById)
open BookCache (bookAnswer)
open Program (mine Path stateAfter Clearing Calls CallsWithin)

def Reading (s : State) (j : Nat) : Prop := ∃ (β : Type) (query : Database → β) (next : β → Service Response)
  (pending : List Write), s.pool j = some (.running (.select query next) pending)

def Calling (s : State) (j : Nat) : Prop := ∃ (β : Type) (act : Answer → Cache → Except ApiError (β × Cache))
  (next : β → Service Response) (pending : List Write), s.pool j = some (.running (.call act next) pending)

/-- Between the read of a `get_book` and its refill no client both commits and lets
the entry of the book go. -/
def Undisturbed (requests : Nat → Option Request) (k : String) (s : State) (moves : Moves) : Prop :=
  ∀ a j e b e' rest, moves = a ++ (j,e) :: b ++ (j,e') :: rest → requests j = some (.getBook k) →
    Reading (s.run a) j → (∀ m ∈ b, m.1 ≠ j) → Calling (s.run (a ++ (j,e) :: b)) j →
    ∀ b₁ i e₁ b₂, b = b₁ ++ (i,e₁) :: b₂ → mine i (s.run a).world.history = [] →
      mine i (s.run (a ++ (j,e) :: b₁)).world.history ≠ [] →
      ¬ Clearing (absent k) (s.run (a ++ (j,e) :: b₁)) i

section Reader
variable {k : String} {fresh fresh' told told' : Payload → Prop} {s : State} {m : Nat × Program.Env Answer}
  {j : Nat}

def storing (k : String) (payload : Payload) : Service Response := answer .read do
  set (detailKey k) payload
  return payload

def loading (k : String) : Service Response := answer .read do
  let row ← require (.notFound "Livro não encontrado") (← Program.select fun d => findById d k)
  let view := Payload.book (serializeBook row.1 row.2)
  set (detailKey k) view
  return view

abbrev BookThread := Program.Thread Database Write RowKey Cache Answer ApiError Response

inductive Reader (k : String) (fresh told : Payload → Prop) : BookThread → Prop where
  | asking : Reader k fresh told (.running (handle (.getBook k)) [])
  | loading : Reader k fresh told (.running (loading k) [])
  | storing {payload} (read : fresh payload) : Reader k fresh told (.running (storing k payload) [])
  | answering {payload} (known : told payload) : Reader k fresh told (.running (pure (.read payload)) [])
  | failing {e} : Reader k fresh told (.running (Program.raise e) [])
  | failed {e} : Reader k fresh told (.finished (.error e))
  | answered {payload} (known : told payload) : Reader k fresh told (.finished (.ok (.read payload)))

theorem readerMono (read : ∀ payload, fresh payload → fresh' payload)
    (known : ∀ payload, told payload → told' payload) {th : BookThread} (h : Reader k fresh told th) :
    Reader k fresh' told' th := by
  cases h with
  | asking => exact .asking
  | loading => exact .loading
  | storing h => exact .storing (read _ h)
  | answering h => exact .answering (known _ h)
  | failing => exact .failing
  | failed => exact .failed
  | answered h => exact .answered (known _ h)

theorem redisStep {α β : Type} {act : Cache → β × Cache} {f : β → Service α} {w : World} {env : Program.Env Answer}
    {pending : List Write} (up : redisUp env.answer) : Program.step j env w (redis act >>= f) pending =
      some ({w with ext := (act (BookCache.fresh env.answer w.ext)).2},
        .running (f (act (BookCache.fresh env.answer w.ext)).1) pending) := by
  show Program.step j env w (.call _ f) pending = _
  unfold redisUp at up
  simp only [Program.step,up,if_true]
  rfl

theorem storingStored (payload : Payload) : storing k payload =
    redis (fun x => ((),(detailKey k,payload) :: x.filter (fun e => e.1 != detailKey k))) >>= fun _ =>
      pure (.read payload) := rfl

theorem askingFound : handle (.getBook k) = redis (fun x => (x.lookup (detailKey k),x)) >>= fun cached =>
    cached.elim (loading k) fun payload => pure (.read payload) :=
  congrArg (Program.Prog.call _) (funext fun cached => by cases cached <;> rfl)

theorem readerMove (up : redisUp m.2.answer) (at_ : ∃ th, s.pool m.1 = some th ∧ Reader k fresh told th)
    (hit : ∀ payload, (detailKey k,payload) ∈ s.world.ext → told' payload)
    (read : Reading s m.1 → ∀ payload, bookAnswer s.world.db k = some payload → fresh' payload)
    (stored : ∀ payload, fresh payload → told' payload) (known : ∀ payload, told payload → told' payload) :
    (∃ th, (s.step m).pool m.1 = some th ∧ Reader k fresh' told' th) ∧
      ∀ payload, (detailKey k,payload) ∈ (s.step m).world.ext → (detailKey k,payload) ∈ s.world.ext ∨
        (Calling s m.1 ∧ fresh payload) := by
  obtain ⟨th,at_,here⟩ := at_
  cases here with
  | asking =>
    rw [askingFound] at at_
    rw [Program.stepMoved at_ (redisStep up)]
    refine ⟨⟨_,if_pos rfl,?_⟩,fun payload mem => .inl (BookCache.freshOld mem)⟩
    cases found : (BookCache.fresh m.2.answer s.world.ext).lookup (detailKey k) with
    | none => exact .loading
    | some payload =>
      have mem : (detailKey k,payload) ∈ BookCache.fresh m.2.answer s.world.ext := by
        obtain ⟨l,r,same,_⟩ := List.lookup_eq_some_iff.mp found
        simp [same]
      exact .answering (hit payload (BookCache.freshOld mem))
  | loading =>
    have reading : Reading s m.1 := ⟨_,_,_,_,at_⟩
    rw [Program.stepMoved at_ (by rfl)]
    refine ⟨⟨_,if_pos rfl,?_⟩,fun _ mem => .inl mem⟩
    have shown := read reading
    unfold bookAnswer at shown
    show Reader k fresh' told' (.running (answer .read (require _ (findById s.world.db k) >>= _)) [])
    cases found : findById s.world.db k with
    | none => exact .failing
    | some row => exact .storing (shown _ (by rw [found]; rfl))
  | storing h =>
    rw [storingStored] at at_
    rw [Program.stepMoved at_ (redisStep up)]
    refine ⟨⟨_,if_pos rfl,.answering (stored _ h)⟩,fun payload mem => ?_⟩
    rcases List.mem_cons.mp mem with same | left
    · obtain ⟨_,rfl⟩ := Prod.mk.inj same
      exact .inr ⟨⟨_,_,_,_,at_⟩,h⟩
    · exact .inl (BookCache.freshOld (List.mem_of_mem_filter left))
  | answering h =>
    rw [Program.stepMoved at_ (by rfl)]
    exact ⟨⟨_,if_pos rfl,.answered (known _ h)⟩,fun _ mem => .inl mem⟩
  | failing =>
    rw [Program.stepMoved at_ (by rfl)]
    exact ⟨⟨_,if_pos rfl,.failed⟩,fun _ mem => .inl mem⟩
  | failed =>
    rw [Program.stepEnded fun q pending running => by rw [at_] at running; simp at running]
    exact ⟨⟨_,at_,.failed⟩,fun _ mem => .inl mem⟩
  | answered h =>
    rw [Program.stepEnded fun q pending running => by rw [at_] at running; simp at running]
    exact ⟨⟨_,at_,.answered (known _ h)⟩,fun _ mem => .inl mem⟩

end Reader

section Entries
variable {requests : Nat → Option Request} {d : Database} {x : Cache} {t : Int} {a moves : Moves} {k : String}
  {m : Nat × Program.Env Answer} {i j : Nat} {payload : Payload}

def Dated (requests : Nat → Option Request) (d : Database) (x : Cache) (t : Int) (k : String) (a : Moves)
    (payload : Payload) : Prop := ∃ later h₀, (stateAt requests d x t a).world.history = later ++ h₀ ∧
  bookAnswer (stateAfter d h₀) k = some payload ∧
  ∀ c ∈ later, rewrites k c.writes = true → OwingFor k (stateAt requests d x t a) c.client

def JustRead (requests : Nat → Option Request) (d : Database) (x : Cache) (t : Int) (k : String) (a : Moves)
    (j : Nat) (payload : Payload) : Prop := ∃ a₁ e b, a = a₁ ++ (j,e) :: b ∧
  Reading (stateAt requests d x t a₁) j ∧ (∀ m ∈ b, m.1 ≠ j) ∧
  bookAnswer (stateAt requests d x t a₁).world.db k = some payload

structure Entries (requests : Nat → Option Request) (d : Database) (x : Cache) (t : Int) (k : String)
    (a : Moves) : Prop where
  dated : ∀ payload, (detailKey k,payload) ∈ (stateAt requests d x t a).world.ext →
    Dated requests d x t k a payload
  reader : ∀ j, requests j = some (.getBook k) → ∃ th, (stateAt requests d x t a).pool j = some th ∧
    Reader k (JustRead requests d x t k a j) (fun _ => True) th
  calls : ∀ i, (∃ r, requests i = some r ∧ CallsWithin (Files (filedBy r)) (stateAt requests d x t a) i) ∨
    (stateAt requests d x t a).pool i = none

theorem mineGrows {b : Moves} (none : mine i (stateAt requests d x t (a ++ b)).world.history = []) :
    mine i (stateAt requests d x t a).world.history = [] := by
  obtain ⟨later,same⟩ := historyGrows requests d x t a b
  rw [← same,mine,List.filter_append] at none
  exact (List.append_eq_nil_iff.mp none).2

theorem rewriterFirst (others : ∀ i r, requests i = some r → rewritesAuthor r = false) {later h₀ : Log}
    (path : PoolPath requests d t (later ++ h₀)) {c : Commit} (mem : c ∈ later)
    (flushed : rewrites k c.writes = true) : mine c.client h₀ = [] := by
  obtain ⟨l₁,l₂,rfl⟩ := List.append_of_mem mem
  rw [List.append_assoc,List.cons_append] at path
  cases path.suffix with
  | commit _ _ _ _ effect =>
    obtain ⟨r,sent,e⟩ := effect
    obtain ⟨first,_⟩ := rewritingFirst e (others _ r sent) flushed
    rw [mine,List.filter_append] at first
    exact (List.append_eq_nil_iff.mp first).2

theorem readDated (others : ∀ i r, requests i = some r → rewritesAuthor r = false)
    (debts : Debts requests d x t k a) {e' : Program.Env Answer} {rest : Moves}
    (undisturbed : Undisturbed requests k (stateAt requests d x t []) (a ++ (j,e') :: rest))
    (sent : requests j = some (.getBook k)) (calling : Calling (stateAt requests d x t a) j)
    (read : JustRead requests d x t k a j payload) : Dated requests d x t k a payload := by
  obtain ⟨a₁,e,b,rfl,reading,idle,answer⟩ := read
  obtain ⟨later,grown⟩ := historyGrows requests d x t a₁ ((j,e) :: b)
  have path : PoolPath requests d t (stateAt requests d x t (a₁ ++ (j,e) :: b)).world.history :=
    (poolPath d x t _).1
  have root : (stateAt requests d x t a₁).world.db = stateAfter d (stateAt requests d x t a₁).world.history :=
    (poolPath d x t a₁).2
  refine ⟨later,_,grown.symm,by rw [← root]; exact answer,fun c mem flushed => ?_⟩
  have inside : c ∈ (stateAt requests d x t (a₁ ++ (j,e) :: b)).world.history :=
    grown ▸ List.mem_append_left _ mem
  rcases debts.owing c inside flushed with owes | ⟨b',e₁,rest',same,committed,clears⟩
  · exact owes
  have fresh : mine c.client (stateAt requests d x t a₁).world.history = [] := by
    rw [← grown] at path
    exact rewriterFirst others path mem flushed
  -- the deletion lies between the read and the refill
  rcases List.append_eq_append_iff.mp same with ⟨a',rfl,split⟩ | ⟨c',rfl,_⟩
  · cases a' with
    | nil => exact absurd fresh (by simpa using committed)
    | cons head b₁ =>
      obtain ⟨rfl,rfl⟩ := List.cons.inj split
      exact absurd clears (undisturbed a₁ j e _ e' rest (by simp) sent reading idle calling b₁ c.client e₁ rest'
        rfl fresh committed)
  · exact absurd (mineGrows fresh) committed

theorem datedStep (others : ∀ i r, requests i = some r → rewritesAuthor r = false) (up : redisUp m.2.answer)
    (debts : Debts requests d x t k a) (dated : Dated requests d x t k a payload) :
    Dated requests d x t k (a ++ [m]) payload ∨ absent k (stateAt requests d x t (a ++ [m])).world.ext := by
  obtain ⟨later,h₀,split,answer,owing⟩ := dated
  by_cases gone : absent k (stateAt requests d x t (a ++ [m])).world.ext
  · exact .inr gone
  have keeps := moveKeeps requests d x t a m
  have still : ∀ c ∈ later, rewrites k c.writes = true → OwingFor k (stateAt requests d x t (a ++ [m])) c.client := by
    intro c mem flushed
    rw [atNext] at keeps gone ⊢
    rcases Program.owingStep keepsRefl keepsTrans keeps up (owing c mem flushed) with owes | ⟨_,_,absent⟩
    · exact owes
    · exact absurd absent gone
  rcases moveEffect requests d x t a m with
    ⟨_,same⟩ | ⟨c,_,_,_,grown,_⟩
  · exact .inl ⟨later,h₀,same.trans split,answer,still⟩
  · refine .inl ⟨c :: later,h₀,by rw [grown,split]; rfl,answer,fun c' mem flushed => ?_⟩
    rcases List.mem_cons.mp mem with rfl | mem
    · exact newOwes others debts grown flushed
    · exact still c' mem flushed

theorem filedOther {r : Request} (other : r ≠ .getBook k) : ¬ filedBy r (detailKey k,payload) := by
  intro filed
  by_cases detail : ∃ k', r = .getBook k'
  · obtain ⟨k',rfl⟩ := detail
    obtain ⟨same,_⟩ := filed
    exact other (congrArg _ (BookCache.detailSame same.symm))
  by_cases list : ∃ p f, r = .listBooks p f
  · obtain ⟨p,f,rfl⟩ := list
    obtain ⟨same,_⟩ := filed
    replace same : detailKey k = BookService.listKey p f := same
    exact BookCache.detailNotList k (same ▸ BookCache.listKeyOf p f)
  · exact (BookCache.filedElsewhere filed (fun k' same => detail ⟨k',same⟩)
      fun p f same => list ⟨p,f,same⟩).1 k rfl

theorem entriesStart (start : ∀ payload, (detailKey k,payload) ∈ x → bookAnswer d k = some payload) :
    Entries requests d x t k [] := by
  refine ⟨fun payload mem => ⟨[],[],rfl,start payload mem,by simp⟩,fun j sent => ⟨_,?_,.asking⟩,fun i => ?_⟩
  · rw [startPool,sent]; rfl
  · cases sent : requests i with
    | none => exact .inr (by rw [startPool,sent]; rfl)
    | some r =>
      refine .inl ⟨r,rfl,fun q pending at_ => ?_⟩
      rw [startPool,sent] at at_
      cases at_
      exact handleFiles r

theorem entriesStep (others : ∀ i r, requests i = some r → rewritesAuthor r = false) (up : redisUp m.2.answer)
    (debts : Debts requests d x t k a) {rest : Moves}
    (undisturbed : Undisturbed requests k (stateAt requests d x t []) (a ++ m :: rest))
    (entries : Entries requests d x t k a) : Entries requests d x t k (a ++ [m]) := by
  have read (reading : Reading (stateAt requests d x t a) m.1) (payload : Payload)
      (answer : bookAnswer (stateAt requests d x t a).world.db k = some payload) :
      JustRead requests d x t k (a ++ [m]) m.1 payload := ⟨a,m.2,[],rfl,reading,by simp,answer⟩
  have own (sent : requests m.1 = some (.getBook k)) := readerMove up (entries.reader m.1 sent)
    (fun _ _ => trivial) read (fun _ _ => trivial) fun _ _ => trivial
  refine ⟨fun payload mem => ?_,fun j sent => ?_,fun i => ?_⟩
  · have dated : Dated requests d x t k a payload := by
      rw [atNext] at mem
      by_cases reads : requests m.1 = some (.getBook k)
      · rcases (own reads).2 payload mem with old | ⟨calling,read⟩
        · exact entries.dated payload old
        · exact readDated others debts undisturbed reads calling read
      · rcases entries.calls m.1 with ⟨r,sent,within⟩ | idle
        · rcases (Program.callsMove (filesRefl _) within).1 _ mem with old | filed
          · exact entries.dated payload old
          · exact absurd filed (filedOther fun same => reads (same ▸ sent))
        · rw [Program.stepEnded fun q pending running => by rw [idle] at running; contradiction] at mem
          exact entries.dated payload mem
    rcases datedStep others up debts dated with dated | gone
    · exact dated
    · exact absurd rfl (gone _ mem)
  · rw [atNext]
    by_cases mover : m.1 = j
    · subst mover
      exact (own sent).1
    · obtain ⟨th,at_,here⟩ := entries.reader j sent
      refine ⟨th,(Program.poolOther mover).trans at_,readerMono (fun payload read => ?_) (fun _ _ => trivial) here⟩
      obtain ⟨a₁,e,b,rfl,reading,idle,answer⟩ := read
      refine ⟨a₁,e,b ++ [m],by simp,reading,fun m' mem => ?_,answer⟩
      rcases List.mem_append.mp mem with old | new
      · exact idle m' old
      · rw [List.mem_singleton.mp new]; exact mover
  · rw [atNext]
    by_cases mover : m.1 = i
    · subst mover
      rcases entries.calls m.1 with ⟨r,sent,within⟩ | idle
      · exact .inl ⟨r,sent,(Program.callsMove (filesRefl _) within).2⟩
      · rw [Program.stepEnded fun q pending running => by rw [idle] at running; contradiction]
        exact .inr idle
    · unfold CallsWithin
      rw [Program.poolOther mover]
      exact entries.calls i

theorem entriesAll (others : ∀ i r, requests i = some r → rewritesAuthor r = false)
    (start : ∀ payload, (detailKey k,payload) ∈ x → bookAnswer d k = some payload)
    (up : ∀ m ∈ moves, redisUp m.2.answer) (undisturbed : Undisturbed requests k (stateAt requests d x t []) moves)
    {rest : Moves} (split : moves = a ++ rest) : Debts requests d x t k a ∧ Entries requests d x t k a := by
  induction a using List.reverseRecOn generalizing rest with
  | nil => exact ⟨debtsStart,entriesStart start⟩
  | append_singleton a m ih =>
    rw [List.append_assoc,List.singleton_append] at split
    obtain ⟨debts,entries⟩ := ih split
    have here : redisUp m.2.answer := up m (by simp [split])
    exact ⟨debtsStep others here debts,entriesStep others here debts (split ▸ undisturbed) entries⟩

end Entries

section Answers
variable {requests : Nat → Option Request} {d : Database} {x : Cache} {t : Int} {a b moves : Moves} {k : String}
  {m : Nat × Program.Env Answer} {i j : Nat} {payload : Payload}

theorem answerPath (others : ∀ i r, requests i = some r → rewritesAuthor r = false) {later h₀ : Log}
    (path : PoolPath requests d t (later ++ h₀)) (still : ∀ c ∈ later, rewrites k c.writes = false)
    (answer : bookAnswer (stateAfter d h₀) k = some payload) :
    bookAnswer (stateAfter d (later ++ h₀)) k = some payload := by
  induction later with
  | nil => exact answer
  | cons c later ih =>
    rw [List.cons_append] at path
    cases path with
    | commit rest before ran _ effect =>
      obtain ⟨r,sent,e⟩ := effect
      have earlier := ih rest fun c' mem => still c' (List.mem_cons_of_mem _ mem)
      rw [← before] at earlier
      exact answerKept e ran (others _ r sent) (still c List.mem_cons_self) earlier

theorem finishedStays (done : finished (stateAt requests d x t a) i) : finished (stateAt requests d x t (a ++ b)) i := by
  obtain ⟨result,ended⟩ := done
  induction b using List.reverseRecOn with
  | nil => exact ⟨result,by rw [List.append_nil]; exact ended⟩
  | append_singleton b m ih =>
    obtain ⟨result',ended⟩ := ih
    refine ⟨result',?_⟩
    rw [← List.append_assoc,atNext]
    by_cases own : m.1 = i
    · subst own
      rw [Program.stepEnded fun q pending running => by rw [ended] at running; simp at running]
      exact ended
    · rw [Program.poolOther own]; exact ended

theorem owingRuns {s : State} (owes : OwingFor k s i) : ¬ finished s i := by
  intro ⟨result,ended⟩
  obtain ⟨q,at_,_⟩ := owes
  rw [ended] at at_
  simp at at_

def Told (requests : Nat → Option Request) (d : Database) (x : Cache) (t : Int) (k : String) (a b : Moves)
    (payload : Payload) : Prop := ∃ later h₀, (stateAt requests d x t (a ++ b)).world.history = later ++ h₀ ∧
  bookAnswer (stateAfter d h₀) k = some payload ∧
  ∀ c ∈ later, rewrites k c.writes = true → ¬ finished (stateAt requests d x t a) c.client

theorem toldStep (told : Told requests d x t k a b payload) : Told requests d x t k a (b ++ [m]) payload := by
  obtain ⟨later,h₀,split,answer,busy⟩ := told
  unfold Told
  rw [← List.append_assoc]
  rcases moveEffect requests d x t (a ++ b) m with
    ⟨_,same⟩ | ⟨c,_,client,_,grown,_⟩
  · exact ⟨later,h₀,same.trans split,answer,busy⟩
  · refine ⟨c :: later,h₀,by rw [grown,split]; rfl,answer,fun c' mem flushed => ?_⟩
    rcases List.mem_cons.mp mem with rfl | mem
    · intro done
      rw [client] at done
      obtain ⟨result,ended⟩ := finishedStays (b := b) done
      have idle : (stateAt requests d x t (a ++ b)).step m = stateAt requests d x t (a ++ b) :=
        Program.stepEnded fun q pending running => by rw [ended] at running; simp at running
      rw [atNext,idle] at grown
      exact absurd grown.symm (List.cons_ne_self _ _)
    · exact busy c' mem flushed

theorem readerTold (sent : requests j = some (.getBook k)) (up : ∀ m ∈ b, redisUp m.2.answer)
    (entries : ∀ b' rest, b = b' ++ rest → Entries requests d x t k (a ++ b'))
    (start : ∃ th, (stateAt requests d x t a).pool j = some th ∧ Reader k (fun _ => False) (fun _ => False) th) :
    ∃ th, (stateAt requests d x t (a ++ b)).pool j = some th ∧
      Reader k (Told requests d x t k a b) (Told requests d x t k a b) th := by
  induction b using List.reverseRecOn with
  | nil =>
    obtain ⟨th,at_,here⟩ := start
    exact ⟨th,by rw [List.append_nil]; exact at_,readerMono (fun _ h => h.elim) (fun _ h => h.elim) here⟩
  | append_singleton b m ih =>
    have before := ih (fun m mem => up m (by simp [mem])) fun b' rest split => entries b' (rest ++ [m]) (by simp [split])
    have now : Entries requests d x t k (a ++ b) := entries b [m] rfl
    rw [← List.append_assoc,atNext]
    by_cases own : m.1 = j
    · subst own
      refine (readerMove (up m (by simp)) before (fun payload mem => ?_) (fun _ payload answer => ?_)
        (fun _ => toldStep) fun _ => toldStep).1
      · obtain ⟨later,h₀,split,answer,owing⟩ := now.dated payload mem
        exact toldStep ⟨later,h₀,split,answer,fun c mem flushed done =>
          owingRuns (owing c mem flushed) (finishedStays done)⟩
      · have root : (stateAt requests d x t (a ++ b)).world.db =
            stateAfter d (stateAt requests d x t (a ++ b)).world.history := (poolPath d x t _).2
        exact toldStep ⟨[],_,rfl,by rw [← root]; exact answer,by simp⟩
    · obtain ⟨th,at_,here⟩ := before
      exact ⟨th,(Program.poolOther own).trans at_,readerMono (fun _ => toldStep) (fun _ => toldStep) here⟩

theorem asksStill (sent : requests j = some (.getBook k)) (idle : ∀ m ∈ a, m.1 ≠ j) :
    (stateAt requests d x t a).pool j = some (.running (handle (.getBook k)) []) := by
  induction a using List.reverseRecOn with
  | nil => rw [startPool,sent]; rfl
  | append_singleton a m ih =>
    rw [atNext,Program.poolOther (idle m (by simp))]
    exact ih fun m mem => idle m (by simp [mem])

end Answers

def answerOf (s : State) (j : Nat) : Option Response := match s.pool j with
  | some (.finished (.ok answer)) => some answer
  | _ => none

theorem answerOfReader {s : State} {j : Nat} {k : String} {fresh told : Payload → Prop} {payload : Payload}
    {th : BookThread} (at_ : s.pool j = some th) (here : Reader k fresh told th)
    (answered : answerOf s j = some (.read payload)) : told payload := by
  unfold answerOf at answered
  rw [at_] at answered
  cases here with
  | answered known => cases answered; exact known
  | _ => contradiction

/-- In a run with Redis up in which no request both commits and lets the entry of the
book go between a `get_book`'s read and its refill, the entry is right whenever no
request is in flight, and who asks after a write was answered never gets the row from
before it. -/
theorem noStaleRefill (requests : Nat → Option Request) (d : Database) (x : Cache) (t : Int) (moves : Moves)
    (k : String) (start : ∀ payload, (detailKey k,payload) ∈ x → bookAnswer d k = some payload)
    (others : ∀ i r, requests i = some r → rewritesAuthor r = false)
    (up : ∀ m ∈ moves, m.2.answer.redisUp = true)
    (undisturbed : Undisturbed requests k (begin (settled d x t) requests) moves) (a b : Moves)
    (split : moves = a ++ b) :
    let s := (begin (settled d x t) requests).run a
    let last := (begin (settled d x t) requests).run moves
    ((∀ i r, requests i = some r → finished s i) → ∀ payload, (detailKey k,payload) ∈ s.world.ext →
      bookAnswer s.world.db k = some payload) ∧
    ∀ j payload, requests j = some (.getBook k) → (∀ m ∈ a, m.1 ≠ j) → answerOf last j = some (.read payload) →
      ∃ later h₀, last.world.history = later ++ h₀ ∧ bookAnswer (stateAfter d h₀) k = some payload ∧
        ∀ c ∈ later, finished s c.client → rewrites k c.writes = false := by
  intro s last
  refine ⟨fun rest payload mem => ?_,fun j payload sent idle answered => ?_⟩
  · obtain ⟨later,h₀,grown,answer,owing⟩ := (entriesAll others start up undisturbed split).2.dated payload mem
    obtain ⟨path,root⟩ : PoolPath requests d t s.world.history ∧ _ := poolPath d x t a
    replace grown : s.world.history = later ++ h₀ := grown
    rw [grown] at path
    show bookAnswer s.world.db k = some payload
    rw [show s.world.db = stateAfter d s.world.history from root,grown]
    refine answerPath others path (fun c mem => Bool.eq_false_iff.mpr fun flushed => ?_) answer
    obtain ⟨rest',tail,_⟩ := Program.pathUpTo path (List.mem_append_left _ mem)
    cases tail with
    | commit _ _ _ _ effect =>
      obtain ⟨r,sent,_⟩ := effect
      exact owingRuns (owing c mem flushed) (rest _ r sent)
  · subst split
    have told := readerTold (a := a) (b := b) sent (fun m mem => up m (by simp [mem]))
      (fun b' rest same => (entriesAll others start up undisturbed (same ▸ (List.append_assoc a b' rest).symm)).2)
      ⟨_,asksStill sent idle,.asking⟩
    obtain ⟨th,at_,here⟩ := told
    obtain ⟨later,h₀,grown,answer,busy⟩ := answerOfReader at_ here answered
    exact ⟨later,h₀,grown,answer,fun c mem done => Bool.eq_false_iff.mpr fun flushed => busy c mem flushed done⟩

theorem inOrderUndisturbed {requests : Nat → Option Request} {k : String} {s : State} {moves : Moves}
    (order : (moves.map Prod.fst).Pairwise (· ≤ ·)) : Undisturbed requests k s moves := by
  intro a j e b e' rest split _ _ idle _ b₁ i e₁ b₂ inside _ _ _
  subst split inside
  simp only [List.map_append,List.map_cons,List.append_assoc,List.cons_append,List.pairwise_append,
    List.pairwise_cons] at order
  have low : j ≤ i := order.2.1.1 i (by simp)
  have high : i ≤ j := order.2.1.2.2.1.1 j (by simp)
  exact idle (i,e₁) (by simp) (Nat.le_antisymm high low)
def lendAndLook (j : Nat) : Option Request :=
  if j = 0 then some (.createLoan ⟨(sampleId 2).text,(sampleId 3).text⟩)
  else if j < 3 then some (.getBook (sampleId 3).text) else none

theorem lendAndLookOthers (j : Nat) (r : Request) (sent : lendAndLook j = some r) : rewritesAuthor r = false := by
  unfold lendAndLook at sent
  split at sent
  · cases sent; rfl
  · split at sent <;> cases sent; rfl

def lentFirst : Moves := List.replicate 25 (0,tick 4) ++ List.replicate 5 (1,tick 0) ++ List.replicate 5 (2,tick 0)

def lookedMeanwhile : Moves := List.replicate 2 (1,tick 0) ++ List.replicate 25 (0,tick 4)

def refilledLate : Moves := lookedMeanwhile ++ List.replicate 3 (1,tick 0) ++ List.replicate 5 (2,tick 0)

def shown (copies : Int) : Payload := .book (serializeBook {sampleBook 1 with availableCopies := copies} sampleAuthor)

theorem allFinished {s : State} (done : ∀ j < 3, finished s j) (j : Nat) (r : Request)
    (sent : lendAndLook j = some r) : finished s j := by
  refine done j ?_
  unfold lendAndLook at sent
  split at sent
  · omega
  · split at sent <;> [omega; cases sent]

theorem lentFirstShown : let s := (begin (settled (sampleShelf 1) [] 0) lendAndLook).run lentFirst
    (detailKey (sampleId 3).text,shown 0) ∈ s.world.ext ∧
      bookAnswer s.world.db (sampleId 3).text = some (shown 0) := by
  intro s
  have kept := (noStaleRefill lendAndLook (sampleShelf 1) [] 0 lentFirst (sampleId 3).text (by simp)
    lendAndLookOthers (by decide +kernel) (inOrderUndisturbed (by decide +kernel)) lentFirst [] (by simp)).1
  have mem : (detailKey (sampleId 3).text,shown 0) ∈ s.world.ext := by decide +kernel
  exact ⟨mem,kept (allFinished (by decide +kernel)) _ mem⟩

theorem refillOutlives : let s := (begin (settled (sampleShelf 1) [] 0) lendAndLook).run refilledLate
    (∀ m ∈ refilledLate, m.2.answer.redisUp = true) ∧ (∀ j r, lendAndLook j = some r → finished s j) ∧
      (detailKey (sampleId 3).text,shown 1) ∈ s.world.ext ∧
      bookAnswer s.world.db (sampleId 3).text = some (shown 0) ∧ shown 0 ≠ shown 1 ∧
      finished ((begin (settled (sampleShelf 1) [] 0) lendAndLook).run lookedMeanwhile) 0 ∧
      (∀ m ∈ lookedMeanwhile, m.1 ≠ 2) ∧ answerOf s 2 = some (.read (shown 1)) := by
  refine ⟨by decide +kernel,allFinished (by decide +kernel),by decide +kernel,by decide +kernel,
    by decide +kernel,by decide +kernel,by decide +kernel,by decide +kernel⟩

end LibraryApi.StaleRefill
