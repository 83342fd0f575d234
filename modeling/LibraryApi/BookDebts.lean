import LibraryApi.BookCache
import LibraryApi.OweRules

/-! Writes of a book while requests interleave. Whoever commits a new row of a book is
bound to let its cache entry go before it answers, unless Redis fails. -/
namespace LibraryApi.BookDebts
open Models CacheService KeyedTable Repositories Requests Effects Runs CommittedRows CatalogueHistory CacheRules
open BookService (detailKey)
open BookRepository (findById)
open BookCache (bookAnswer)
open Program (mine Path stateAfter Owes Pays Owing Paying Clearing Clears paysBind paysSelect paysLock paysCommit)

def rewrites (k : String) (writes : List Write) : Bool := writes.any fun x => match x with
  | .updateBook l _ => l.id.text == k
  | _ => false

def absent (k : String) (x : Cache) : Prop := ∀ e ∈ x, e.1 ≠ detailKey k

def Keeps (d d' : Database) : Prop := ∀ k l, d.loans.find k = some l →
  ∃ l', d'.loans.find k = some l' ∧ l'.bookId = l.bookId

def redisUp (a : Answer) : Prop := a.redisUp = true

def rewriting : Request → Bool
  | .updateBook _ _ => true
  | .deleteBook _ => true
  | .createLoan _ => true
  | .returnLoan _ => true
  | .cancelLoan _ => true
  | _ => false

def rewritesAuthor : Request → Bool
  | .updateAuthor _ _ => true
  | .deleteAuthor _ => true
  | _ => false

section Debts
variable {α β : Type} {k : String} {pending : List Write} {d d' : Database}

abbrev PaysFor (k : String) : Service α → List Write → Database → Prop :=
  Pays Keeps redisUp (absent k) fun xs => rewrites k xs = true

abbrev OwesFor (k : String) : Service α → Database → Prop := Owes Keeps redisUp (absent k)

theorem keepsRefl (d : Database) : Keeps d d := fun _ l found => ⟨l,found,rfl⟩

theorem keepsTrans (a b c : Database) (left : Keeps a b) (right : Keeps b c) : Keeps a c := by
  intro k l found
  obtain ⟨l₁,found₁,same₁⟩ := left k l found
  obtain ⟨l₂,found₂,same₂⟩ := right k l₁ found₁
  exact ⟨l₂,found₂,same₂.trans same₁⟩

theorem paysRequire {e : ApiError} {row : Option β} {f : β → Service α}
    (rest : ∀ b, row = some b → PaysFor k (f b) pending d) : PaysFor k (require e row >>= f) pending d := by
  cases row with
  | none => exact trivial
  | some b => exact rest b rfl

theorem paysRefuse {test : Prop} [Decidable test] {e : ApiError} {f : Unit → Service α}
    (rest : PaysFor k (f ()) pending d) : PaysFor k (refuse test e >>= f) pending d := by
  unfold refuse
  split
  · exact trivial
  · exact rest

theorem owesDelete {f : Unit → Service α} : OwesFor k (delete (detailKey k) >>= f) d := by
  refine ⟨fun a x up => ⟨(),_,if_pos up⟩,.inl fun a x b x' done => ?_⟩
  beta_reduce at done
  split at done
  · obtain rfl := congrArg Prod.snd (Except.ok.inj done)
    intro e mem
    simpa using (List.mem_filter.mp mem).2
  · contradiction

theorem owesForget {bookId : String} (same : bookId = k) : OwesFor k (BookService.forgetBook bookId) d := by
  subst same
  exact owesDelete

theorem owesForgetThen {bookId : String} {f : Unit → Service α} (same : bookId = k) :
    OwesFor k (BookService.forgetBook bookId >>= f) d := Program.owesBind (owesForget same)

theorem keepsClosed {b b' : BookModel} {l c : LoanModel} (same : c.bookId = l.bookId)
    (ran : Program.execAll ([.updateBook b b',.updateLoan l c] : List Write) d = .ok d') : Keeps d d' := by
  intro k l₀ found
  rw [ranClose ran]
  show ∃ l', (storeLoan d.loans l c).find k = some l' ∧ l'.bookId = l₀.bookId
  unfold storeLoan
  rw [Table.findModify,found]
  split
  · exact ⟨_,rfl,by simp [LoanModel.flush,same]⟩
  · exact ⟨l₀,rfl,rfl⟩

theorem closingPays {b b' : BookModel} {l c : LoanModel} {g : LoanModel → Service α}
    (id : c.id = l.id) (kept : c.bookId = l.bookId) (stock : b.id.text = l.bookId.text)
    {l' : LoanModel} (found : d.loans.find l.id.text = some l') (same : l'.bookId = l.bookId) : PaysFor k (do
      Program.write (.updateBook b b')
      Program.write (.updateLoan l c)
      Program.commit
      let l ← LoanRepository.refresh c
      BookService.forgetBook l.bookId.text
      g l) [] d := by
  intro d₁ d₂ later ran flushed d₃ later'
  refine owesForgetThen ?_
  have named : b.id.text = k := by simpa [rewrites] using flushed
  have still := keepsTrans _ _ _ later (keepsTrans _ _ _ (keepsClosed kept ran) later')
  obtain ⟨l₃,found₃,same₃⟩ := still _ l' found
  have row : (d₃.loans.find c.id.text).getD c = l₃ := by rw [id,found₃]; rfl
  show ((d₃.loans.find c.id.text).getD c).bookId.text = k
  rw [row]
  exact (congrArg Uuid.text (same₃.trans same)).trans (stock.symm.trans named)

theorem keptLoan {loanId : String} {l : LoanModel} (later : Keeps d d')
    (row : (d.loans.find loanId).filter (fun l => l.status == .active) = some l) :
    ∃ l', d'.loans.find l.id.text = some l' ∧ l'.bookId = l.bookId := by
  obtain ⟨found,_⟩ := Option.filter_eq_some_iff.mp row
  exact (Table.findSound found).2 ▸ later _ l found

theorem lockedStock {bookId : String} {b : BookModel}
    (row : (d.books.find bookId).filter (fun b => b.isActive) = some b) : b.id.text = bookId :=
  (Table.findSound (Option.filter_eq_some_iff.mp row).1).2

theorem returnLoanPays {loanId : String} : PaysFor k (LoanService.returnLoan loanId) [] d := by
  refine paysLock.mpr fun d₁ _ => paysRequire fun l row t => paysRefuse ?_
  refine paysLock.mpr fun d₂ later => paysRequire fun b stock => ?_
  obtain ⟨l',found,same⟩ := keptLoan later row
  exact closingPays rfl rfl (lockedStock stock) found same

theorem cancelLoanPays {loanId : String} : PaysFor k (LoanService.cancelLoan loanId) [] d := by
  refine paysLock.mpr fun d₁ _ => paysRequire fun l row => ?_
  refine paysLock.mpr fun d₂ later => paysRequire fun b stock t => ?_
  obtain ⟨l',found,same⟩ := keptLoan later row
  exact closingPays rfl rfl (lockedStock stock) found same

theorem createLoanPays {data : LoanService.CreateLoanSchema} :
    PaysFor k (LoanService.createLoan data) [] d := by
  refine paysSelect.mpr fun d₁ _ => paysRequire fun user _ => paysSelect.mpr fun d₂ _ => paysRefuse ?_
  refine paysLock.mpr fun d₃ _ => paysRequire fun b stock => paysRefuse fun now id createdAt d₄ _ => ?_
  intro d₅ d₆ _ _ flushed d₇ _
  have named : b.id.text = k := by simpa [rewrites] using flushed
  exact owesForgetThen ((lockedStock stock).symm.trans named)

theorem updateBookPays {bookId : String} {data : BookService.UpdateBookSchema} :
    PaysFor k (BookService.updateBook bookId data) [] d := by
  refine paysSelect.mpr fun d₁ _ => paysRequire fun row found => paysRefuse ?_
  intro d₂ d₃ _ _ flushed d₄ _
  have named : row.1.id.text = k := by simpa [rewrites] using flushed
  obtain ⟨book,_⟩ := findByIdRow.mp found
  exact owesForgetThen ((Table.findSound book).2.symm.trans named)

theorem deleteBookPays {bookId : String} : PaysFor k (BookService.deleteBook bookId) [] d := by
  refine paysSelect.mpr fun d₁ _ => paysRequire fun row found => ?_
  intro d₂ d₃ _ _ flushed
  have named : row.1.id.text = k := by simpa [rewrites] using flushed
  obtain ⟨book,_⟩ := findByIdRow.mp found
  exact owesForget ((Table.findSound book).2.symm.trans named)

theorem handlePays {r : Request} (writes : rewriting r = true) : PaysFor k (handle r) [] d := by
  cases r with
  | updateBook => exact paysBind (fun _ _ _ => trivial) updateBookPays
  | deleteBook => exact paysBind (fun _ _ _ => trivial) deleteBookPays
  | createLoan => exact paysBind (fun _ _ _ => trivial) createLoanPays
  | returnLoan => exact paysBind (fun _ _ _ => trivial) returnLoanPays
  | cancelLoan => exact paysBind (fun _ _ _ => trivial) cancelLoanPays
  | _ => contradiction

end Debts

section Commits
variable {seen : Seen} {own : Log} {before after : Database} {r : Request} {writes : List Write} {k : String}

theorem effectKeeps (e : Effect seen own before r writes) (ran : Program.execAll writes before = .ok after) :
    Keeps before after := by
  intro k l found
  obtain ⟨l',found',step⟩ := LoanHistory.loanStep e ran found
  exact ⟨l',found',LoanCache.stepBook step⟩

theorem rewritingFirst (e : Effect seen own before r writes) (other : rewritesAuthor r = false)
    (flushed : rewrites k writes = true) : own = [] ∧ rewriting r = true := by
  cases e with
  | updateBook first => exact ⟨first,rfl⟩
  | deleteBook first => exact ⟨first,rfl⟩
  | createLoan first => exact ⟨first,rfl⟩
  | returnLoan first => exact ⟨first,rfl⟩
  | cancelLoan first => exact ⟨first,rfl⟩
  | updateAuthor => contradiction
  | deleteAuthor => contradiction
  | _ => contradiction

theorem answerKept (e : Effect seen own before r writes) (ran : Program.execAll writes before = .ok after)
    (other : rewritesAuthor r = false) (still : rewrites k writes = false) {payload : Payload}
    (answer : bookAnswer before k = some payload) : bookAnswer after k = some payload := by
  obtain ⟨row,found,rfl⟩ := Option.map_eq_some_iff.mp answer
  have kept : findById after k = some row := by
    by_cases note : ∃ n, writes = [.insertNotification n]
    · obtain ⟨n,rfl⟩ := note
      exact untouchedAnswer (quietUntouched rfl (ranOne ran)) found
    refine answerStep e ran ?_ found
    cases e with
    | updateBook _ _ id => simpa [rewrites,changes,id] using still
    | deleteBook _ _ id => simpa [rewrites,changes,id] using still
    | createLoan _ _ _ stock => simpa [rewrites,changes,(Table.findSound stock).2] using still
    | returnLoan _ lent _ stock => simpa [rewrites,changes,lent,(Table.findSound stock).2] using still
    | cancelLoan _ lent _ stock => simpa [rewrites,changes,lent,(Table.findSound stock).2] using still
    | updateAuthor => contradiction
    | deleteAuthor => contradiction
    | notify => exact absurd ⟨_,rfl⟩ note
    | _ => rfl
  unfold bookAnswer
  rw [kept]; rfl

end Commits

abbrev stateAt (requests : Nat → Option Request) (d : Database) (x : Cache) (t : Int) (a : Moves) : State :=
  (begin (settled d x t) requests).run a

section Moves
variable {requests : Nat → Option Request} {d : Database} {x : Cache} {t : Int} {a b : Moves} {k : String}
  {m : Nat × Program.Env Answer} {i j : Nat}

theorem atNext : stateAt requests d x t (a ++ [m]) = (stateAt requests d x t a).step m :=
  Program.State.runAppend _ a [m]

theorem historyGrows (requests : Nat → Option Request) (d : Database) (x : Cache) (t : Int) (a b : Moves) :
    (stateAt requests d x t a).world.history <:+ (stateAt requests d x t (a ++ b)).world.history := by
  unfold stateAt
  rw [Program.State.runAppend]
  exact Program.runGrows _ b

theorem moveEffect (requests : Nat → Option Request) (d : Database) (x : Cache) (t : Int) (a : Moves)
    (m : Nat × Program.Env Answer) : let w := (stateAt requests d x t a).world
    let w' := (stateAt requests d x t (a ++ [m])).world
    (w'.db = w.db ∧ w'.history = w.history) ∨ ∃ c r, c.client = m.1 ∧ requests m.1 = some r ∧
      w'.history = c :: w.history ∧ c.before = w.db ∧ Program.execAll c.writes w.db = .ok w'.db ∧
      Effect (Program.seenIn d t w.history c.clock) (mine m.1 w.history) w.db r c.writes := by
  intro w w'
  have next : w' = ((stateAt requests d x t a).step m).world := congrArg Program.State.world atNext
  rcases Program.moveRecords (stateAt requests d x t a) m with same | ⟨c,client,before,after,grown⟩
  · rw [next]; exact .inl same
  rw [← next] at after grown
  have path : PoolPath requests d t w'.history := (poolPath d x t (a ++ [m])).1
  rw [grown] at path
  cases path with
  | commit _ _ ran _ effect =>
    obtain ⟨r,sent,e⟩ := effect
    rw [client] at sent e
    rw [before] at ran e
    rw [after] at ran
    exact .inr ⟨c,r,client,sent,grown,before,ran,e⟩

theorem moveKeeps (requests : Nat → Option Request) (d : Database) (x : Cache) (t : Int) (a : Moves)
    (m : Nat × Program.Env Answer) :
    Keeps (stateAt requests d x t a).world.db (stateAt requests d x t (a ++ [m])).world.db := by
  rcases moveEffect requests d x t a m with
    ⟨same,_⟩ | ⟨c,r,_,_,_,_,ran,e⟩
  · rw [same]; exact keepsRefl _
  · exact effectKeeps e ran

abbrev OwingFor (k : String) (s : State) (i : Nat) : Prop := Owing Keeps redisUp (absent k) s i

def LetGo (requests : Nat → Option Request) (d : Database) (x : Cache) (t : Int) (k : String) (a : Moves)
    (i : Nat) : Prop := ∃ b e c, a = b ++ (i,e) :: c ∧ mine i (stateAt requests d x t b).world.history ≠ [] ∧
  Clearing (absent k) (stateAt requests d x t b) i

structure Debts (requests : Nat → Option Request) (d : Database) (x : Cache) (t : Int) (k : String) (a : Moves) :
    Prop where
  paying : ∀ i r, requests i = some r → rewriting r = true →
    mine i (stateAt requests d x t a).world.history = [] → Paying Keeps redisUp (absent k)
      (fun xs => rewrites k xs = true) (stateAt requests d x t a) i
  owing : ∀ c ∈ (stateAt requests d x t a).world.history, rewrites k c.writes = true →
    OwingFor k (stateAt requests d x t a) c.client ∨ LetGo requests d x t k a c.client

theorem startPool : (stateAt requests d x t []).pool i =
    ((requests i).map handle).map fun p => Program.Thread.running p [] := rfl

theorem debtsStart : Debts requests d x t k [] := by
  refine ⟨fun i r sent writes _ q pending at_ => ?_,by simp [stateAt,begin,Program.start,settled,Program.State.run]⟩
  rw [startPool,sent] at at_
  cases at_
  exact handlePays writes

theorem newOwes (others : ∀ i r, requests i = some r → rewritesAuthor r = false)
    (debts : Debts requests d x t k a) {c : Commit}
    (grown : (stateAt requests d x t (a ++ [m])).world.history = c :: (stateAt requests d x t a).world.history)
    (flushed : rewrites k c.writes = true) : OwingFor k (stateAt requests d x t (a ++ [m])) c.client := by
  rcases moveEffect requests d x t a m with
    ⟨_,same⟩ | ⟨c',r,client,sent,grown',_,_,e⟩
  · rw [same] at grown
    exact absurd grown.symm (List.cons_ne_self _ _)
  · obtain ⟨rfl,_⟩ := List.cons.inj (grown'.symm.trans grown)
    obtain ⟨first,writes⟩ := rewritingFirst e (others _ r sent) flushed
    have keeps := moveKeeps requests d x t a m
    rw [atNext] at keeps grown ⊢
    rcases Program.payingStep keepsRefl keepsTrans keeps (debts.paying m.1 r sent writes first) with
      ⟨same,_⟩ | ⟨c,client',_,grown'',owes⟩
    · exact absurd (grown.symm.trans (same rfl)) (List.cons_ne_self _ _)
    · obtain ⟨rfl,_⟩ := List.cons.inj (grown''.symm.trans grown)
      rw [client]
      exact owes flushed

theorem debtsStep (others : ∀ i r, requests i = some r → rewritesAuthor r = false)
    (up : redisUp m.2.answer) (debts : Debts requests d x t k a) : Debts requests d x t k (a ++ [m]) := by
  have keeps := moveKeeps requests d x t a m
  constructor
  · intro i r sent writes none
    have idle : mine i (stateAt requests d x t a).world.history = [] := by
      obtain ⟨later,same⟩ := historyGrows requests d x t a [m]
      rw [← same,mine,List.filter_append] at none
      exact (List.append_eq_nil_iff.mp none).2
    rw [atNext] at keeps none ⊢
    rcases Program.payingStep keepsRefl keepsTrans keeps (debts.paying i r sent writes idle) with
      ⟨_,still⟩ | ⟨c,client,_,grown,_⟩
    · exact still
    · rw [grown,Program.mineCons,if_pos client] at none
      contradiction
  · intro c mem flushed
    have old (mem : c ∈ (stateAt requests d x t a).world.history) :
        OwingFor k (stateAt requests d x t (a ++ [m])) c.client ∨ LetGo requests d x t k (a ++ [m]) c.client := by
      rcases debts.owing c mem flushed with owes | ⟨b,e,rest,rfl,committed,clears⟩
      · rw [atNext] at keeps ⊢
        rcases Program.owingStep keepsRefl keepsTrans keeps up owes with still | ⟨own,clears,_⟩
        · exact .inl still
        · refine .inr ⟨a,m.2,[],by rw [← own],?_,clears⟩
          exact List.ne_nil_of_mem (List.mem_filter.mpr ⟨mem,by simp⟩)
      · exact .inr ⟨b,e,rest ++ [m],by simp,committed,clears⟩
    rcases moveEffect requests d x t a m with
      ⟨_,same⟩ | ⟨c',_,_,_,grown,_⟩
    · rw [same] at mem; exact old mem
    · rw [grown] at mem
      rcases List.mem_cons.mp mem with rfl | mem
      · exact .inl (newOwes others debts grown flushed)
      · exact old mem

end Moves
end LibraryApi.BookDebts
