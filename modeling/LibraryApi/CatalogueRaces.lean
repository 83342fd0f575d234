import LibraryApi.CommittedRows

/-! Books and their authors under concurrent requests. `create_book` looks its
author up before it inserts, `delete_author` deactivates the books it has loaded,
and neither locks what it read: every active book keeps an active author exactly
as long as no such read has gone stale by the commit. -/
namespace LibraryApi.CatalogueRaces
open Models CacheService KeyedTable Repositories Requests Effects Runs CommittedRows
open Program (execAll execAllCons Path stateAfter)

def Authored (d : Database) : Prop := ∀ b ∈ d.books.rows, b.isActive = true →
  ∃ a, d.authors.find b.authorId.text = some a ∧ a.isActive = true

/-- A book is entered while its author is active, and an author is deleted together
with every active book. -/
structure Checked (before : Database) (writes : List Write) : Prop where
  entered : ∀ b, .insertBook b ∈ writes →
    ∃ a, before.authors.find b.authorId.text = some a ∧ a.isActive = true
  cleared : ∀ a a', .updateAuthor a a' ∈ writes → a.isActive = true → a'.isActive = false →
    ∀ b ∈ before.books.rows, b.authorId = a.id → b.isActive = true →
      ∃ l c, .updateBook l c ∈ writes ∧ l.id = b.id

def CheckedAtCommit (h : Log) : Prop := ∀ m ∈ h, Checked m.before m.writes

def checks (before : Database) (writes : List Write) : Write → Bool
  | .insertBook b => (before.authors.find b.authorId.text).any (fun a => a.isActive)
  | .updateAuthor a a' => !a.isActive || a'.isActive || before.books.rows.all fun b =>
      b.authorId != a.id || !b.isActive || writes.any fun
        | .updateBook l _ => l.id == b.id
        | _ => false
  | _ => true

instance (before : Database) (writes : List Write) : Decidable (Checked before writes) :=
  decidable_of_iff (∀ x ∈ writes, checks before writes x = true) (by
    constructor
    · intro each
      refine ⟨fun b mem => ?_,fun a a' mem up down b row own active => ?_⟩
      · exact (Option.any_eq_true _ _).mp (each _ mem)
      · have cleared := each _ mem
        simp only [checks,up,down,Bool.not_true,Bool.false_or,List.all_eq_true] at cleared
        obtain ⟨x,inside,hit⟩ := List.any_eq_true.mp (by simpa [own,active] using cleared b row)
        cases x <;> simp at hit
        exact ⟨_,_,inside,hit⟩
    · intro checked x mem
      cases x with
      | insertBook b =>
        obtain ⟨a,found,alive⟩ := checked.entered b mem
        simp [checks,found,alive]
      | updateAuthor a a' =>
        cases up : a.isActive <;> cases down : a'.isActive <;> simp [checks,up,down]
        intro b row
        by_cases own : b.authorId = a.id <;> simp [own]
        cases active : b.isActive <;> simp
        obtain ⟨l,c,inside,same⟩ := checked.cleared a a' mem up down b row own active
        exact ⟨_,inside,by simp [same]⟩
      | _ => rfl)

instance (h : Log) : Decidable (CheckedAtCommit h) := by
  unfold CheckedAtCommit; infer_instance

def lockable (d : Database) (bookId : String) : Option BookModel :=
  (d.books.find bookId).filter (fun b => b.isActive)

theorem lockableLocked (bookId : String) : LoanRepository.getBookForUpdate bookId =
    Program.lock (fun d => lockable d bookId) (fun b => .book b.id) := rfl

section Steady

structure Steady (d d' : Database) : Prop where
  authors : ∀ k a, d.authors.find k = some a → a.isActive = true →
    ∃ a', d'.authors.find k = some a' ∧ a'.isActive = true
  books : ∀ b' ∈ d'.books.rows, b'.isActive = true →
    ∃ b ∈ d.books.rows, b.isActive = true ∧ b.authorId = b'.authorId ∧ b.id = b'.id

theorem steadyAuthored {d d' : Database} (steady : Steady d d') (authored : Authored d) : Authored d' := by
  intro b' mem active
  obtain ⟨b,old,was,same,_⟩ := steady.books b' mem active
  obtain ⟨a,found,alive⟩ := authored b old was
  exact same ▸ steady.authors _ a found alive

theorem steadyRefl (d : Database) : Steady d d :=
  ⟨fun _ a found active => ⟨a,found,active⟩,fun b mem active => ⟨b,mem,active,rfl,rfl⟩⟩

theorem steadyTrans {a b c : Database} (left : Steady a b) (right : Steady b c) : Steady a c := by
  refine ⟨fun k x found active => ?_,fun x mem active => ?_⟩
  · obtain ⟨y,found,active⟩ := left.authors k x found active
    exact right.authors k y found active
  · obtain ⟨y,mem,active,same,id⟩ := right.books x mem active
    obtain ⟨z,mem,active,same',id'⟩ := left.books y mem active
    exact ⟨z,mem,active,same'.trans same,id'.trans id⟩

def tame : Write → Bool
  | .insertBook _ => false
  | .updateBook l c => c.authorId == l.authorId && (!c.isActive || l.isActive)
  | .updateAuthor l c => c.isActive == l.isActive
  | _ => true

theorem bookFlushed {l c s : BookModel} (same : c.authorId = l.authorId)
    (down : c.isActive = true → l.isActive = true) (active : (l.flush c s).isActive = true) :
    s.isActive = true ∧ (l.flush c s).authorId = s.authorId := by
  refine ⟨?_,by simp [BookModel.flush,same]⟩
  simp only [BookModel.flush,flushed] at active
  split at active
  · exact active
  · rename_i other
    rw [active,down active] at other
    exact absurd rfl other

theorem tameSteady {x : Write} {d d' : Database} (quiet : tame x = true) (ran : x.exec d = .ok d') :
    Steady d d' := by
  have same (authors : d'.authors = d.authors) (books : d'.books = d.books) : Steady d d' := by
    obtain ⟨_,_,_,_,_,_⟩ := d
    obtain ⟨_,_,_,_,_,_⟩ := d'
    cases authors
    cases books
    exact ⟨(steadyRefl _).authors,(steadyRefl _).books⟩
  cases x with
  | insertBook row => contradiction
  | insertAuthor row =>
    obtain ⟨t,added,rfl⟩ := Database.insertAuthorRan ran
    exact ⟨fun k a found active => ⟨a,Database.insertKeeps added found,active⟩,(steadyRefl d).books⟩
  | updateBook l c =>
    obtain rfl := ranUpdateBook (execAllCons.mpr ⟨d',ran,rfl⟩)
    refine ⟨(steadyRefl d).authors,fun b' mem active => ?_⟩
    obtain ⟨b,old,_,rfl⟩ := storedBookMember mem
    simp only [tame,Bool.and_eq_true,beq_iff_eq,Bool.or_eq_true,Bool.not_eq_true'] at quiet
    split at active
    · rename_i here
      obtain ⟨was,same⟩ := bookFlushed quiet.1 (fun up => by simpa [up] using quiet.2) active
      exact ⟨b,old,was,by rw [if_pos here,same],by rw [if_pos here]; rfl⟩
    · rename_i other; exact ⟨b,old,active,by rw [if_neg other],by rw [if_neg other]⟩
  | updateAuthor l c =>
    obtain rfl := authorStored ran
    refine ⟨fun k a found active => ?_,(steadyRefl d).books⟩
    replace quiet : c.isActive = l.isActive := by simpa [tame] using quiet
    show ∃ a', (storeAuthor d.authors l c).find k = some a' ∧ a'.isActive = true
    unfold storeAuthor
    rw [Table.findModify,found]
    split
    · exact ⟨_,rfl,by simp [AuthorModel.flush,quiet,active]⟩
    · exact ⟨a,rfl,active⟩
  | insertUser row => obtain ⟨_,_,_,rfl⟩ := Database.insertUserRan ran; exact same rfl rfl
  | insertLoan row => obtain ⟨_,_,rfl⟩ := Database.insertLoanRan ran; exact same rfl rfl
  | insertReservation row => obtain ⟨_,_,rfl⟩ := Database.insertReservationRan ran; exact same rfl rfl
  | updateUser l c => obtain rfl := Database.updateUserRan ran; exact same rfl rfl
  | _ => cases ran; exact same rfl rfl

theorem tameAll {xs : List Write} {d d' : Database} (quiet : ∀ x ∈ xs, tame x = true)
    (ran : execAll xs d = .ok d') : Steady d d' :=
  Program.execAllKeeps steadyRefl steadyTrans (fun x mem _ _ ran => tameSteady (quiet x mem) ran) ran

end Steady

section Steps
variable {seen : Seen} {own : Log} {before after : Database} {r : Request} {writes : List Write}

theorem deactivated {xs : List BookModel} {d d' : Database} (alive : ∀ x ∈ xs, x.isActive = true)
    (ran : execAll (xs.map fun b => Write.updateBook b {b with isActive := false}) d = .ok d') :
    d'.authors = d.authors ∧
      (∀ b' ∈ d'.books.rows, b'.isActive = true → b' ∈ d.books.rows ∧ ∀ x ∈ xs, x.id ≠ b'.id) ∧
      ∀ b ∈ d.books.rows, (∀ x ∈ xs, x.id ≠ b.id) → b ∈ d'.books.rows := by
  induction xs generalizing d with
  | nil => cases ran; exact ⟨rfl,fun b mem _ => ⟨mem,by simp⟩,fun _ mem _ => mem⟩
  | cons x rest ih =>
    obtain ⟨mid,first,ran⟩ := execAllCons.mp ran
    obtain rfl := ranUpdateBook (l := x) (c := {x with isActive := false}) (execAllCons.mpr ⟨mid,first,rfl⟩)
    obtain ⟨authors,gone,stay⟩ := ih (fun y mem => alive y (List.mem_cons_of_mem _ mem)) ran
    refine ⟨authors,fun b' mem active => ?_,fun b mem others => ?_⟩
    · obtain ⟨old,spared⟩ := gone b' mem active
      obtain ⟨b,here,key,rfl⟩ := storedBookMember old
      split at active
      · simp [BookModel.flush,flushed,alive x] at active
      · rename_i other
        rw [if_neg other] at spared ⊢
        refine ⟨here,fun y inside => ?_⟩
        rcases List.mem_cons.mp inside with rfl | inside
        · exact fun same => other (congrArg Uuid.text same.symm)
        · exact spared y inside
    · refine stay b (List.mem_map.mpr ⟨b,mem,if_neg fun same => ?_⟩)
        fun y inside => others y (List.mem_cons_of_mem _ inside)
      exact others x List.mem_cons_self (uuidExt same.symm)

theorem tameOrLookedUp (e : Effect seen own before r writes) : (∀ x ∈ writes, tame x = true) ∨
    (∃ data author id createdAt, own = [] ∧
      (seen fun d _ => AuthorRepository.findById d data.authorId = some author) ∧
      writes = [.insertBook (BookService.newBook data author id createdAt)]) ∨
    ∃ authorId author books, own = [] ∧
      (seen fun d _ => AuthorRepository.findByIdWithBooks d authorId = some (author,books)) ∧
      writes = .updateAuthor author {author with isActive := false} :: AuthorRepository.deactivate books := by
  cases e with
  | createBook first _ writer => exact .inr (.inl ⟨_,_,_,_,first,writer,rfl⟩)
  | deleteAuthor first visible => exact .inr (.inr ⟨_,_,_,first,visible,rfl⟩)
  | updateBook =>
    refine .inl (List.forall_mem_singleton.mpr ?_)
    unfold BookService.updated
    split <;> simp [tame]
  | _ => exact .inl (by simp [tame,AuthorService.updated,LoanService.restocked])

theorem tameChecked (quiet : ∀ x ∈ writes, tame x = true) : Checked before writes :=
  ⟨fun _ mem => absurd (quiet _ mem) (by simp [tame]),fun _ _ mem up down => absurd (quiet _ mem) (by simp [tame,up,down])⟩

theorem authoredStep (real : ∀ P, seen P → ∃ d t, P d t) (e : Effect seen own before r writes)
    (ran : execAll writes before = .ok after) (authored : Authored before) :
    Authored after ↔ Checked before writes := by
  rcases tameOrLookedUp e with quiet | ⟨data,author,id,createdAt,_,_,rfl⟩ | ⟨authorId,author,books,_,visible,rfl⟩
  · exact iff_of_true (steadyAuthored (tameAll quiet ran) authored) (tameChecked quiet)
  · obtain ⟨books,added,rfl⟩ := ranInsertBook ran
    let book := BookService.newBook data author id createdAt
    refine ⟨fun h => ⟨fun b mem => ?_,fun a a' mem => by simp at mem⟩,fun h b mem active => ?_⟩
    · obtain rfl : b = book := by simpa using mem
      exact h book ((Table.memInsert added book).mpr (.inr rfl)) rfl
    · rcases (Table.memInsert added b).mp mem with old | rfl
      · exact authored b old active
      · exact h.entered _ (by simp)
  · obtain ⟨d,_,found⟩ := real _ visible
    obtain ⟨a,row,same⟩ := Option.map_eq_some_iff.mp found
    obtain ⟨rfl,rfl⟩ := Prod.mk.inj same
    have alive : a.isActive = true := (Option.filter_eq_some_iff.mp row).2
    obtain ⟨mid,first,ran⟩ := execAllCons.mp ran
    obtain rfl := authorStored first
    obtain ⟨authors,gone,stay⟩ := deactivated
      (fun x mem => (List.mem_filter.mp mem).2) ran
    refine ⟨fun h => ⟨fun b mem => ?_,fun l l' mem up down b old own active => ?_⟩,fun h b' mem active => ?_⟩
    · simp [AuthorRepository.deactivate] at mem
    · obtain rfl : l = a := by
        rcases List.mem_cons.mp mem with first | inside
        · cases first; rfl
        · simp [AuthorRepository.deactivate] at inside
      by_contra none
      have still := stay b old fun x inside same =>
        none ⟨x,_,List.mem_cons_of_mem _ (List.mem_map.mpr ⟨x,inside,rfl⟩),same⟩
      obtain ⟨a₁,found,active⟩ := h b still active
      rw [authors,own,closedAuthor] at found
      obtain ⟨a₀,_,rfl⟩ := Option.map_eq_some_iff.mp found
      simp [AuthorModel.flush,flushed,alive] at active
    · obtain ⟨old,spared⟩ := gone b' mem active
      have other : b'.authorId ≠ a.id := by
        intro own
        obtain ⟨x,c,inside,same⟩ := h.cleared a _ List.mem_cons_self alive rfl b' old own active
        rcases List.mem_cons.mp inside with first | inside
        · cases first
        · obtain ⟨y,listed,update⟩ := List.mem_map.mp inside
          cases update
          exact spared x listed same
      obtain ⟨a₁,found,active⟩ := authored b' old active
      refine ⟨a₁,?_,active⟩
      rw [authors]
      show (storeAuthor before.authors a _).find _ = some a₁
      unfold storeAuthor
      rw [Table.findModify,if_neg fun same => other (uuidExt same)]
      exact found

theorem lookupsAgree {d : Database} (authored : Authored d) (bookId : String) :
    (BookRepository.findById d bookId).map Prod.fst = lockable d bookId := by
  unfold BookRepository.findById lockable
  cases found : d.books.find bookId with
  | none => rfl
  | some b =>
    cases active : b.isActive with
    | false =>
      cases d.authors.find b.authorId.text <;> simp [Option.filter,active]
    | true =>
      obtain ⟨a,row,alive⟩ := authored b (Table.findSound found).1 active
      simp [Option.filter,row,active,alive]

theorem lentLocked (e : Effect seen own before r writes) {l : LoanModel} (lent : .insertLoan l ∈ writes) :
    ∃ b, lockable before l.bookId.text = some b := by
  cases e with
  | @createLoan data user book id now createdAt _ _ _ stock shelved =>
    obtain rfl : l = LoanService.newLoan id user book now createdAt := by simpa using lent
    have key : book.id.text = data.bookId := (Table.findSound stock).2
    refine ⟨book,?_⟩
    show (before.books.find book.id.text).filter _ = some book
    rw [key,stock]
    simp [shelved]
  | deleteAuthor => simp [AuthorRepository.deactivate] at lent
  | _ => simp at lent

end Steps

theorem lookupsDiffer {d : Database} {bookId : String} (hidden : BookRepository.findById d bookId = none)
    (shown : (lockable d bookId).isSome = true) : ¬ Authored d := by
  intro authored
  rw [← lookupsAgree authored,hidden] at shown
  contradiction

section Paths
variable {requests : Nat → Option Request} {d : Database} {t : Int} {h : Log}

theorem pathAuthored (start : Authored d) (path : PoolPath requests d t h) :
    ((∀ m ∈ h, Authored m.after) ↔ CheckedAtCommit h) ∧ (CheckedAtCommit h → Authored (stateAfter d h)) := by
  refine Program.pathIff start (fun {h m} path authored => ?_) path
  cases path with
  | commit rest before ran clock effect =>
    obtain ⟨r,_,e⟩ := effect
    exact authoredStep (fun P ⟨_,_,_,_,_,_,held⟩ => ⟨_,_,held⟩) e ran authored

theorem checkedSince {m : Commit} {later : Log} (path : PoolPath requests d t (later ++ m :: h)) :
    ∃ since looked, h = since ++ looked ∧ (∀ c ∈ since, c.client ≠ m.client) ∧
      ((∀ c ∈ since, ∀ x ∈ c.writes, tame x = true) → Checked m.before m.writes) := by
  cases path.suffix with
  | commit rest before ran clock allowed =>
    obtain ⟨r,sent,e⟩ := allowed
    have still {since looked : Log} (same : h = since ++ looked) (calm : ∀ c ∈ since, ∀ x ∈ c.writes, tame x = true) :
        Steady (stateAfter d looked) m.before := by
      subst same
      rw [before]
      exact Program.pathSince steadyRefl steadyTrans (fun path quiet => by
        cases path with
        | commit _ _ ran => exact tameAll quiet ran) rest calm
    rcases tameOrLookedUp e with quiet | ⟨data,author,id,createdAt,first,writer,own⟩ | ⟨authorId,author,books,first,visible,own⟩
    · exact ⟨[],h,rfl,nofun,fun _ => tameChecked quiet⟩
    · obtain ⟨since,looked,_,same,others,found⟩ := Program.seenSince first writer
      refine ⟨since,looked,same,others,fun calm => ?_⟩
      rw [own]
      obtain ⟨row,alive⟩ := Option.filter_eq_some_iff.mp found
      rw [← (Table.findSound row).2] at row
      refine ⟨fun b mem => ?_,fun a a' mem => by simp at mem⟩
      obtain rfl : b = BookService.newBook data author id createdAt := by simpa using mem
      exact (still same calm).authors _ author row alive
    · obtain ⟨since,looked,_,same,others,found⟩ := Program.seenSince first visible
      refine ⟨since,looked,same,others,fun calm => ?_⟩
      rw [own]
      obtain ⟨a,row,loaded⟩ := Option.map_eq_some_iff.mp found
      obtain ⟨rfl,rfl⟩ := Prod.mk.inj loaded
      refine ⟨fun b mem => by simp [AuthorRepository.deactivate] at mem,fun l l' mem up down b inside mine active => ?_⟩
      obtain rfl : l = a := by
        rcases List.mem_cons.mp mem with here | there
        · cases here; rfl
        · simp [AuthorRepository.deactivate] at there
      obtain ⟨b₀,old,was,author,id⟩ := (still same calm).books b inside active
      have listed : b₀ ∈ (stateAfter d looked).books.rows.filter fun b => b.authorId == l.id :=
        List.mem_filter.mpr ⟨old,by simp [author,mine]⟩
      exact ⟨b₀,_,List.mem_cons_of_mem _ (List.mem_map.mpr ⟨b₀,List.mem_filter.mpr ⟨listed,was⟩,rfl⟩),id⟩

theorem lentVisible (path : PoolPath requests d t h) (start : Authored d) (every : CheckedAtCommit h) :
    ∀ m ∈ h, ∀ l, .insertLoan l ∈ m.writes →
      (BookRepository.findById m.before l.bookId.text).isSome = true := by
  intro m mem l lent
  obtain ⟨rest,path,sub⟩ := Program.pathUpTo path mem
  cases path with
  | commit path before _ _ effect =>
    obtain ⟨r,_,e⟩ := effect
    have authored : Authored m.before := by
      rw [before]
      exact (pathAuthored start path).2 fun c inside => every c (sub c (List.mem_cons_of_mem _ inside))
    obtain ⟨b,found⟩ := lentLocked e lent
    rw [← lookupsAgree authored] at found
    obtain ⟨row,same,_⟩ := Option.map_eq_some_iff.mp found
    rw [same]; rfl

end Paths

/-- Whatever else is running, every active book has an active author in every
committed state exactly if no commit enters a book of a deleted author or deletes
an author of a book it has not loaded; then both lookups find the same books. -/
theorem authoredIffChecked (d : Database) (x : Cache) (t : Int) (requests : Nat → Option Request)
    (moves : Moves) (start : Authored d) :
    let s := (begin (settled d x t) requests).run moves
    ((Authored s.world.db ∧ ∀ m ∈ s.world.history, Authored m.after) ↔ CheckedAtCommit s.world.history) ∧
      (CheckedAtCommit s.world.history →
        (∀ bookId, (BookRepository.findById s.world.db bookId).map Prod.fst = lockable s.world.db bookId) ∧
        (∀ m ∈ s.world.history, ∀ bookId,
          (BookRepository.findById m.after bookId).map Prod.fst = lockable m.after bookId) ∧
        ∀ m ∈ s.world.history, ∀ l, .insertLoan l ∈ m.writes →
          (BookRepository.findById m.before l.bookId.text).isSome = true) := by
  intro s
  obtain ⟨path,last⟩ : PoolPath requests d t s.world.history ∧ _ := poolPath d x t moves
  obtain ⟨every,final⟩ := pathAuthored start path
  rw [last]
  refine ⟨⟨fun h => every.mp h.2,fun h => ⟨final h,every.mpr h⟩⟩,fun checked => ?_⟩
  exact ⟨lookupsAgree (final checked),fun m mem => lookupsAgree (every.mpr checked m mem),
    lentVisible path start checked⟩

def enteringAndDeleting (j : Nat) : Option Request :=
  if j = 0 then some (.createBook ⟨"Quincas Borba","9788535910670","Romance",1,(sampleId 1).text⟩)
  else if j = 1 then some (.deleteAuthor (sampleId 1).text)
  else none

def enteredInOrder : Moves := List.replicate 20 (0,tick 7) ++ List.replicate 20 (1,tick 8)

def enteredInBetween : Moves :=
  List.replicate 4 (0,tick 7) ++ List.replicate 20 (1,tick 8) ++ List.replicate 20 (0,tick 7)

theorem shelfAuthored (copies : Int) : Authored (sampleShelf copies) := by
  intro b mem _
  obtain rfl := List.mem_singleton.mp mem
  exact ⟨sampleAuthor,rfl,rfl⟩

theorem enteredInOrderAuthored :
    CheckedAtCommit ((begin (settled (sampleShelf 1) [] 0) enteringAndDeleting).run enteredInOrder).world.history ∧
      Authored ((begin (settled (sampleShelf 1) [] 0) enteringAndDeleting).run enteredInOrder).world.db := by
  have checked : CheckedAtCommit
      ((begin (settled (sampleShelf 1) [] 0) enteringAndDeleting).run enteredInOrder).world.history := by
    decide +kernel
  have kept := (authoredIffChecked (sampleShelf 1) [] 0 enteringAndDeleting enteredInOrder (shelfAuthored 1)).1
  exact ⟨checked,(kept.mpr checked).1⟩

theorem hiddenBookLendable :
    let s := (begin (settled (sampleShelf 1) [] 0) enteringAndDeleting).run enteredInBetween
    Authored (sampleShelf 1) ∧ succeeded s 0 = true ∧ succeeded s 1 = true ∧ ¬ Authored s.world.db ∧
      BookRepository.findById s.world.db (sampleId 7).text = none ∧
      (lockable s.world.db (sampleId 7).text).isSome = true := by
  have hidden : BookRepository.findById
      ((begin (settled (sampleShelf 1) [] 0) enteringAndDeleting).run enteredInBetween).world.db
      (sampleId 7).text = none := by decide +kernel
  have shown : (lockable
      ((begin (settled (sampleShelf 1) [] 0) enteringAndDeleting).run enteredInBetween).world.db
      (sampleId 7).text).isSome = true := by decide +kernel
  exact ⟨shelfAuthored 1,by decide +kernel,by decide +kernel,lookupsDiffer hidden shown,hidden,shown⟩

end LibraryApi.CatalogueRaces
