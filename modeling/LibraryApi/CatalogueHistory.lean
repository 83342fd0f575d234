import LibraryApi.CommittedRows

/-! What a commit makes of the answers on books. An answer joins a book with its
author; a request may change those of the books it names, of all books of an author,
or of none, and every book keeps a stored author. -/
namespace LibraryApi.CatalogueHistory
open Models CacheService KeyedTable Repositories Requests Effects CommittedRows
open BookRepository (findById withAuthors)
open Program (execAll)

def Joined (d : Database) : Prop := ∀ b ∈ d.books.rows, ∃ a, d.authors.find b.authorId.text = some a

section Authors

structure Linked (d d' : Database) : Prop where
  authors : ∀ k a, d.authors.find k = some a → ∃ a', d'.authors.find k = some a'
  books : ∀ b' ∈ d'.books.rows, ∃ b ∈ d.books.rows, b.authorId = b'.authorId

theorem linkedRefl (d : Database) : Linked d d := ⟨fun _ a found => ⟨a,found⟩,fun b mem => ⟨b,mem,rfl⟩⟩

theorem linkedTrans {a b c : Database} (left : Linked a b) (right : Linked b c) : Linked a c := by
  refine ⟨fun k x found => ?_,fun x mem => ?_⟩
  · obtain ⟨y,found⟩ := left.authors k x found
    exact right.authors k y found
  · obtain ⟨y,mem,same⟩ := right.books x mem
    obtain ⟨z,mem,same'⟩ := left.books y mem
    exact ⟨z,mem,same'.trans same⟩

theorem linkedJoined {d d' : Database} (linked : Linked d d') (joined : Joined d) : Joined d' := by
  intro b' mem
  obtain ⟨b,old,same⟩ := linked.books b' mem
  obtain ⟨a,found⟩ := joined b old
  exact same ▸ linked.authors _ a found

def tied : Write → Bool
  | .insertBook _ => false
  | .updateBook l c => c.authorId == l.authorId
  | _ => true

theorem linkedSame {d d' : Database} (authors : d'.authors = d.authors) (books : d'.books = d.books) :
    Linked d d' := by
  obtain ⟨_,_,_,_,_,_⟩ := d
  obtain ⟨_,_,_,_,_,_⟩ := d'
  cases authors
  cases books
  exact ⟨(linkedRefl _).authors,(linkedRefl _).books⟩

theorem tiedLinked {x : Write} {d d' : Database} (ties : tied x = true) (ran : x.exec d = .ok d') :
    Linked d d' := by
  cases x with
  | insertBook row => contradiction
  | insertAuthor row =>
    obtain ⟨t,added,rfl⟩ := Database.insertAuthorRan ran
    exact ⟨fun k a found => ⟨a,Database.insertKeeps added found⟩,(linkedRefl d).books⟩
  | updateBook l c =>
    obtain rfl := ranUpdateBook (Program.execAllCons.mpr ⟨d',ran,rfl⟩)
    refine ⟨(linkedRefl d).authors,fun b' mem => ?_⟩
    obtain ⟨b,old,_,rfl⟩ := storedBookMember mem
    refine ⟨b,old,?_⟩
    split
    · have same : c.authorId = l.authorId := by simpa [tied] using ties
      simp [BookModel.flush,same]
    · rfl
  | updateAuthor l c =>
    obtain rfl := authorStored ran
    refine ⟨fun k a found => ?_,(linkedRefl d).books⟩
    show ∃ a', (storeAuthor d.authors l c).find k = some a'
    unfold storeAuthor
    rw [Table.findModify,found]
    split <;> exact ⟨_,rfl⟩
  | insertUser row => obtain ⟨_,_,_,rfl⟩ := Database.insertUserRan ran; exact linkedSame rfl rfl
  | insertLoan row => obtain ⟨_,_,rfl⟩ := Database.insertLoanRan ran; exact linkedSame rfl rfl
  | insertReservation row =>
    obtain ⟨_,_,rfl⟩ := Database.insertReservationRan ran; exact linkedSame rfl rfl
  | updateUser l c => obtain rfl := Database.updateUserRan ran; exact linkedSame rfl rfl
  | _ => cases ran; exact linkedSame rfl rfl

theorem tiedAll {xs : List Write} {d d' : Database} (ties : ∀ x ∈ xs, tied x = true)
    (ran : execAll xs d = .ok d') : Linked d d' :=
  Program.execAllKeeps linkedRefl linkedTrans (fun x mem _ _ ran => tiedLinked (ties x mem) ran) ran

variable {seen : Seen} {own : Log} {before after : Database} {r : Request} {writes : List Write}

theorem joinedStep (real : ∀ P, seen P → ∃ d t, P d t ∧
      ∀ k a, d.authors.find k = some a → ∃ a', before.authors.find k = some a')
    (e : Effect seen own before r writes) (ran : execAll writes before = .ok after)
    (joined : Joined before) : Joined after := by
  have quietly (ties : ∀ x ∈ writes, tied x = true) : Joined after := linkedJoined (tiedAll ties ran) joined
  cases e with
  | @createBook data author id createdAt _ _ writer =>
    obtain ⟨books,added,rfl⟩ := ranInsertBook ran
    intro b mem
    rcases (Table.memInsert added b).mp mem with old | rfl
    · exact joined b old
    · obtain ⟨d,t,found,kept⟩ := real _ writer
      obtain ⟨row,_⟩ := Option.filter_eq_some_iff.mp found
      obtain ⟨a',stored⟩ := kept _ _ row
      refine ⟨a',?_⟩
      show before.authors.find author.id.text = some a'
      rw [(Table.findSound row).2]; exact stored
  | deleteAuthor =>
    refine quietly fun x mem => ?_
    rcases List.mem_cons.mp mem with rfl | inside
    · rfl
    · obtain ⟨b,_,rfl⟩ := List.mem_map.mp inside
      simp [tied]
  | updateBook =>
    refine quietly fun x mem => ?_
    simp only [List.mem_singleton] at mem
    subst mem
    unfold BookService.updated
    split <;> simp [tied]
  | createLoan => exact quietly (by simp [tied,LoanService.restocked])
  | returnLoan => exact quietly (by simp [tied,LoanService.restocked])
  | cancelLoan => exact quietly (by simp [tied,LoanService.restocked])
  | _ => exact quietly (by simp [tied])

end Authors

section Answers
variable {seen : Seen} {own : Log} {before after d d' : Database} {r : Request} {writes : List Write}
  {k : String}

theorem findByIdRow {b : BookModel} {a : AuthorModel} : findById d k = some (b,a) ↔
    d.books.find k = some b ∧ d.authors.find b.authorId.text = some a ∧ b.isActive = true ∧ a.isActive = true := by
  unfold findById
  cases book : d.books.find k with
  | none => simp
  | some b' =>
    cases author : d.authors.find b'.authorId.text with
    | none =>
      simp only [Option.bind_eq_bind,Option.bind_some,author,Option.bind_none]
      refine iff_of_false (by simp) fun row => ?_
      cases Option.some.inj row.1
      rw [author] at row
      exact absurd row.2.1 (by simp)
    | some a' =>
      simp only [Option.bind_eq_bind,Option.bind_some,author]
      split
      · rename_i active
        rw [Bool.and_eq_true] at active
        constructor
        · intro same
          cases same
          exact ⟨rfl,author,active.1,active.2⟩
        · rintro ⟨same,found,_⟩
          cases same
          cases author.symm.trans found
          rfl
      · rename_i hidden
        refine iff_of_false (by simp) fun row => hidden ?_
        obtain ⟨same,found,up,up'⟩ := row
        cases same
        cases author.symm.trans found
        rw [up,up']; rfl

structure Untouched (d d' : Database) : Prop where
  books : d'.books = d.books
  authors : ∀ k a, d.authors.find k = some a → d'.authors.find k = some a

def quiet : Write → Bool
  | .insertBook _ => false
  | .updateBook _ _ => false
  | .updateAuthor _ _ => false
  | _ => true

theorem quietUntouched {x : Write} (still : quiet x = true) (ran : x.exec d = .ok d') : Untouched d d' := by
  cases x with
  | insertBook row => contradiction
  | updateBook l c => contradiction
  | updateAuthor l c => contradiction
  | insertAuthor row =>
    obtain ⟨t,added,rfl⟩ := Database.insertAuthorRan ran
    exact ⟨rfl,fun k a found => Database.insertKeeps added found⟩
  | insertUser row => obtain ⟨_,_,_,rfl⟩ := Database.insertUserRan ran; exact ⟨rfl,fun _ _ found => found⟩
  | insertLoan row => obtain ⟨_,_,rfl⟩ := Database.insertLoanRan ran; exact ⟨rfl,fun _ _ found => found⟩
  | insertReservation row =>
    obtain ⟨_,_,rfl⟩ := Database.insertReservationRan ran; exact ⟨rfl,fun _ _ found => found⟩
  | updateUser l c => obtain rfl := Database.updateUserRan ran; exact ⟨rfl,fun _ _ found => found⟩
  | _ => cases ran; exact ⟨rfl,fun _ _ found => found⟩

theorem untouchedAnswer (same : Untouched d d') {row : BookModel × AuthorModel}
    (found : findById d k = some row) : findById d' k = some row := by
  obtain ⟨book,author,up,up'⟩ := findByIdRow.mp found
  exact findByIdRow.mpr ⟨same.books ▸ book,same.authors _ _ author,up,up'⟩

theorem untouchedRows (same : Untouched d d') (joined : Joined d) : withAuthors d' = withAuthors d := by
  unfold withAuthors
  rw [same.books]
  refine List.filterMap_congr fun b mem => ?_
  obtain ⟨a,found⟩ := joined b mem
  rw [found,same.authors _ _ found]

def changes (d : Database) (k : String) : Request → Bool
  | .updateBook bookId _ => bookId == k
  | .deleteBook bookId => bookId == k
  | .updateAuthor _ _ => true
  | .deleteAuthor _ => true
  | .createLoan data => data.bookId == k
  | .returnLoan loanId => (d.loans.find loanId).any fun l => l.bookId.text == k
  | .cancelLoan loanId => (d.loans.find loanId).any fun l => l.bookId.text == k
  | _ => false

def relists : Request → Bool
  | .createBook _ => true
  | .updateBook _ _ => true
  | .deleteBook _ => true
  | .updateAuthor _ _ => true
  | .deleteAuthor _ => true
  | .createLoan _ => true
  | .returnLoan _ => true
  | .cancelLoan _ => true
  | _ => false

theorem otherBook {l c : BookModel} (other : l.id.text ≠ k) (books : d'.books = storeBook d.books l c)
    (authors : d'.authors = d.authors) {row : BookModel × AuthorModel} (found : findById d k = some row) :
    findById d' k = some row := by
  obtain ⟨book,author,up,up'⟩ := findByIdRow.mp found
  refine findByIdRow.mpr ⟨?_,authors ▸ author,up,up'⟩
  rw [books]
  unfold storeBook
  rw [Table.findModify,if_neg (Ne.symm other)]
  exact book

theorem effectUntouched (e : Effect seen own before r writes) (ran : execAll writes before = .ok after)
    (same : relists r = false) : Untouched before after := by
  have quietly {x : Write} (still : quiet x = true) (ran : execAll [x] before = .ok after) :
      Untouched before after := quietUntouched still (ranOne ran)
  cases e with
  | createBook => contradiction
  | updateBook => contradiction
  | deleteBook => contradiction
  | updateAuthor => contradiction
  | deleteAuthor => contradiction
  | createLoan => contradiction
  | returnLoan => contradiction
  | cancelLoan => contradiction
  | _ => exact quietly rfl ran

theorem answerStep (e : Effect seen own before r writes) (ran : execAll writes before = .ok after)
    (same : changes before k r = false) {row : BookModel × AuthorModel} (found : findById before k = some row) :
    findById after k = some row := by
  cases e with
  | createBook =>
    obtain ⟨books,added,rfl⟩ := ranInsertBook ran
    obtain ⟨book,author,up,up'⟩ := findByIdRow.mp found
    exact findByIdRow.mpr ⟨Database.insertKeeps added book,author,up,up'⟩
  | updateBook _ _ id =>
    have stored := ranUpdateBook ran
    refine otherBook ?_ (congrArg Database.books stored) (by rw [stored]) found
    simpa [changes,id] using same
  | deleteBook _ _ id =>
    have stored := ranUpdateBook ran
    refine otherBook ?_ (congrArg Database.books stored) (by rw [stored]) found
    simpa [changes,id] using same
  | updateAuthor => contradiction
  | deleteAuthor => contradiction
  | createLoan _ _ _ stock =>
    obtain ⟨loans,_,stored⟩ := ranLend ran
    have id := (Table.findSound stock).2
    refine otherBook ?_ (congrArg Database.books stored) (by rw [stored]) found
    simpa [changes,id] using same
  | returnLoan _ lent _ stock =>
    have stored := ranClose ran
    have id := (Table.findSound stock).2
    refine otherBook ?_ (congrArg Database.books stored) (by rw [stored]) found
    simpa [changes,lent,id] using same
  | cancelLoan _ lent _ stock =>
    have stored := ranClose ran
    have id := (Table.findSound stock).2
    refine otherBook ?_ (congrArg Database.books stored) (by rw [stored]) found
    simpa [changes,lent,id] using same
  | notify => exact untouchedAnswer (quietUntouched rfl (ranOne ran)) found
  | _ => exact untouchedAnswer (quietUntouched rfl (ranOne ran)) found

end Answers
end LibraryApi.CatalogueHistory
