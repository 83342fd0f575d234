import LibraryApi.Runs

/-! What the statements of a commit leave in the tables of books and loans. A row
whose lock was held is stored exactly as computed; of a row written without a
lock only the changed columns are. -/
namespace LibraryApi.CommittedRows
open Models KeyedTable Requests
open LoanService (restocked)
open Program (execAll execAllCons)

theorem bookFlush {l c : BookModel} (same : c.id = l.id) : l.flush c l = c := by
  cases c; cases l; simp_all [BookModel.flush]

theorem loanFlush {l c : LoanModel} (same : c.id = l.id) : l.flush c l = c := by
  cases c; cases l; simp_all [LoanModel.flush]

theorem bookKey (l c s : BookModel) : (l.flush c s).id.text = s.id.text := rfl
theorem loanKey (l c s : LoanModel) : (l.flush c s).id.text = s.id.text := rfl

section Rows
variable {books : Table (fun r : BookModel => r.id.text)}
  {loans : Table (fun r : LoanModel => r.id.text)}

def storeBook (books : Table (fun r : BookModel => r.id.text)) (l c : BookModel) :
    Table (fun r : BookModel => r.id.text) :=
  books.modify l.id.text (l.flush c) (bookKey l c)

def storeLoan (loans : Table (fun r : LoanModel => r.id.text)) (l c : LoanModel) :
    Table (fun r : LoanModel => r.id.text) :=
  loans.modify l.id.text (l.flush c) (loanKey l c)

theorem storedBook {l c : BookModel} (stock : books.find l.id.text = some l) (same : c.id = l.id)
    (k : String) :
    (storeBook books l c).find k = if k = l.id.text then some c else books.find k := by
  unfold storeBook
  rw [Table.findModify]
  split
  · rename_i here; rw [here,stock,Option.map_some,bookFlush same]
  · rfl

theorem storedLoan {l c : LoanModel} (found : loans.find l.id.text = some l) (same : c.id = l.id)
    (k : String) :
    (storeLoan loans l c).find k = if k = l.id.text then some c else loans.find k := by
  unfold storeLoan
  rw [Table.findModify]
  split
  · rename_i here; rw [here,found,Option.map_some,loanFlush same]
  · rfl

theorem bookReplaced {k : String} {l c : BookModel} (stock : books.find k = some l)
    (same : c.id = l.id) : (storeBook books l c).find k = some c := by
  obtain rfl := (Table.findSound stock).2
  rw [storedBook stock same,if_pos rfl]

theorem loanReplaced {k : String} {l c : LoanModel} (found : loans.find k = some l)
    (same : c.id = l.id) : (storeLoan loans l c).find k = some c := by
  obtain rfl := (Table.findSound found).2
  rw [storedLoan found same,if_pos rfl]

theorem storedCount {l c : LoanModel} (found : loans.find l.id.text = some l) (same : c.id = l.id)
    (p : LoanModel → Bool) :
    (storeLoan loans l c).count p + (if p l then 1 else 0) = loans.count p + if p c then 1 else 0 := by
  have changed := Table.countModify (f := l.flush c) (g := loanKey l c) found p
  rwa [loanFlush same] at changed

theorem storedBookMember {l c x : BookModel} (mem : x ∈ (storeBook books l c).rows) :
    ∃ old ∈ books.rows, x.id.text = old.id.text ∧
      x = if old.id.text = l.id.text then l.flush c old else old :=
  Table.memModify (g := bookKey l c) mem

theorem storedMember {l c x : LoanModel} (mem : x ∈ (storeLoan loans l c).rows) :
    ∃ old ∈ loans.rows, x.id.text = old.id.text ∧
      x = if old.id.text = l.id.text then l.flush c old else old :=
  Table.memModify (g := loanKey l c) mem

theorem storedBookId {l c x : LoanModel} (kept : c.bookId = l.bookId)
    (mem : x ∈ (storeLoan loans l c).rows) : ∃ old ∈ loans.rows, x.bookId = old.bookId := by
  obtain ⟨old,ho,_,rfl⟩ := storedMember mem
  refine ⟨old,ho,?_⟩
  split
  · simp [LoanModel.flush,kept]
  · rfl

theorem authorKey (l c s : AuthorModel) : (l.flush c s).id.text = s.id.text := rfl

def storeAuthor (authors : Table (fun r : AuthorModel => r.id.text)) (l c : AuthorModel) :
    Table (fun r : AuthorModel => r.id.text) :=
  authors.modify l.id.text (l.flush c) (authorKey l c)

theorem closedAuthor {authors : Table (fun r : AuthorModel => r.id.text)} {l c : AuthorModel} :
    (storeAuthor authors l c).find l.id.text = (authors.find l.id.text).map (l.flush c) := by
  unfold storeAuthor
  rw [Table.findModify,if_pos rfl]

end Rows

section Ran
variable {d d' : Database}

theorem ranOne {x : Write} (h : execAll [x] d = .ok d') : x.exec d = .ok d' := by
  obtain ⟨mid,ran,h⟩ := execAllCons.mp h
  cases h
  exact ran

theorem ranUpdateBook {l c : BookModel} (h : execAll ([.updateBook l c] : List Write) d = .ok d') :
    d' = {d with books := storeBook d.books l c} := Database.updateBookRan (ranOne h)

theorem ranUpdateLoan {l c : LoanModel} (h : execAll ([.updateLoan l c] : List Write) d = .ok d') :
    d' = {d with loans := storeLoan d.loans l c} := by
  cases h; rfl

theorem authorStored {l c : AuthorModel} (ran : (Write.updateAuthor l c).exec d = .ok d') :
    d' = {d with authors := storeAuthor d.authors l c} := Database.updateAuthorRan ran

theorem ranClose {b b' : BookModel} {l l' : LoanModel}
    (h : execAll ([.updateBook b b',.updateLoan l l'] : List Write) d = .ok d') :
    d' = {d with books := storeBook d.books b b',loans := storeLoan d.loans l l'} := by
  obtain ⟨mid,ran,h⟩ := execAllCons.mp h
  obtain rfl := Database.updateBookRan ran
  exact ranUpdateLoan h

theorem ranLend {b b' : BookModel} {l : LoanModel}
    (h : execAll ([.updateBook b b',.insertLoan l] : List Write) d = .ok d') :
    ∃ loans, d.loans.insert l = some loans ∧
      d' = {d with books := storeBook d.books b b',loans := loans} := by
  obtain ⟨mid,ran,h⟩ := execAllCons.mp h
  obtain rfl := Database.updateBookRan ran
  exact Database.insertLoanRan (ranOne h)

theorem ranInsertBook {b : BookModel} (h : execAll ([.insertBook b] : List Write) d = .ok d') :
    ∃ books, d.books.insert b = some books ∧ d' = {d with books := books} :=
  (Database.insertBookRan (ranOne h)).2

def elsewhere : Write → Bool
  | .insertBook _ => false
  | .updateBook _ _ => false
  | .insertLoan _ => false
  | .updateLoan _ _ => false
  | _ => true

theorem elsewhereRan {x : Write} (other : elsewhere x = true) (h : x.exec d = .ok d') :
    d'.books = d.books ∧ d'.loans = d.loans := by
  cases x with
  | insertUser row => obtain ⟨_,_,_,rfl⟩ := Database.insertUserRan h; exact ⟨rfl,rfl⟩
  | insertAuthor row => obtain ⟨_,_,rfl⟩ := Database.insertAuthorRan h; exact ⟨rfl,rfl⟩
  | insertReservation row => obtain ⟨_,_,rfl⟩ := Database.insertReservationRan h; exact ⟨rfl,rfl⟩
  | insertNotification row => cases h; exact ⟨rfl,rfl⟩
  | updateUser loaded current => obtain rfl := Database.updateUserRan h; exact ⟨rfl,rfl⟩
  | updateAuthor loaded current => obtain rfl := Database.updateAuthorRan h; exact ⟨rfl,rfl⟩
  | updateReservation loaded current => cases h; exact ⟨rfl,rfl⟩
  | insertBook _ => contradiction
  | updateBook _ _ => contradiction
  | insertLoan _ => contradiction
  | updateLoan _ _ => contradiction

end Ran
end LibraryApi.CommittedRows
