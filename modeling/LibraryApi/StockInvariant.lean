import LibraryApi.CommittedRows

/-! The stock of a book is kept twice: as counters of its row and as its ACTIVE
loans. One request after another, the two always agree, so the guard of
`update_book`, which trusts the counters, is the guard on open loans. -/
namespace LibraryApi.StockInvariant
open Models KeyedTable Repositories Requests Effects Runs CommittedRows
open LoanService (restocked newLoan)
open Program (execAll Path stateAfter seenLast)

def openLoan (book : Uuid) (l : LoanModel) : Bool := l.bookId == book && l.status == .active

def activeLoans (d : Database) (book : Uuid) : Nat := d.loans.count (openLoan book)

def surplus (d : Database) (book : Uuid) (b : BookModel) : Int :=
  b.availableCopies + activeLoans d book - b.totalCopies

def Balanced (d : Database) (book : Uuid) : Prop :=
  ∀ b, d.books.find book.text = some b → surplus d book b = 0

def Referenced (d : Database) : Prop := ∀ l ∈ d.loans.rows, ∃ b, d.books.find l.bookId.text = some b

structure Exchange (d d' : Database) : Prop where
  kept : ∀ (book : Uuid) b, d.books.find book.text = some b →
    ∃ b', d'.books.find book.text = some b' ∧ surplus d' book b' = surplus d book b ∧
      (0 ≤ b.availableCopies → 0 ≤ b'.availableCopies)
  none : ∀ k, d.books.find k = none → d'.books.find k = none
  referenced : Referenced d → Referenced d'

theorem exchangeTrans {a b c : Database} (left : Exchange a b) (right : Exchange b c) :
    Exchange a c := by
  refine ⟨fun book r found => ?_,fun k h => right.none k (left.none k h),
    fun h => right.referenced (left.referenced h)⟩
  obtain ⟨r₁,found₁,same₁,low₁⟩ := left.kept book r found
  obtain ⟨r₂,found₂,same₂,low₂⟩ := right.kept book r₁ found₁
  exact ⟨r₂,found₂,same₂.trans same₁,fun low => low₂ (low₁ low)⟩

theorem exchangeBalanced {d d' : Database} (x : Exchange d d') {book : Uuid} (h : Balanced d book) :
    Balanced d' book := by
  intro b' found'
  cases found : d.books.find book.text with
  | none => rw [x.none _ found] at found'; contradiction
  | some b =>
    obtain ⟨b₁,found₁,same,_⟩ := x.kept book b found
    cases Option.some.inj (found'.symm.trans found₁)
    rw [same,h b found]

theorem exchangeSame {d d' : Database} (books : d'.books = d.books) (loans : d'.loans = d.loans) :
    Exchange d d' := by
  refine ⟨fun book b found => ⟨b,by rw [books]; exact found,?_,id⟩,fun k h => by rw [books]; exact h,
    fun h => ?_⟩
  · unfold surplus activeLoans; rw [loans]
  · unfold Referenced at h ⊢
    rw [books,loans]; exact h

theorem exchangeRefl (d : Database) : Exchange d d := exchangeSame rfl rfl

theorem rebooked {d : Database} {l c : BookModel}
    (lent : ∀ s, d.books.find l.id.text = some s →
      (l.flush c s).totalCopies - (l.flush c s).availableCopies = s.totalCopies - s.availableCopies ∧
        (0 ≤ s.availableCopies → 0 ≤ (l.flush c s).availableCopies)) :
    Exchange d {d with books := storeBook d.books l c} := by
  have find (k : String) : (storeBook d.books l c).find k =
      if k = l.id.text then (d.books.find k).map (l.flush c) else d.books.find k :=
    Table.findModify k
  refine ⟨fun book b found => ?_,fun k h => ?_,fun h x mem => ?_⟩
  · show ∃ b', (storeBook d.books l c).find book.text = some b' ∧ _
    rw [find]
    split
    · rename_i here
      obtain ⟨same,low⟩ := lent b (here ▸ found)
      refine ⟨_,by rw [found]; rfl,?_,low⟩
      show _ + (activeLoans d book : Int) - _ = _ + (activeLoans d book : Int) - _
      omega
    · exact ⟨b,found,rfl,id⟩
  · show (storeBook d.books l c).find k = none
    rw [find,h]; simp
  · obtain ⟨b,found⟩ := h x mem
    show ∃ b', (storeBook d.books l c).find _ = some b'
    rw [find,found]
    split
    · exact ⟨_,rfl⟩
    · exact ⟨_,rfl⟩

theorem rescheduled {d : Database} {l c : LoanModel} (book : c.bookId = l.bookId)
    (status : c.status = l.status) : Exchange d {d with loans := storeLoan d.loans l c} := by
  have count (k : Uuid) : (storeLoan d.loans l c).count (openLoan k) = d.loans.count (openLoan k) :=
    Table.countModifySame fun s _ => by simp [openLoan,LoanModel.flush,book,status]
  refine ⟨fun k b found => ⟨b,found,?_,id⟩,fun _ h => h,fun h x mem => ?_⟩
  · unfold surplus activeLoans; rw [count]
  · obtain ⟨old,ho,same⟩ := storedBookId book mem
    rw [same]
    exact h old ho

theorem openedCount {loans loans' : Table (fun r : LoanModel => r.id.text)} {l : LoanModel}
    (added : loans.insert l = some loans') (active : l.status = .active) (book : Uuid) :
    loans'.count (openLoan book) = loans.count (openLoan book) + if l.bookId = book then 1 else 0 := by
  rw [Table.countInsert added]
  simp [openLoan,active]

theorem closedCount {loans : Table (fun r : LoanModel => r.id.text)} {l c : LoanModel}
    (found : loans.find l.id.text = some l) (same : c.id = l.id) (active : l.status = .active)
    (closed : c.status ≠ .active) (book : Uuid) :
    (storeLoan loans l c).count (openLoan book) + (if l.bookId = book then 1 else 0) =
      loans.count (openLoan book) := by
  have changed := storedCount found same (openLoan book)
  simpa [openLoan,active,closed] using changed

theorem restockedRow {d d' : Database} {b : BookModel} {n : Int}
    (stock : d.books.find b.id.text = some b)
    (books : d'.books = storeBook d.books b (restocked b n))
    (count : ∀ book, (activeLoans d' book : Int) =
      activeLoans d book - if b.id = book then n else 0)
    (low : 0 ≤ b.availableCopies → 0 ≤ b.availableCopies + n)
    (referenced : Referenced d → ∀ x ∈ d'.loans.rows,
      x.bookId = b.id ∨ ∃ r, d.books.find x.bookId.text = some r) : Exchange d d' := by
  have find (k : String) : d'.books.find k =
      if k = b.id.text then some (restocked b n) else d.books.find k := by
    rw [books]; exact storedBook (c := restocked b n) stock rfl k
  refine ⟨fun book r found => ?_,fun k h => ?_,fun h x mem => ?_⟩
  · rw [find]
    have moved := count book
    split
    · rename_i here
      obtain rfl := uuidExt here
      rw [stock] at found
      cases found
      rw [if_pos rfl] at moved
      refine ⟨_,rfl,?_,low⟩
      simp only [surplus,restocked]
      omega
    · rename_i other
      rw [if_neg fun e => other (by rw [e])] at moved
      refine ⟨r,found,?_,id⟩
      unfold surplus
      omega
  · rw [find]
    split
    · rename_i here; rw [here,stock] at h; contradiction
    · exact h
  · rw [find]
    split
    · exact ⟨_,rfl⟩
    · rename_i other
      rcases referenced h x mem with here | found
      · exact absurd (by rw [here]) other
      · exact found

theorem lendExchange {d : Database} {loans : Table (fun r : LoanModel => r.id.text)} {b : BookModel}
    {l : LoanModel} (stock : d.books.find b.id.text = some b) (available : 0 < b.availableCopies)
    (added : d.loans.insert l = some loans) (active : l.status = .active) (book : l.bookId = b.id) :
    Exchange d {d with books := storeBook d.books b (restocked b (-1)),loans := loans} := by
  refine restockedRow stock rfl (fun k => ?_) (fun _ => by omega) fun h x mem => ?_
  · have opened := openedCount added active k
    rw [book] at opened
    show (loans.count (openLoan k) : Int) = d.loans.count (openLoan k) - _
    by_cases here : b.id = k <;> simp only [here,if_true,if_false] at opened ⊢ <;> omega
  · rcases (Table.memInsert added x).mp mem with old | rfl
    · exact .inr (h x old)
    · exact .inl book

theorem closeExchange {d : Database} {b : BookModel} {l c : LoanModel}
    (stock : d.books.find b.id.text = some b) (found : d.loans.find l.id.text = some l)
    (same : c.id = l.id) (active : l.status = .active) (closed : c.status ≠ .active)
    (book : l.bookId = b.id) (kept : c.bookId = l.bookId) :
    Exchange d {d with
      books := storeBook d.books b (restocked b 1)
      loans := storeLoan d.loans l c} := by
  refine restockedRow stock rfl (fun k => ?_) (fun _ => by omega) fun h x mem => ?_
  · have count := closedCount found same active closed k
    rw [book] at count
    show ((storeLoan d.loans l c).count (openLoan k) : Int) = d.loans.count (openLoan k) - _
    by_cases here : b.id = k <;> simp only [here,if_true,if_false] at count ⊢ <;> omega
  · obtain ⟨old,ho,id⟩ := storedBookId kept mem
    rw [id]
    exact .inr (h old ho)

theorem retired {d : Database} (b : BookModel) :
    Exchange d {d with books := storeBook d.books b {b with isActive := false}} :=
  rebooked fun s _ => by simp [BookModel.flush]

theorem elsewhereExchange {d d' : Database} {x : Write} (other : elsewhere x = true)
    (ran : execAll [x] d = .ok d') : Exchange d d' :=
  exchangeSame (elsewhereRan other (ranOne ran)).1 (elsewhereRan other (ranOne ran)).2

theorem updatedLent (b : BookModel) (data : BookService.UpdateBookSchema) :
    (BookService.updated b data).totalCopies - (BookService.updated b data).availableCopies =
      b.totalCopies - b.availableCopies := by
  unfold BookService.updated
  cases data.totalCopies with
  | none => rfl
  | some n => simp only; omega

theorem updatedLow {b : BookModel} {data : BookService.UpdateBookSchema}
    (enough : ∀ n ∈ data.totalCopies, b.totalCopies - b.availableCopies ≤ n)
    (low : 0 ≤ b.availableCopies) : 0 ≤ (BookService.updated b data).availableCopies := by
  unfold BookService.updated
  cases total : data.totalCopies with
  | none => exact low
  | some n =>
    have := enough n (by rw [total]; rfl)
    simp only
    omega

theorem updatedId (b : BookModel) (data : BookService.UpdateBookSchema) :
    (BookService.updated b data).id = b.id := by
  unfold BookService.updated
  cases data.totalCopies <;> rfl

section Effects
variable {seen : Seen} {own : Log} {before after : Database}

theorem effectExchange {r : Request} {writes : List Write}
    (fresh : ∀ bookId data, r = .updateBook bookId data → ∀ P, seen P → ∃ t, P before t)
    (e : Effect seen own before r writes) (ran : execAll writes before = .ok after)
    (other : ∀ data, r ≠ .createBook data) : Exchange before after := by
  cases e with
  | createBook => exact absurd rfl (other _)
  | @updateBook bookId data book author _ visible _ enough =>
    obtain ⟨_,row⟩ := fresh _ _ rfl _ visible
    have found := (ServiceRules.visibleBook row).1
    obtain rfl := (Table.findSound found).2
    obtain rfl := ranUpdateBook ran
    refine rebooked fun s stored => ?_
    cases Option.some.inj (found.symm.trans stored)
    rw [bookFlush (updatedId book data)]
    exact ⟨updatedLent book data,updatedLow enough⟩
  | @deleteBook bookId book => obtain rfl := ranUpdateBook ran; exact retired book
  | @deleteAuthor authorId author books =>
    refine Program.execAllKeeps exchangeRefl exchangeTrans (fun x mem d d' step => ?_) ran
    rcases List.mem_cons.mp mem with rfl | inside
    · obtain ⟨books,loans⟩ := elsewhereRan rfl step
      exact exchangeSame books loans
    · obtain ⟨b,_,rfl⟩ := List.mem_map.mp inside
      obtain rfl := Database.updateBookRan step
      exact retired b
  | @createLoan data user book id now createdAt _ _ _ stock _ available =>
    obtain ⟨loans,added,rfl⟩ := ranLend ran
    rw [← (Table.findSound stock).2] at stock
    exact lendExchange stock available added rfl rfl
  | @returnLoan loanId loan book now _ found active stock =>
    obtain rfl := ranClose ran
    obtain rfl := (Table.findSound found).2
    have bookId := (Table.findSound stock).2
    rw [← bookId] at stock
    exact closeExchange stock found rfl active (nofun) (uuidExt bookId.symm) rfl
  | @cancelLoan loanId loan book now _ found active stock =>
    obtain rfl := ranClose ran
    obtain rfl := (Table.findSound found).2
    have bookId := (Table.findSound stock).2
    rw [← bookId] at stock
    exact closeExchange stock found rfl active (nofun) (uuidExt bookId.symm) rfl
  | renewLoan => obtain rfl := ranUpdateLoan ran; exact rescheduled rfl rfl
  | payFine => obtain rfl := ranUpdateLoan ran; exact rescheduled rfl rfl
  | updateLoan _ _ _ _ checked =>
    obtain rfl := ranUpdateLoan ran
    rcases checked with ⟨_,rfl⟩ | ⟨t,_,_,rfl⟩ <;> exact rescheduled rfl rfl
  | createAuthor => exact elsewhereExchange rfl ran
  | updateAuthor => exact elsewhereExchange rfl ran
  | createUser => exact elsewhereExchange rfl ran
  | updateUser => exact elsewhereExchange rfl ran
  | updateRole => exact elsewhereExchange rfl ran
  | deleteUser => exact elsewhereExchange rfl ran
  | createReservation => exact elsewhereExchange rfl ran
  | cancelReservation => exact elsewhereExchange rfl ran
  | notify => exact elsewhereExchange rfl ran

theorem createdBook {data : BookService.CreateBookSchema} {writes : List Write}
    (e : Effect seen own before (.createBook data) writes) : ∃ b, writes = [.insertBook b] := by
  cases e with
  | createBook => exact ⟨_,rfl⟩
  | notify _ about => exact about.elim

theorem bornBook {r : Request} {writes : List Write} {row : BookModel}
    (e : Effect seen own before r writes) (mem : .insertBook row ∈ writes) :
    (∃ data, r = .createBook data) ∧ writes = [.insertBook row] ∧
      row.availableCopies = row.totalCopies := by
  cases e with
  | createBook =>
    simp only [List.mem_singleton,Write.insertBook.injEq] at mem
    subst mem
    exact ⟨⟨_,rfl⟩,rfl,rfl⟩
  | deleteAuthor => simp [AuthorRepository.deactivate] at mem
  | _ => simp at mem

theorem addedBook {books : Table (fun r : BookModel => r.id.text)} {b : BookModel} {d : Database}
    (added : d.books.insert b = some books) (full : b.availableCopies = b.totalCopies)
    (referenced : Referenced d) {book : Uuid} (h : Balanced d book) :
    Balanced {d with books := books} book := by
  intro row found
  replace found : books.find book.text = some row := found
  rw [Table.findInsert added] at found
  split at found
  · rename_i here
    cases found
    have none : activeLoans d book = 0 := by
      refine List.countP_eq_zero.mpr fun l mem => ?_
      obtain ⟨old,stored⟩ := referenced l mem
      have other : l.bookId ≠ book := by
        rintro rfl
        rw [← here,(Table.insertRows added).2] at stored
        contradiction
      simp [openLoan,other]
    show _ + (activeLoans d book : Int) - _ = 0
    rw [none,full]; omega
  · exact h row found

end Effects

structure Stocked (h : Log) (d : Database) : Prop where
  balanced : ∀ book, Balanced d book
  referenced : Referenced d
  born : ∀ m ∈ h, ∀ row, .insertBook row ∈ m.writes →
    ∃ b, d.books.find row.id.text = some b ∧ (0 ≤ row.totalCopies → 0 ≤ b.availableCopies)

theorem newestRead {d : Database} {t clock : Int} {h : Log} {before : Database}
    (start : before = stateAfter d h) (P : Database → Int → Prop) (seen : seenLast d t h clock P) :
    ∃ t, P before t := by
  obtain ⟨t₀,_,_,held⟩ := seen
  exact ⟨t₀,start ▸ held⟩

theorem commitStocked {requests : Nat → Option Request} {t : Int} {h : Log} {m : Commit}
    (before : m.before = stateAfter .empty h) (ran : execAll m.writes m.before = .ok m.after)
    (effect : allowed (seenLast .empty t) requests h m) (ih : Stocked h m.before) :
    Stocked (m :: h) m.after := by
  obtain ⟨r,_,e⟩ := effect
  have kept : ∀ (book : Uuid) b, m.before.books.find book.text = some b →
      ∃ b', m.after.books.find book.text = some b' ∧
        (0 ≤ b.availableCopies → 0 ≤ b'.availableCopies) := by
    intro book b found
    by_cases new : ∃ data, r = .createBook data
    · obtain ⟨data,rfl⟩ := new
      obtain ⟨row,writes⟩ := createdBook e
      rw [writes] at ran
      obtain ⟨books,added,same⟩ := ranInsertBook ran
      rw [same]
      exact ⟨b,Database.insertKeeps added found,id⟩
    · obtain ⟨b',found',_,low⟩ := (effectExchange (fun _ _ _ => newestRead before) e ran
        fun data same => new ⟨data,same⟩).kept book b found
      exact ⟨b',found',low⟩
  have rest (old : Commit) (mem : old ∈ h) (row : BookModel) (made : .insertBook row ∈ old.writes) :
      ∃ b, m.after.books.find row.id.text = some b ∧
        (0 ≤ row.totalCopies → 0 ≤ b.availableCopies) := by
    obtain ⟨b,found,low⟩ := ih.born old mem row made
    obtain ⟨b',found',low'⟩ := kept _ b found
    exact ⟨b',found',fun total => low' (low total)⟩
  by_cases new : ∃ row, .insertBook row ∈ m.writes
  · obtain ⟨row,mem⟩ := new
    obtain ⟨_,writes,full⟩ := bornBook e mem
    rw [writes] at ran
    obtain ⟨books,added,same⟩ := ranInsertBook ran
    refine ⟨fun book => ?_,?_,fun old inside row' made => ?_⟩
    · rw [same]; exact addedBook added full ih.referenced (ih.balanced book)
    · intro l stored
      rw [same] at stored
      obtain ⟨b,found⟩ := ih.referenced l stored
      exact (kept _ b found).imp fun _ h => h.1
    · rcases List.mem_cons.mp inside with rfl | earlier
      · rw [writes] at made
        simp only [List.mem_singleton,Write.insertBook.injEq] at made
        subst made
        refine ⟨row',?_,fun low => by omega⟩
        rw [same]
        show books.find row'.id.text = some row'
        rw [Table.findInsert added,if_pos rfl]
      · exact rest old earlier row' made
  · have exchange : Exchange m.before m.after := by
      refine effectExchange (fun _ _ _ => newestRead before) e ran fun data same => new ?_
      subst same
      obtain ⟨row,writes⟩ := createdBook e
      exact ⟨row,by rw [writes]; exact List.mem_singleton_self _⟩
    refine ⟨fun book => exchangeBalanced exchange (ih.balanced book),
      exchange.referenced ih.referenced,fun old inside row made => ?_⟩
    rcases List.mem_cons.mp inside with rfl | earlier
    · exact absurd ⟨row,made⟩ new
    · exact rest old earlier row made

theorem emptyStocked : Stocked [] .empty := by
  refine ⟨fun book b found => ?_,fun l mem => ?_,nofun⟩
  · exact nomatch (Table.findEmpty _).symm.trans found
  · exact absurd mem List.not_mem_nil

theorem pathStocked {requests : Nat → Option Request} {t : Int} {h : Log}
    (path : SequentialPath requests .empty t h) : Stocked h (stateAfter .empty h) := by
  induction path with
  | start => exact emptyStocked
  | commit rest before ran clock effect ih => exact commitStocked before ran effect (before ▸ ih)

def tooFew : ApiError := .businessRule "total_copies não pode ser menor que livros emprestados"

theorem updateBookGuard {c : ServiceRules.Contract} (fair : c.Fair) (free : ∀ h m, c.effect h m)
    {w : World} (keep : ∀ w', c.rely w w' → w'.db = w.db) {bookId : String} {book : BookModel}
    {author : AuthorModel} (data : BookService.UpdateBookSchema)
    (visible : BookRepository.findById w.db bookId = some (book,author)) :
    Program.wp c (fun _ _ _ => ¬ ∃ n ∈ data.totalCopies, n < book.totalCopies - book.availableCopies)
      (fun e _ => e = tooFew ↔ ∃ n ∈ data.totalCopies, n < book.totalCopies - book.availableCopies)
      (BookService.updateBook bookId data) [] w := by
  refine ServiceRules.findRule (fun w₁ r₁ none => ?_) fun w₁ row r₁ found => ?_
  · rw [keep w₁ r₁,visible] at none; contradiction
  rw [keep w₁ r₁,visible] at found
  cases found
  refine ServiceRules.refuseRule (fun few => iff_of_true rfl few) fun enough => ?_
  refine Program.wpBind.mpr (ServiceRules.storeRule fair (fun w₂ d _ _ => free _ _)
    (fun b w₂ m _ _ => ?_) fun e w₂ _ failed => iff_of_false ?_ enough)
  rotate_left
  · rcases Database.execFails failed with rfl | ⟨_,rfl⟩ <;> exact nofun
  refine Program.readingThen (ServiceRules.forgetBookReading fair _) (fun _ w₃ _ => enough)
    fun e w₃ _ down => iff_of_false ?_ enough
  rw [down.1]; exact nofun

theorem reachedStocked {requests : Nat → Option Request} {t : Int} {k : Nat} {w : World}
    (h : Reached requests .empty t k w) : Stocked w.history w.db := h.root.db ▸ pathStocked h.path

theorem refusedByLoans {requests : Nat → Option Request} {t : Int} {k : Nat} {w : World}
    (h : Reached requests .empty t k w) {bookId : String} {book : BookModel} {author : AuthorModel}
    (data : BookService.UpdateBookSchema) (env : Oracle)
    (visible : BookRepository.findById w.db bookId = some (book,author)) :
    (serve k (.updateBook bookId data) w env).1 = .error tooFew ↔
      ∃ n, data.totalCopies = some n ∧ n < activeLoans w.db book.id := by
  have found := (ServiceRules.visibleBook visible).1
  rw [← (Table.findSound found).2] at found
  have lent : book.totalCopies - book.availableCopies = activeLoans w.db book.id := by
    have := (reachedStocked h).balanced book.id book found
    unfold surplus at this
    omega
  have guard := updateBookGuard (c := Program.still k (fun _ => True) fun _ _ => True)
    Program.stillFair (fun _ _ => trivial) (fun _ r => r.db) data visible
  have ended := answerEnded .book env h rfl (Program.Quiet.refl k) (fun _ => trivial) guard
  rw [lent] at ended
  unfold serve handle
  split at ended <;> rename_i outcome <;> rw [outcome]
  · obtain ⟨_,_,_,_,enough,_⟩ := ended
    exact iff_of_false nofun enough
  · obtain ⟨_,refused,_⟩ := ended
    simpa using refused

/-- Counters and ACTIVE loans of every book agree after any run of requests, the
counters stay in range, and `update_book` refuses to go below the open loans. -/
theorem stockAgreesWithLoans (t : Int) (calls : List (Request × Oracle)) :
    let w := (serveAll 0 (opening t) calls).2
    (∀ b ∈ w.db.books.rows, b.availableCopies + activeLoans w.db b.id = b.totalCopies) ∧
    (∀ m ∈ w.history, ∀ row, .insertBook row ∈ m.writes → 0 ≤ row.totalCopies →
      ∀ b ∈ w.db.books.rows, b.id = row.id →
        0 ≤ b.availableCopies ∧ b.availableCopies ≤ b.totalCopies) ∧
    ∀ bookId book author data env, BookRepository.findById w.db bookId = some (book,author) →
      ((serve calls.length (.updateBook bookId data) w env).1 = .error tooFew ↔
        ∃ n, data.totalCopies = some n ∧ n < activeLoans w.db book.id) := by
  intro w
  have reached : Reached (requestsOf calls) .empty t calls.length w := reachedAll fun _ _ sent => sent
  have stocked := reachedStocked reached
  have balanced (b : BookModel) (mem : b ∈ w.db.books.rows) :
      b.availableCopies + activeLoans w.db b.id = b.totalCopies := by
    have := stocked.balanced b.id b (Table.findComplete mem)
    unfold surplus at this
    omega
  refine ⟨balanced,fun m mem row made total b stored same => ?_,fun _ _ _ data env visible =>
    refusedByLoans reached data env visible⟩
  obtain ⟨b',found,low⟩ := stocked.born m mem row made
  rw [← same,Table.findComplete stored] at found
  cases found
  have := balanced b stored
  have := low total
  omega

end LibraryApi.StockInvariant
