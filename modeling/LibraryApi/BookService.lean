import LibraryApi.Repositories

/-! The catalogue: books and authors. `update_book` and the two deletions read
with a plain SELECT and never look at loans; the stock guard trusts the two
counters of the row. -/
namespace LibraryApi.BookService
open Models CacheService Repositories
open Program (select write commit now)

structure CreateBookSchema where
  title : String
  isbn : String
  category : String
  totalCopies : Int
  authorId : String
  deriving DecidableEq

structure UpdateBookSchema where
  title : Option String
  category : Option String
  totalCopies : Option Int
  deriving DecidableEq

def serializeBook (book : BookModel) (author : AuthorModel) : BookView :=
  ⟨book.id,book.title,book.isbn,book.category,book.totalCopies,book.availableCopies,
    ⟨author.id,author.name⟩,book.createdAt⟩

def detailKey (bookId : String) : String := "book:" ++ bookId

def pyText : Option String → String
  | none => "None"
  | some s => s

def pyBool : Option Bool → String
  | none => "None"
  | some true => "True"
  | some false => "False"

def listKey (p : Pagination) (f : BookRepository.Filters) : String :=
  "books:list:" ++ toString p.page ++ ":" ++ toString p.size ++ ":" ++ pyText f.title ++ ":" ++
    pyText f.category ++ ":" ++ pyText f.author ++ ":" ++ pyBool f.available

def forgetBook (bookId : String) : Service Unit := do
  delete (detailKey bookId)
  deletePattern "books:list*"

def newBook (data : CreateBookSchema) (author : AuthorModel) (id : Uuid) (createdAt : Int) :
    BookModel :=
  {id := id,title := data.title,isbn := data.isbn,category := data.category,
    totalCopies := data.totalCopies,availableCopies := data.totalCopies,
    authorId := author.id,createdAt := createdAt,isActive := true}

def createBook (data : CreateBookSchema) : Service BookView := do
  let existing ← scalarOneOrNone (← select fun d => BookRepository.findByIsbn d data.isbn)
  refuse (existing.isSome) (.businessRule "ISBN já cadastrado")
  let author ← require (.notFound "Autor não encontrado")
    (← select fun d => AuthorRepository.findById d data.authorId)
  let id ← newUuid
  let createdAt ← now
  let book := newBook data author id createdAt
  write (.insertBook book)
  commit
  let stored ← select fun d => (d.books.find id.text).getD book
  deletePattern "books:list*"
  return serializeBook stored author

def listBooksPaginated (p : Pagination) (f : BookRepository.Filters) : Service Payload := do
  match ← get (listKey p f) with
  | some cached => return cached
  | none =>
    let (books,total) ← BookRepository.listBooksPaginated p f
    let response := Payload.books
      ⟨books.map (fun b => serializeBook b.1 b.2),total,p.page,p.size⟩
    set (listKey p f) response
    return response

def getBook (bookId : String) : Service Payload := do
  match ← get (detailKey bookId) with
  | some cached => return cached
  | none =>
    let (book,author) ← require (.notFound "Livro não encontrado")
      (← select fun d => BookRepository.findById d bookId)
    let view := Payload.book (serializeBook book author)
    set (detailKey bookId) view
    return view

/- An empty title or category is falsy and keeps the old one. -/
def truthy (new : Option String) (old : String) : String := match new with
  | none => old
  | some s => if s.isEmpty then old else s

def updated (book : BookModel) (data : UpdateBookSchema) : BookModel :=
  let renamed := {book with
    title := truthy data.title book.title
    category := truthy data.category book.category}
  match data.totalCopies with
  | none => renamed
  | some n => {renamed with
    totalCopies := n
    availableCopies := book.availableCopies + (n - book.totalCopies)}

def updateBook (bookId : String) (data : UpdateBookSchema) : Service BookModel := do
  let (book,_) ← require (.notFound "Livro não encontrado")
    (← select fun d => BookRepository.findById d bookId)
  let borrowedBooks := book.totalCopies - book.availableCopies
  refuse (∃ n ∈ data.totalCopies, n < borrowedBooks)
    (.businessRule "total_copies não pode ser menor que livros emprestados")
  let updatedBook ← BookRepository.update book (updated book data)
  forgetBook bookId
  return updatedBook

def deleteBook (bookId : String) : Service Unit := do
  let (book,_) ← require (.notFound "Livro não encontrado")
    (← select fun d => BookRepository.findById d bookId)
  BookRepository.softDelete book
  forgetBook bookId

end LibraryApi.BookService
