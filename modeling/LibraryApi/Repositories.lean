import LibraryApi.CacheService
import Mathlib.Data.List.Perm.Basic
import Mathlib.Data.List.Sort

/-! The queries of the repositories. A plain query is a function of the database
the session sees; the two locking queries filter the rows they lock. Rows of a
SELECT without ORDER BY come in whatever order the surroundings choose. -/
namespace LibraryApi.Repositories
open Models CacheService
open Program (Prog select lock write commit now)

structure Pagination where
  page : Nat
  size : Nat
  pageBound : 1 ≤ page
  sizeBound : 1 ≤ size ∧ size ≤ 100
  deriving DecidableEq

def Pagination.offset (p : Pagination) : Nat := (p.page - 1) * p.size

def Pagination.rows {α : Type} (p : Pagination) (rows : List α) : List α :=
  (rows.drop p.offset).take p.size

/- Each number picks the next row out of those that are left. -/
def arranged {α : Type} : List Nat → List α → List α
  | [], rows => rows
  | n :: order, rows => match rows[n]? with
    | some row => row :: arranged order (rows.eraseIdx n)
    | none => arranged order rows

theorem arrangedPerm {α : Type} (order : List Nat) (rows : List α) :
    (arranged order rows).Perm rows := by
  induction order generalizing rows with
  | nil => exact List.Perm.refl _
  | cons n order ih =>
    unfold arranged
    split
    · rename_i row found
      obtain ⟨bound,rfl⟩ := List.getElem?_eq_some_iff.mp found
      exact (List.Perm.cons _ (ih _)).trans (List.getElem_cons_eraseIdx_perm bound)
    · exact ih rows

/- A filter that is absent or the empty string selects everything. -/
def given (filter : Option String) (p : String → Bool) : Bool := match filter with
  | none => true
  | some s => s.isEmpty || p s

def ilike (lower : Char → Char) (column pattern : String) : Bool :=
  match Wildcard.readLike pattern.toList with
  | some pieces => Wildcard.fits lower pieces column.toList
  | none => false

namespace UserRepository

def findByEmail (d : Database) (email : String) : List UserModel :=
  d.users.rows.filter (fun u => u.email == email && u.isActive)

def findById (d : Database) (userId : String) : Option UserModel :=
  (d.users.find userId).filter (fun u => u.isActive)

def listUsersPaginated (p : Pagination) : Service (List UserModel × Nat) := do
  let order ← rowOrder
  let users ← select fun d : Database => p.rows (arranged order (d.users.rows.filter fun u => u.isActive))
  let total ← select fun d : Database => (d.users.rows.filter fun u => u.isActive).length
  return (users,total)

def update (loaded current : UserModel) : Service UserModel := do
  write (.updateUser loaded current)
  commit
  select fun d => (d.users.find loaded.id.text).getD current

end UserRepository

namespace AuthorRepository

def findById (d : Database) (authorId : String) : Option AuthorModel :=
  (d.authors.find authorId).filter (fun a => a.isActive)

def findByIdWithBooks (d : Database) (authorId : String) : Option (AuthorModel × List BookModel) :=
  (findById d authorId).map fun a => (a,d.books.rows.filter (fun b => b.authorId == a.id))

/- Rows created at one instant come in any order. -/
def listAuthorsPaginated (p : Pagination) : Service (List AuthorModel × Nat) := do
  let order ← rowOrder
  let authors ← select fun d : Database => p.rows
    ((arranged order (d.authors.rows.filter fun a => a.isActive)).insertionSort fun a b => a.createdAt ≤ b.createdAt)
  let total ← select fun d : Database => (d.authors.rows.filter fun a => a.isActive).length
  return (authors,total)

def update (loaded current : AuthorModel) : Service AuthorModel := do
  write (.updateAuthor loaded current)
  commit
  select fun d => (d.authors.find loaded.id.text).getD current

def writeAll : List Write → Service Unit
  | [] => pure ()
  | x :: rest => do
    write x
    writeAll rest

def deactivate (books : List BookModel) : List Write :=
  (books.filter (fun b => b.isActive)).map fun b => .updateBook b {b with isActive := false}

def softDelete (author : AuthorModel) (books : List BookModel) : Service Unit := do
  writeAll (.updateAuthor author {author with isActive := false} :: deactivate books)
  commit

end AuthorRepository

namespace BookRepository

def findByIsbn (d : Database) (isbn : String) : List BookModel :=
  d.books.rows.filter (fun b => b.isbn == isbn)

/- The author comes with the book through `joinedload`; an inactive one hides it. -/
def findById (d : Database) (bookId : String) : Option (BookModel × AuthorModel) := do
  let book ← d.books.find bookId
  let author ← d.authors.find book.authorId.text
  if book.isActive && author.isActive then some (book,author) else none

structure Filters where
  title : Option String
  category : Option String
  author : Option String
  available : Option Bool
  deriving DecidableEq

def selects (lower : Char → Char) (f : Filters) (row : BookModel × AuthorModel) : Bool :=
  row.1.isActive && row.2.isActive &&
  given f.title (fun s => ilike lower row.1.title ("%" ++ s ++ "%")) &&
  given f.category (fun s => row.1.category == s) &&
  given f.author (fun s => ilike lower row.2.name ("%" ++ s ++ "%")) &&
  match f.available with
  | none => true
  | some true => decide (0 < row.1.availableCopies)
  | some false => decide (row.1.availableCopies = 0)

def withAuthors (d : Database) : List (BookModel × AuthorModel) :=
  d.books.rows.filterMap fun b => (d.authors.find b.authorId.text).map fun a => (b,a)

def listBooksPaginated (p : Pagination) (f : Filters) :
    Service (List (BookModel × AuthorModel) × Nat) := do
  let order ← rowOrder
  let lower ← lowering
  let books ← select fun d => p.rows (arranged order ((withAuthors d).filter (selects lower f)))
  let total ← select fun d => ((withAuthors d).filter (selects lower f)).length
  return (books,total)

def update (loaded current : BookModel) : Service BookModel := do
  write (.updateBook loaded current)
  commit
  select fun d => (d.books.find loaded.id.text).getD current

def softDelete (book : BookModel) : Service Unit := do
  write (.updateBook book {book with isActive := false})
  commit

end BookRepository

namespace LoanRepository

def findById (d : Database) (loanId : String) : Option LoanModel := d.loans.find loanId

def countActiveByUser (d : Database) (userId : String) : Nat :=
  d.loans.count fun l => l.userId.text == userId && l.status == .active

def getBookForUpdate (bookId : String) : Service (Option BookModel) :=
  lock (fun d : Database => (d.books.find bookId).filter (fun b => b.isActive)) (fun b => .book b.id)

def findActiveByIdForUpdate (loanId : String) : Service (Option LoanModel) :=
  lock (fun d : Database => (d.loans.find loanId).filter (fun l => l.status == .active))
    (fun l => .loan l.id)

structure Filters where
  userId : Option String
  bookId : Option String
  status : Option LoanStatus
  overdue : Option Bool
  deriving DecidableEq

def selects (now : Int) (f : Filters) (l : LoanModel) : Bool :=
  given f.userId (fun s => l.userId.text == s) &&
  given f.bookId (fun s => l.bookId.text == s) &&
  (match f.status with
  | none => true
  | some s => l.status == s) &&
  match f.overdue with
  | none => true
  | some true => l.status == .active && decide (l.dueDate < now)
  | some false => l.status != .active || decide (now ≤ l.dueDate)

def listPaginated (p : Pagination) (f : Filters) : Service (List LoanModel × Nat) := do
  let now ← now
  let order ← rowOrder
  let loans ← select fun d : Database => p.rows (arranged order (d.loans.rows.filter (selects now f)))
  let total ← select fun d : Database => (d.loans.rows.filter (selects now f)).length
  return (loans,total)

def refresh (loan : LoanModel) : Service LoanModel :=
  select fun d : Database => (d.loans.find loan.id.text).getD loan

def update (loaded current : LoanModel) : Service LoanModel := do
  write (.updateLoan loaded current)
  commit
  refresh current

end LoanRepository

namespace ReservationRepository

def findById (d : Database) (reservationId : String) : Option ReservationModel :=
  d.reservations.find reservationId

def findActiveByUserAndBook (d : Database) (userId bookId : String) : List ReservationModel :=
  d.reservations.rows.filter fun r =>
    r.userId.text == userId && r.bookId.text == bookId && r.status == .active

def existsActiveForBook (d : Database) (bookId : Uuid) : Bool :=
  d.reservations.rows.any fun r => r.bookId == bookId && r.status == .active

structure Filters where
  userId : Option String
  bookId : Option String
  status : Option ReservationStatus
  deriving DecidableEq

def selects (f : Filters) (r : ReservationModel) : Bool :=
  given f.userId (fun s => r.userId.text == s) &&
  given f.bookId (fun s => r.bookId.text == s) &&
  match f.status with
  | none => true
  | some s => r.status == s

/- Rows created at one instant come in any order. -/
def listPaginated (p : Pagination) (f : Filters) : Service (List ReservationModel × Nat) := do
  let order ← rowOrder
  let reservations ← select fun d : Database => p.rows
    ((arranged order (d.reservations.rows.filter (selects f))).insertionSort fun a b => a.createdAt ≤ b.createdAt)
  let total ← select fun d : Database => (d.reservations.rows.filter (selects f)).length
  return (reservations,total)

def update (loaded current : ReservationModel) : Service ReservationModel := do
  write (.updateReservation loaded current)
  commit
  select fun d => (d.reservations.find loaded.id.text).getD current

end ReservationRepository

namespace NotificationRepository

/- The newest come first; rows created at one instant in any order. -/
def listPaginated (p : Pagination) (userId : Option String) : Service (List NotificationModel × Nat) := do
  let order ← rowOrder
  let selected (d : Database) := d.notifications.filter fun n => given userId fun s => n.userId.text == s
  let notifications ← select fun d : Database => p.rows
    ((arranged order (selected d)).insertionSort fun a b => b.createdAt ≤ a.createdAt)
  let total ← select fun d : Database => (selected d).length
  return (notifications,total)

end NotificationRepository
end LibraryApi.Repositories
