import LibraryApi.KeyedTable
import LibraryApi.Program

/-! The tables of the service and its SQL statements. Ids are what the UUID
generator can produce, so an id never holds a colon or a pattern character. A
row is only ever deactivated, never deleted. Foreign keys are not enforced here:
the services look every referenced row up first. -/
namespace LibraryApi.Models
open KeyedTable (Table)
open Program (Backend)

def uuidChar (c : Char) : Bool :=
  decide ('0' ≤ c ∧ c ≤ '9') || decide ('a' ≤ c ∧ c ≤ 'f') || c == '-'

/- `str(uuid.uuid7())`, of users `str(uuid.uuid6())`: 36 hexadecimal digits and dashes. -/
structure Uuid where
  text : String
  form : text.length = 36 ∧ text.toList.all uuidChar = true
  deriving DecidableEq

theorem uuidExt {a b : Uuid} (h : a.text = b.text) : a = b := by
  cases a; cases b; cases h; rfl

inductive UserRole where
  | user
  | admin
  deriving DecidableEq, Repr

structure UserModel where
  id : Uuid
  name : String
  email : String
  password : String
  createdAt : Int
  isActive : Bool
  role : UserRole
  deriving DecidableEq

structure AuthorModel where
  id : Uuid
  name : String
  biography : Option String
  createdAt : Int
  isActive : Bool
  deriving DecidableEq

structure BookModel where
  id : Uuid
  title : String
  isbn : String
  category : String
  totalCopies : Int
  availableCopies : Int
  authorId : Uuid
  createdAt : Int
  isActive : Bool
  deriving DecidableEq

inductive LoanStatus where
  | active
  | returned
  | cancelled
  deriving DecidableEq, Repr

structure LoanModel where
  id : Uuid
  userId : Uuid
  bookId : Uuid
  loanDate : Int
  dueDate : Int
  returnedAt : Option Int
  cancelledAt : Option Int
  status : LoanStatus
  fineAmount : Int
  finePaidAt : Option Int
  finePaidAmount : Int
  renewalCount : Int
  createdAt : Int
  deriving DecidableEq

inductive ReservationStatus where
  | active
  | cancelled
  | fulfilled
  deriving DecidableEq, Repr

structure ReservationModel where
  id : Uuid
  userId : Uuid
  bookId : Uuid
  status : ReservationStatus
  createdAt : Int
  cancelledAt : Option Int
  fulfilledAt : Option Int
  deriving DecidableEq

inductive NotificationType where
  | loanCreated
  | loanReturned
  | loanCancelled
  | loanDueSoon
  | loanDueToday
  | loanOverdue
  | reservationCreated
  | reservationCancelled
  deriving DecidableEq, Repr

inductive NotificationStatus where
  | sent
  | failed
  deriving DecidableEq, Repr

structure NotificationModel where
  id : Uuid
  userId : Uuid
  loanId : Option Uuid
  reservationId : Option Uuid
  type : NotificationType
  status : NotificationStatus
  channel : String
  message : String
  sentAt : Option Int
  createdAt : Int
  deriving DecidableEq

structure Database where
  users : Table (fun r : UserModel => r.id.text)
  authors : Table (fun r : AuthorModel => r.id.text)
  books : Table (fun r : BookModel => r.id.text)
  loans : Table (fun r : LoanModel => r.id.text)
  reservations : Table (fun r : ReservationModel => r.id.text)
  notifications : List NotificationModel
  deriving DecidableEq

def Database.empty : Database := ⟨.empty,.empty,.empty,.empty,.empty,[]⟩

inductive ApiError where
  | notFound (message : String)
  | businessRule (message : String)
  | finePaymentRequired
  | unauthorized (message : String)
  | integrityError
  | multipleResultsFound
  | typeError
  | dataError
  | valueError
  | redisError
  deriving DecidableEq, Repr

/-- The unit of work writes a column only where the object differs from the row
it was loaded from; other columns keep what the database holds by then. -/
def flushed {α : Type} [DecidableEq α] (loaded current stored : α) : α :=
  if current = loaded then stored else current

@[simp] theorem flushedSame {α : Type} [DecidableEq α] (loaded stored : α) :
    flushed loaded loaded stored = stored := if_pos rfl

@[simp] theorem flushedFresh {α : Type} [DecidableEq α] (stored current : α) :
    flushed stored current stored = current := by
  unfold flushed; split
  · rename_i h; exact h.symm
  · rfl

def UserModel.flush (loaded current stored : UserModel) : UserModel :=
  {stored with
    name := flushed loaded.name current.name stored.name
    email := flushed loaded.email current.email stored.email
    password := flushed loaded.password current.password stored.password
    createdAt := flushed loaded.createdAt current.createdAt stored.createdAt
    isActive := flushed loaded.isActive current.isActive stored.isActive
    role := flushed loaded.role current.role stored.role}

def AuthorModel.flush (loaded current stored : AuthorModel) : AuthorModel :=
  {stored with
    name := flushed loaded.name current.name stored.name
    biography := flushed loaded.biography current.biography stored.biography
    createdAt := flushed loaded.createdAt current.createdAt stored.createdAt
    isActive := flushed loaded.isActive current.isActive stored.isActive}

def BookModel.flush (loaded current stored : BookModel) : BookModel :=
  {stored with
    title := flushed loaded.title current.title stored.title
    isbn := flushed loaded.isbn current.isbn stored.isbn
    category := flushed loaded.category current.category stored.category
    totalCopies := flushed loaded.totalCopies current.totalCopies stored.totalCopies
    availableCopies := flushed loaded.availableCopies current.availableCopies stored.availableCopies
    authorId := flushed loaded.authorId current.authorId stored.authorId
    createdAt := flushed loaded.createdAt current.createdAt stored.createdAt
    isActive := flushed loaded.isActive current.isActive stored.isActive}

def LoanModel.flush (loaded current stored : LoanModel) : LoanModel :=
  {stored with
    userId := flushed loaded.userId current.userId stored.userId
    bookId := flushed loaded.bookId current.bookId stored.bookId
    loanDate := flushed loaded.loanDate current.loanDate stored.loanDate
    dueDate := flushed loaded.dueDate current.dueDate stored.dueDate
    returnedAt := flushed loaded.returnedAt current.returnedAt stored.returnedAt
    cancelledAt := flushed loaded.cancelledAt current.cancelledAt stored.cancelledAt
    status := flushed loaded.status current.status stored.status
    fineAmount := flushed loaded.fineAmount current.fineAmount stored.fineAmount
    finePaidAt := flushed loaded.finePaidAt current.finePaidAt stored.finePaidAt
    finePaidAmount := flushed loaded.finePaidAmount current.finePaidAmount stored.finePaidAmount
    renewalCount := flushed loaded.renewalCount current.renewalCount stored.renewalCount
    createdAt := flushed loaded.createdAt current.createdAt stored.createdAt}

def ReservationModel.flush (loaded current stored : ReservationModel) : ReservationModel :=
  {stored with
    userId := flushed loaded.userId current.userId stored.userId
    bookId := flushed loaded.bookId current.bookId stored.bookId
    status := flushed loaded.status current.status stored.status
    createdAt := flushed loaded.createdAt current.createdAt stored.createdAt
    cancelledAt := flushed loaded.cancelledAt current.cancelledAt stored.cancelledAt
    fulfilledAt := flushed loaded.fulfilledAt current.fulfilledAt stored.fulfilledAt}

inductive Write where
  | insertUser (row : UserModel)
  | updateUser (loaded current : UserModel)
  | insertAuthor (row : AuthorModel)
  | updateAuthor (loaded current : AuthorModel)
  | insertBook (row : BookModel)
  | updateBook (loaded current : BookModel)
  | insertLoan (row : LoanModel)
  | updateLoan (loaded current : LoanModel)
  | insertReservation (row : ReservationModel)
  | updateReservation (loaded current : ReservationModel)
  | insertNotification (row : NotificationModel)
  deriving DecidableEq

inductive RowKey where
  | user (id : Uuid)
  | author (id : Uuid)
  | book (id : Uuid)
  | loan (id : Uuid)
  | reservation (id : Uuid)
  deriving DecidableEq

def Write.keys : Write → List RowKey
  | .updateUser loaded current => if current = loaded then [] else [.user loaded.id]
  | .updateAuthor loaded current => if current = loaded then [] else [.author loaded.id]
  | .updateBook loaded current => if current = loaded then [] else [.book loaded.id]
  | .updateLoan loaded current => if current = loaded then [] else [.loan loaded.id]
  | .updateReservation loaded current => if current = loaded then [] else [.reservation loaded.id]
  | _ => []

def inserted {ρ : Type} {key : ρ → String} (t : Table key) (row : ρ) : Except ApiError (Table key) :=
  match t.insert row with
  | some t' => .ok t'
  | none => .error .integrityError

/- PostgreSQL stores no NUL, and in a VARCHAR(n) no more than n characters. -/
def text (s : String) : Bool := !s.toList.contains '\x00'
def varchar (n : Nat) (s : String) : Bool := decide (s.length ≤ n) && text s

/- What an UPDATE leaves out is not looked at again. -/
def altered {α : Type} [DecidableEq α] (fits : α → Bool) (loaded current : α) : Bool := decide (current = loaded) || fits current

@[simp] theorem alteredSame {α : Type} [DecidableEq α] (fits : α → Bool) (loaded : α) : altered fits loaded loaded = true := by
  simp [altered]

/-- The texts of the statement fit their columns; those that the code itself writes do. -/
def Write.fits : Write → Bool
  | .insertUser row => varchar 255 row.name && varchar 255 row.email
  | .updateUser loaded current =>
      altered (varchar 255) loaded.name current.name && altered (varchar 255) loaded.email current.email
  | .insertAuthor row => varchar 255 row.name && row.biography.all text
  | .updateAuthor loaded current =>
      altered (varchar 255) loaded.name current.name && altered (fun s => s.all text) loaded.biography current.biography
  | .insertBook row => varchar 255 row.title && varchar 50 row.isbn && varchar 100 row.category
  | .updateBook loaded current => altered (varchar 255) loaded.title current.title &&
      altered (varchar 50) loaded.isbn current.isbn && altered (varchar 100) loaded.category current.category
  | _ => true

def Write.run (x : Write) (d : Database) : Except ApiError Database := match x with
  | .insertUser row =>
      if d.users.rows.any (fun r => r.email == row.email) then .error .integrityError
      else do return {d with users := ← inserted d.users row}
  | .insertAuthor row => do return {d with authors := ← inserted d.authors row}
  | .insertBook row =>
      if d.books.rows.any (fun r => r.isbn == row.isbn) then .error .integrityError
      else do return {d with books := ← inserted d.books row}
  | .insertLoan row => do return {d with loans := ← inserted d.loans row}
  | .insertReservation row => do return {d with reservations := ← inserted d.reservations row}
  | .insertNotification row => .ok {d with notifications := d.notifications ++ [row]}
  | .updateUser loaded current =>
      .ok {d with users := d.users.modify loaded.id.text (loaded.flush current) fun _ => rfl}
  | .updateAuthor loaded current =>
      .ok {d with authors := d.authors.modify loaded.id.text (loaded.flush current) fun _ => rfl}
  | .updateBook loaded current =>
      .ok {d with books := d.books.modify loaded.id.text (loaded.flush current) fun _ => rfl}
  | .updateLoan loaded current =>
      .ok {d with loans := d.loans.modify loaded.id.text (loaded.flush current) fun _ => rfl}
  | .updateReservation loaded current =>
      .ok {d with reservations :=
        d.reservations.modify loaded.id.text (loaded.flush current) fun _ => rfl}

def Write.exec (x : Write) (d : Database) : Except ApiError Database := if x.fits then x.run d else .error .dataError

end LibraryApi.Models
