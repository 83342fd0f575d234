import LibraryApi.Database
import LibraryApi.Wildcard

/-! The Redis cache and what a service program may await. A key holds the typed
answer it was set to, not its JSON text. Any entry may expire before any call,
so lifetimes are not modelled; one answer of the surroundings also carries the
generated id, the password hash and the order in which rows come back. -/
namespace LibraryApi.CacheService
open Models
open Program (Prog call raise)

structure AuthorSummary where
  id : Uuid
  name : String
  deriving DecidableEq

structure BookView where
  id : Uuid
  title : String
  isbn : String
  category : String
  totalCopies : Int
  availableCopies : Int
  author : AuthorSummary
  createdAt : Int
  deriving DecidableEq

structure LoanView where
  id : Uuid
  userId : Uuid
  bookId : Uuid
  loanDate : Int
  dueDate : Int
  returnedAt : Option Int
  cancelledAt : Option Int
  status : LoanStatus
  fineAmount : Int
  finePaidAt : Option Int
  finePaidAmount : Int
  currentFineAmount : Int
  daysLate : Int
  isOverdue : Bool
  renewalCount : Int
  deriving DecidableEq

structure Page (α : Type) where
  items : List α
  total : Nat
  page : Nat
  size : Nat
  deriving DecidableEq

inductive Payload where
  | book (view : BookView)
  | books (page : Page BookView)
  | loan (view : LoanView)
  | loans (page : Page LoanView)
  deriving DecidableEq

abbrev Cache := List (String × Payload)

/-- What the surroundings answer at one await: the id and the hash they would
generate, whether Redis is reachable and which keys have expired, in what order
the database returns rows, and how its locale lowers a character. -/
structure Answer where
  uuid : Uuid
  hash : String → Option String
  redisUp : Bool
  expired : List String
  order : List Nat
  lower : Char → Char

abbrev Service := Prog Database Write RowKey Cache Answer ApiError

def redis {β : Type} (act : Cache → β × Cache) : Service β := call fun a x =>
  if a.redisUp then .ok (act (x.filter (fun e => !a.expired.contains e.1)))
  else .error .redisError

def get (key : String) : Service (Option Payload) := redis fun x => (x.lookup key,x)

def set (key : String) (value : Payload) : Service Unit :=
  redis fun x => ((),(key,value) :: x.filter (fun e => e.1 != key))

def delete (key : String) : Service Unit := redis fun x => ((),x.filter (fun e => e.1 != key))

def scanIter (pattern : String) : Service (List String) :=
  redis fun x => ((x.map Prod.fst).filter (Wildcard.glob pattern),x)

def deleteKeys : List String → Service Unit
  | [] => pure ()
  | key :: rest => do
    delete key
    deleteKeys rest

def deletePattern (pattern : String) : Service Unit := do
  let keys ← scanIter pattern
  deleteKeys keys

def newUuid : Service Uuid := call fun a x => .ok (a.uuid,x)

/- passlib refuses some passwords: one with a NUL, or one far too long. -/
def hashPassword (password : String) : Service String := call fun a x => match a.hash password with
  | some hash => .ok (hash,x)
  | none => .error .valueError

def rowOrder : Service (List Nat) := call fun a x => .ok (a.order,x)
def lowering : Service (Char → Char) := call fun a x => .ok (a.lower,x)

def scalarOneOrNone {α : Type} : List α → Service (Option α)
  | [] => pure none
  | [row] => pure (some row)
  | _ => raise .multipleResultsFound

def require {α : Type} (error : ApiError) : Option α → Service α
  | some row => pure row
  | none => raise error

def refuse (bad : Prop) [Decidable bad] (error : ApiError) : Service Unit :=
  if bad then raise error else pure ()

end LibraryApi.CacheService
