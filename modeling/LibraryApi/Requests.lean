import LibraryApi.AuthorService
import LibraryApi.LoanService
import LibraryApi.ReservationService
import LibraryApi.UserService

/-! The requests of the service layer and the two ways they are served: one after
another from some world, or by a pool of clients. Every request is a session of
its own, so the sessions of a run are numbered upwards. -/
namespace LibraryApi.Requests
open Models CacheService Repositories
open Program (Env alone)

inductive Request where
  | createBook (data : BookService.CreateBookSchema)
  | updateBook (bookId : String) (data : BookService.UpdateBookSchema)
  | deleteBook (bookId : String)
  | getBook (bookId : String)
  | listBooks (page : Pagination) (filters : BookRepository.Filters)
  | createAuthor (data : AuthorService.CreateAuthorSchema)
  | updateAuthor (authorId : String) (data : AuthorService.UpdateAuthorSchema)
  | deleteAuthor (authorId : String)
  | createUser (data : UserService.CreateUserSchema)
  | updateUser (userId : String) (name : Option String)
  | updateRole (userId : String) (role : UserRole)
  | deleteUser (userId : String)
  | createReservation (bookId userId : String)
  | cancelReservation (reservationId : String)
  | createLoan (data : LoanService.CreateLoanSchema)
  | returnLoan (loanId : String)
  | cancelLoan (loanId : String)
  | renewLoan (loanId : String)
  | payFine (loanId : String)
  | updateLoan (loanId : String) (data : LoanService.UpdateLoanSchema)
  | getLoan (loanId : String)
  | listLoans (page : Pagination) (filters : LoanRepository.Filters)
  | listLoansByUser (userId : String) (page : Pagination) (status : Option LoanStatus)
  deriving DecidableEq

inductive Response where
  | nothing
  | read (payload : Payload)
  | createdBook (view : BookView)
  | book (row : BookModel)
  | author (row : AuthorModel)
  | user (row : UserModel)
  | reservation (row : ReservationModel)
  | reservationCancelled (view : ReservationService.CancelView)
  | loan (view : LoanView)
  | loanReturned (view : LoanService.ReturnView)
  | loanCancelled (view : LoanService.CancelView)
  | loanRenewed (view : LoanService.RenewView)
  | finePaid (view : LoanService.PaymentView)
  deriving DecidableEq

def answer {α : Type} (respond : α → Response) (p : Service α) : Service Response := do
  return respond (← p)

def handle : Request → Service Response
  | .createBook data => answer .createdBook (BookService.createBook data)
  | .updateBook bookId data => answer .book (BookService.updateBook bookId data)
  | .deleteBook bookId => answer (fun _ => .nothing) (BookService.deleteBook bookId)
  | .getBook bookId => answer .read (BookService.getBook bookId)
  | .listBooks page filters => answer .read (BookService.listBooksPaginated page filters)
  | .createAuthor data => answer .author (AuthorService.createAuthor data)
  | .updateAuthor authorId data => answer .author (AuthorService.updateAuthor authorId data)
  | .deleteAuthor authorId => answer (fun _ => .nothing) (AuthorService.deleteAuthor authorId)
  | .createUser data => answer .user (UserService.createUser data)
  | .updateUser userId name => answer .user (UserService.updateUser userId name)
  | .updateRole userId role => answer .user (UserService.updateRole userId role)
  | .deleteUser userId => answer (fun _ => .nothing) (UserService.deleteUser userId)
  | .createReservation bookId userId =>
      answer .reservation (ReservationService.createReservation bookId userId)
  | .cancelReservation reservationId =>
      answer .reservationCancelled (ReservationService.cancelReservation reservationId)
  | .createLoan data => answer .loan (LoanService.createLoan data)
  | .returnLoan loanId => answer .loanReturned (LoanService.returnLoan loanId)
  | .cancelLoan loanId => answer .loanCancelled (LoanService.cancelLoan loanId)
  | .renewLoan loanId => answer .loanRenewed (LoanService.renewLoan loanId)
  | .payFine loanId => answer .finePaid (LoanService.payFine loanId)
  | .updateLoan loanId data => answer .loan (LoanService.updateLoan loanId data)
  | .getLoan loanId => answer .read (LoanService.getLoan loanId)
  | .listLoans page filters => answer .read (LoanService.listPaginated page filters)
  | .listLoansByUser userId page status =>
      answer .read (LoanService.listByUserPaginated userId page status)

abbrev World := Program.World Database Write RowKey Cache
abbrev Commit := Program.Commit Database Write
abbrev Log := List Commit
abbrev Oracle := Nat → Env Answer

def opening (t : Int) : World := ⟨.empty,fun _ => none,[],t,[]⟩

def serve (i : Nat) (r : Request) (w : World) (env : Oracle) : Except ApiError Response × World :=
  alone i (handle r) [] w env

structure Outcome where
  request : Request
  result : Except ApiError Response

def serveAll (n : Nat) (w : World) : List (Request × Oracle) → List Outcome × World
  | [] => ([],w)
  | (r,env) :: calls =>
    let (result,w₁) := serve n r w env
    let (outcomes,w₂) := serveAll (n+1) w₁ calls
    (⟨r,result⟩ :: outcomes,w₂)

theorem serveAllAppend (n : Nat) (w : World) (a b : List (Request × Oracle)) :
    serveAll n w (a ++ b) =
      ((serveAll n w a).1 ++ (serveAll (n + a.length) (serveAll n w a).2 b).1,
        (serveAll (n + a.length) (serveAll n w a).2 b).2) := by
  induction a generalizing n w with
  | nil => rfl
  | cons call rest ih =>
    obtain ⟨r,env⟩ := call
    simp only [List.cons_append,serveAll,List.length_cons,ih (n+1),List.cons_append]
    rw [show n + 1 + rest.length = n + (rest.length + 1) by omega]

abbrev State := Program.State Database Write RowKey Cache Answer ApiError Response

def begin (w : World) (requests : Nat → Option Request) : State :=
  Program.start w fun j => (requests j).map handle

abbrev Moves := List (Nat × Env Answer)

end LibraryApi.Requests
