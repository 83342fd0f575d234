import LibraryApi.Requests

/-! The endpoints of loans and reservations: who is asking, and whose row it is. The role
that counts is the one stored with the user, not the one in the token; the owner of a
loan is read from the answer of `get_loan`, which may come from the cache. -/
namespace LibraryApi.Controllers
open Models CacheService Repositories Requests
open Program (select raise)

/-- What `decode_token` makes of a bearer token. -/
inductive Token where
  | expired
  | invalid
  | payload (sub role : Option String)
  deriving DecidableEq

/- A token without a subject matches no row. -/
def getCurrentUser : Token → Service UserModel
  | .expired => raise (.unauthorized "Token expirado")
  | .invalid => raise (.unauthorized "Token inválido")
  | .payload sub _ => do
    require (.notFound "Usuário não encontrado")
      (← select fun d => sub.bind (UserRepository.findById d))

def getCurrentAdmin (token : Token) : Service UserModel := do
  let currentUser ← getCurrentUser token
  refuse (currentUser.role ≠ .admin) (.unauthorized "Acesso de administrador obrigatório")
  return currentUser

namespace LoanController

def userIsNotAdminAndDoesNotOwnLoan (user : UserModel) (loanUserId : Uuid) : Prop :=
  user.role ≠ .admin ∧ loanUserId ≠ user.id

instance (user : UserModel) (loanUserId : Uuid) : Decidable (userIsNotAdminAndDoesNotOwnLoan user loanUserId) := by
  unfold userIsNotAdminAndDoesNotOwnLoan; infer_instance

/- `loan["user_id"]`; an answer of another kind has no such key. -/
def userIdOf : Payload → Service Uuid
  | .loan view => return view.userId
  | _ => raise .typeError

def ownLoan {α : Type} (message : String) (proceed : String → Service α) (loanId : String) (token : Token) :
    Service α := do
  let user ← getCurrentUser token
  let loan ← LoanService.getLoan loanId
  let loanUserId ← userIdOf loan
  refuse (userIsNotAdminAndDoesNotOwnLoan user loanUserId) (.unauthorized message)
  proceed loanId

def adminOnly {α : Type} (proceed : Service α) (token : Token) : Service α := do
  let _currentAdmin ← getCurrentAdmin token
  proceed

def listLoans (page : Pagination) (filters : LoanRepository.Filters) : Token → Service Payload :=
  adminOnly (LoanService.listPaginated page filters)

def listLoansByUser (userId : String) (page : Pagination) (status : Option LoanStatus) (token : Token) :
    Service Payload := do
  let user ← getCurrentUser token
  refuse (user.role ≠ .admin ∧ userId ≠ user.id.text)
    (.unauthorized "Você só pode acessar seus próprios empréstimos")
  LoanService.listByUserPaginated userId page status

def updateLoan (loanId : String) (data : LoanService.UpdateLoanSchema) : Token → Service LoanView :=
  adminOnly (LoanService.updateLoan loanId data)

def cancelLoan : String → Token → Service LoanService.CancelView :=
  ownLoan "Você só pode cancelar seus próprios empréstimos" LoanService.cancelLoan

def payLoanFine : String → Token → Service LoanService.PaymentView :=
  ownLoan "Você só pode pagar seus próprios empréstimos" LoanService.payFine

def createLoan (data : LoanService.CreateLoanSchema) : Token → Service LoanView :=
  adminOnly (LoanService.createLoan data)

def listActiveLoans (page : Pagination) : Token → Service Payload :=
  adminOnly (LoanService.listPaginated page ⟨none,none,some .active,none⟩)

def listOverdueLoans (page : Pagination) : Token → Service Payload :=
  adminOnly (LoanService.listPaginated page ⟨none,none,none,some true⟩)

/- The loan is read once to look at its owner and once more to answer it. -/
def getLoan : String → Token → Service Payload :=
  ownLoan "Você só pode visualizar seus próprios empréstimos" LoanService.getLoan

def returnLoan : String → Token → Service LoanService.ReturnView :=
  ownLoan "Você só pode devolver seus próprios empréstimos" LoanService.returnLoan

def renewLoan : String → Token → Service LoanService.RenewView :=
  ownLoan "Você só pode renovar seus próprios empréstimos" LoanService.renewLoan

end LoanController

namespace ReservationController

def ownReservation {α : Type} (message : String) (proceed : ReservationModel → Service α)
    (reservationId : String) (token : Token) : Service α := do
  let user ← getCurrentUser token
  let reservation ← ReservationService.getReservation reservationId
  refuse (user.role ≠ .admin ∧ reservation.userId ≠ user.id) (.unauthorized message)
  proceed reservation

/- A user who names nobody lists their own reservations, an admin everybody's. -/
def listReservations (page : Pagination) (filters : ReservationRepository.Filters) (token : Token) :
    Service (Page ReservationModel) := do
  let user ← getCurrentUser token
  refuse (user.role ≠ .admin ∧ filters.userId ≠ none ∧ filters.userId ≠ some user.id.text)
    (.unauthorized "Você só pode listar suas reservas")
  let userId := if user.role ≠ .admin then some user.id.text else filters.userId
  ReservationService.listPaginated page {filters with userId := userId}

def getReservation : String → Token → Service ReservationModel :=
  ownReservation "Você só pode listar suas reservas" pure

/- The service looks the row up once more; the session gives it the row as it was first read. -/
def cancelReservation (reservationId : String) : Token → Service ReservationService.CancelView :=
  ownReservation "Você só pode cancelar suas reservas" (fun reservation => do
    let _ ← ReservationService.getReservation reservationId
    ReservationService.cancelLoaded reservation) reservationId

end ReservationController

inductive Endpoint where
  | listLoans (page : Pagination) (filters : LoanRepository.Filters)
  | listLoansByUser (userId : String) (page : Pagination) (status : Option LoanStatus)
  | updateLoan (loanId : String) (data : LoanService.UpdateLoanSchema)
  | cancelLoan (loanId : String)
  | payLoanFine (loanId : String)
  | createLoan (data : LoanService.CreateLoanSchema)
  | listActiveLoans (page : Pagination)
  | listOverdueLoans (page : Pagination)
  | getLoan (loanId : String)
  | returnLoan (loanId : String)
  | renewLoan (loanId : String)
  | listReservations (page : Pagination) (filters : ReservationRepository.Filters)
  | getReservation (reservationId : String)
  | cancelReservation (reservationId : String)

inductive Reply where
  | response (r : Response)
  | reservations (page : Page ReservationModel)
  deriving DecidableEq

def respond {α : Type} (reply : α → Reply) (p : Service α) : Service Reply := do
  return reply (← p)

def Endpoint.serve (token : Token) : Endpoint → Service Reply
  | .listLoans page filters => respond (.response ∘ .read) (LoanController.listLoans page filters token)
  | .listLoansByUser userId page status =>
      respond (.response ∘ .read) (LoanController.listLoansByUser userId page status token)
  | .updateLoan loanId data => respond (.response ∘ .loan) (LoanController.updateLoan loanId data token)
  | .cancelLoan loanId => respond (.response ∘ .loanCancelled) (LoanController.cancelLoan loanId token)
  | .payLoanFine loanId => respond (.response ∘ .finePaid) (LoanController.payLoanFine loanId token)
  | .createLoan data => respond (.response ∘ .loan) (LoanController.createLoan data token)
  | .listActiveLoans page => respond (.response ∘ .read) (LoanController.listActiveLoans page token)
  | .listOverdueLoans page => respond (.response ∘ .read) (LoanController.listOverdueLoans page token)
  | .getLoan loanId => respond (.response ∘ .read) (LoanController.getLoan loanId token)
  | .returnLoan loanId => respond (.response ∘ .loanReturned) (LoanController.returnLoan loanId token)
  | .renewLoan loanId => respond (.response ∘ .loanRenewed) (LoanController.renewLoan loanId token)
  | .listReservations page filters =>
      respond .reservations (ReservationController.listReservations page filters token)
  | .getReservation reservationId =>
      respond (.response ∘ .reservation) (ReservationController.getReservation reservationId token)
  | .cancelReservation reservationId =>
      respond (.response ∘ .reservationCancelled) (ReservationController.cancelReservation reservationId token)

inductive Call where
  | request (r : Request)
  | endpoint (e : Endpoint) (token : Token)

def Call.serve : Call → Service Reply
  | .request r => respond .response (handle r)
  | .endpoint e token => e.serve token

abbrev Pool := Program.State Database Write RowKey Cache Answer ApiError Reply

def connect (w : World) (calls : Nat → Option Call) : Pool := Program.start w fun j => (calls j).map Call.serve

end LibraryApi.Controllers
