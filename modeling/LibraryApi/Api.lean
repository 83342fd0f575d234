import LibraryApi.Reports
import LibraryApi.Security

/-! Every route of the application, and the three kinds of session that reach the database:
an anonymous request, a request with its bearer token, and the job of the scheduler. A
token is decoded first, then its user is read, then the route works. -/
namespace LibraryApi.Api
open Models CacheService Repositories Requests Controllers Security
open LoanService (DateTime)
open LoanController (adminOnly)

inductive Body where
  | reply (r : Reply)
  | user (row : UserModel)
  | users (page : Page UserModel)
  | accessToken (token : String)
  | author (row : AuthorModel)
  | authors (page : Page AuthorModel)
  | notifications (page : Page NotificationModel)
  | stats (stats : Reports.ReportService.Stats)
  | csv (content : String)
  | pdf (elements : List Reports.ReportService.Flowable)
  | noContent
  deriving DecidableEq

def render {α : Type} (body : α → Body) (p : Service α) : Service Body := do
  return body (← p)

def work (r : Request) : Service Body := render (.reply ∘ .response) (handle r)

namespace UserController

/- A session keeps a row as it first read it: an admin who names themselves gets the row
the guard has read, as long as an active one is there. -/
def namedUser {α : Type} (proceed : UserModel → Service α) (userId : String) (token : Token) : Service α := do
  let currentAdmin ← getCurrentAdmin token
  let user ← UserService.getById userId
  proceed (if user.id = currentAdmin.id then currentAdmin else user)

def listUsers (page : Pagination) : Token → Service (Page UserModel) :=
  adminOnly (UserService.listUsersPaginated page)

def getUser : String → Token → Service UserModel := namedUser pure

def updateUser (userId : String) (name : Option String) : Token → Service UserModel :=
  namedUser (fun user => UserRepository.update user (UserService.renamed user name)) userId

def deleteUser : String → Token → Service UserModel :=
  namedUser fun user => UserRepository.update user {user with isActive := false}

def updateUserRole (userId : String) (role : UserRole) : Token → Service UserModel :=
  namedUser (fun user => UserRepository.update user {user with role := role}) userId

end UserController

namespace ReservationController

def createReservation (bookId : String) (token : Token) : Service ReservationModel := do
  let user ← getCurrentUser token
  ReservationService.createReservation bookId user.id.text

end ReservationController

namespace NotificationController

def listNotifications (page : Pagination) (userId : Option String) : Token → Service (Page NotificationModel) :=
  adminOnly do
    let (notifications,total) ← NotificationRepository.listPaginated page userId
    return ⟨notifications,total,page.page,page.size⟩

/- The job has a database session of its own; the one of the request has only read. -/
def runDueLoansJob (s : Deployment) : Token → Service Unit := adminOnly (DueLoanNotificationJob.execute s.zone)

end NotificationController

namespace ReportController
open Reports

def getStats (startDate endDate : Option DateTime) : Token → Service ReportService.Stats :=
  adminOnly (ReportService.getStats startDate endDate)

def exportLoansCsv (status : Option LoanStatus) (userId bookId : Option String) (startDate endDate : Option DateTime) :
    Token → Service String := adminOnly (ReportService.generateLoansCsv status userId bookId startDate endDate)

def exportFinesPdf (userId bookId : Option String) (minAmount : Option Rat) (startDate endDate : Option DateTime) :
    Token → Service (List ReportService.Flowable) :=
  adminOnly (ReportService.generateFinesPdf userId bookId minAmount startDate endDate)

end ReportController

inductive OpenRoute where
  | createUser (data : UserService.CreateUserSchema)
  | login (data : LoginSchema)
  | listAuthors (page : Pagination)
  | getAuthor (authorId : String)
  | listBooks (page : Pagination) (filters : BookRepository.Filters)
  | getBook (bookId : String)

def OpenRoute.serve (s : Deployment) : OpenRoute → Service Body
  | .createUser data => work (.createUser data)
  | .login data => render .accessToken (Security.login s data)
  | .listAuthors page => render .authors (AuthorService.listAuthorsPaginated page)
  | .getAuthor authorId => render .author (AuthorService.getAuthor authorId)
  | .listBooks page filters => work (.listBooks page filters)
  | .getBook bookId => work (.getBook bookId)

inductive Route where
  | listUsers (page : Pagination)
  | me
  | getUser (userId : String)
  | updateUser (userId : String) (name : Option String)
  | deleteUser (userId : String)
  | updateUserRole (userId : String) (role : UserRole)
  | createAuthor (data : AuthorService.CreateAuthorSchema)
  | updateAuthor (authorId : String) (data : AuthorService.UpdateAuthorSchema)
  | deleteAuthor (authorId : String)
  | createBook (data : BookService.CreateBookSchema)
  | updateBook (bookId : String) (data : BookService.UpdateBookSchema)
  | deleteBook (bookId : String)
  | createReservation (bookId : String)
  | listNotifications (page : Pagination) (userId : Option String)
  | runDueLoansJob
  | getStats (startDate endDate : Option DateTime)
  | exportLoansCsv (status : Option LoanStatus) (userId bookId : Option String) (startDate endDate : Option DateTime)
  | exportFinesPdf (userId bookId : Option String) (minAmount : Option Rat) (startDate endDate : Option DateTime)
  | endpoint (e : Endpoint)

def Route.serve (s : Deployment) (token : Token) : Route → Service Body
  | .listUsers page => render .users (UserController.listUsers page token)
  | .me => render .user (getCurrentUser token)
  | .getUser userId => render .user (UserController.getUser userId token)
  | .updateUser userId name => render .user (UserController.updateUser userId name token)
  | .deleteUser userId => render (fun _ => .noContent) (UserController.deleteUser userId token)
  | .updateUserRole userId role => render (fun _ => .noContent) (UserController.updateUserRole userId role token)
  | .createAuthor data => adminOnly (work (.createAuthor data)) token
  | .updateAuthor authorId data => adminOnly (work (.updateAuthor authorId data)) token
  | .deleteAuthor authorId => adminOnly (work (.deleteAuthor authorId)) token
  | .createBook data => adminOnly (work (.createBook data)) token
  | .updateBook bookId data => adminOnly (work (.updateBook bookId data)) token
  | .deleteBook bookId => adminOnly (work (.deleteBook bookId)) token
  | .createReservation bookId =>
      render (.reply ∘ .response ∘ .reservation) (ReservationController.createReservation bookId token)
  | .listNotifications page userId => render .notifications (NotificationController.listNotifications page userId token)
  | .runDueLoansJob => render (fun _ => .noContent) (NotificationController.runDueLoansJob s token)
  | .getStats startDate endDate => render .stats (ReportController.getStats startDate endDate token)
  | .exportLoansCsv status userId bookId startDate endDate =>
      render .csv (ReportController.exportLoansCsv status userId bookId startDate endDate token)
  | .exportFinesPdf userId bookId minAmount startDate endDate =>
      render .pdf (ReportController.exportFinesPdf userId bookId minAmount startDate endDate token)
  | .endpoint e => render .reply (e.serve token)

inductive Client where
  | anonymous (r : OpenRoute)
  | bearer (credentials : String) (r : Route)
  | scheduler

def Client.serve (s : Deployment) : Client → Service Body
  | .anonymous r => r.serve s
  | .bearer credentials r => do
    let token ← decodeToken s credentials
    r.serve s token
  | .scheduler => render (fun _ => .noContent) (DueLoanNotificationJob.execute s.zone)

abbrev Pool := Program.State Database Write RowKey Cache Answer ApiError Body

def receive (s : Deployment) (w : World) (clients : Nat → Option Client) : Pool :=
  Program.start w fun j => (clients j).map (Client.serve s)

end LibraryApi.Api
