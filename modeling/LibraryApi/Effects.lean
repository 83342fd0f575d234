import LibraryApi.Requests

/-! What each request commits: on which rows, after which checks, in which order.
A check on a locked row is a fact about the database the commit starts from; a
check on a plainly read row was only seen at some earlier point. A request that
publishes an event commits twice, and the second commit is its notification. -/
namespace LibraryApi.Effects
open Models CacheService Repositories Requests
open LoanService (restocked returned cancelled paid renewed fineUnpaid newLoan)
open FineCalculator (calculateDaysLate calculateAmount)
open Program (mine)

abbrev Seen := (Database → Int → Prop) → Prop

def Announces : Request → List Write → NotificationModel → Prop
  | .createLoan _, main, note => ∃ b b' l, main = [.updateBook b b',.insertLoan l] ∧
      note.type = .loanCreated ∧ note.loanId = some l.id
  | .returnLoan _, main, note => ∃ b b' l l', main = [.updateBook b b',.updateLoan l l'] ∧
      note.type = .loanReturned ∧ note.loanId = some l.id
  | .cancelLoan _, main, note => ∃ b b' l l', main = [.updateBook b b',.updateLoan l l'] ∧
      note.type = .loanCancelled ∧ note.loanId = some l.id
  | .createReservation _ _, main, note => ∃ r, main = [.insertReservation r] ∧
      note.type = .reservationCreated ∧ note.reservationId = some r.id
  | .cancelReservation _, main, note => ∃ r r', main = [.updateReservation r r'] ∧
      note.type = .reservationCancelled ∧ note.reservationId = some r.id
  | _, _, _ => False

inductive Effect (seen : Seen) (own : Log) (before : Database) : Request → List Write → Prop where
  | createBook {data author id createdAt} (first : own = [])
      (unused : seen fun d _ => BookRepository.findByIsbn d data.isbn = [])
      (writer : seen fun d _ => AuthorRepository.findById d data.authorId = some author) :
      Effect seen own before (.createBook data)
        [.insertBook (BookService.newBook data author id createdAt)]
  | updateBook {bookId data book author} (first : own = [])
      (visible : seen fun d _ => BookRepository.findById d bookId = some (book,author))
      (id : book.id.text = bookId)
      (enough : ∀ n ∈ data.totalCopies, book.totalCopies - book.availableCopies ≤ n) :
      Effect seen own before (.updateBook bookId data)
        [.updateBook book (BookService.updated book data)]
  | deleteBook {bookId book author} (first : own = [])
      (visible : seen fun d _ => BookRepository.findById d bookId = some (book,author))
      (id : book.id.text = bookId) :
      Effect seen own before (.deleteBook bookId) [.updateBook book {book with isActive := false}]
  | createAuthor {data author} (first : own = []) :
      Effect seen own before (.createAuthor data) [.insertAuthor author]
  | updateAuthor {authorId data author} (first : own = [])
      (visible : seen fun d _ => AuthorRepository.findById d authorId = some author) :
      Effect seen own before (.updateAuthor authorId data)
        [.updateAuthor author (AuthorService.updated author data)]
  | deleteAuthor {authorId author books} (first : own = [])
      (visible : seen fun d _ =>
        AuthorRepository.findByIdWithBooks d authorId = some (author,books)) :
      Effect seen own before (.deleteAuthor authorId)
        (.updateAuthor author {author with isActive := false} :: AuthorRepository.deactivate books)
  | createUser {data user} (first : own = []) (email : user.email = data.email)
      (unused : seen fun d _ => UserRepository.findByEmail d data.email = []) :
      Effect seen own before (.createUser data) [.insertUser user]
  | updateUser {userId name user} (first : own = [])
      (visible : seen fun d _ => UserRepository.findById d userId = some user) :
      Effect seen own before (.updateUser userId name)
        [.updateUser user (UserService.renamed user name)]
  | updateRole {userId role user} (first : own = [])
      (visible : seen fun d _ => UserRepository.findById d userId = some user) :
      Effect seen own before (.updateRole userId role) [.updateUser user {user with role := role}]
  | deleteUser {userId user} (first : own = [])
      (visible : seen fun d _ => UserRepository.findById d userId = some user) :
      Effect seen own before (.deleteUser userId) [.updateUser user {user with isActive := false}]
  | createReservation {bookId userId user book author id createdAt} (first : own = [])
      (reader : seen fun d _ => UserRepository.findById d userId = some user)
      (visible : seen fun d _ => BookRepository.findById d bookId = some (book,author))
      (exhausted : book.availableCopies ≤ 0)
      (single : seen fun d _ =>
        ReservationRepository.findActiveByUserAndBook d userId bookId = []) :
      Effect seen own before (.createReservation bookId userId)
        [.insertReservation (ReservationService.newReservation id user book createdAt)]
  | cancelReservation {reservationId row now} (first : own = [])
      (found : seen fun d _ => ReservationRepository.findById d reservationId = some row)
      (id : row.id.text = reservationId)
      (active : row.status = .active) (instant : seen fun _ t => t = now) :
      Effect seen own before (.cancelReservation reservationId)
        [.updateReservation row (ReservationService.cancelled row now)]
  | createLoan {data user book id now createdAt} (first : own = [])
      (reader : seen fun d _ => UserRepository.findById d data.userId = some user)
      (quota : seen fun d _ =>
        LoanRepository.countActiveByUser d data.userId < LoanService.maxActiveLoans)
      (stock : before.books.find data.bookId = some book) (shelved : book.isActive = true)
      (available : 0 < book.availableCopies) (instant : seen fun _ t => t = now) :
      Effect seen own before (.createLoan data)
        [.updateBook book (restocked book (-1)),.insertLoan (newLoan id user book now createdAt)]
  | returnLoan {loanId loan book now} (first : own = [])
      (found : before.loans.find loanId = some loan) (active : loan.status = .active)
      (stock : before.books.find loan.bookId.text = some book) (shelved : book.isActive = true)
      (instant : seen fun _ t => t = now) (settled : ¬ fineUnpaid loan now) :
      Effect seen own before (.returnLoan loanId)
        [.updateBook book (restocked book 1),.updateLoan loan (returned loan now)]
  | cancelLoan {loanId loan book now} (first : own = [])
      (found : before.loans.find loanId = some loan) (active : loan.status = .active)
      (stock : before.books.find loan.bookId.text = some book) (shelved : book.isActive = true)
      (instant : seen fun _ t => t = now) :
      Effect seen own before (.cancelLoan loanId)
        [.updateBook book (restocked book 1),.updateLoan loan (cancelled loan now)]
  | renewLoan {loanId loan now} (first : own = [])
      (found : before.loans.find loanId = some loan) (active : loan.status = .active)
      (instant : seen fun _ t => t = now) (inTime : calculateDaysLate loan.dueDate now ≤ 0)
      (below : loan.renewalCount < LoanService.maxRenewals)
      (unreserved : seen fun d _ => ReservationRepository.existsActiveForBook d loan.bookId = false) :
      Effect seen own before (.renewLoan loanId) [.updateLoan loan (renewed loan)]
  | payFine {loanId loan now} (first : own = [])
      (found : before.loans.find loanId = some loan) (active : loan.status = .active)
      (instant : seen fun _ t => t = now)
      (owed : loan.finePaidAmount < calculateAmount loan.dueDate now)
      (positive : 0 < calculateAmount loan.dueDate now) :
      Effect seen own before (.payFine loanId) [.updateLoan loan (paid loan now)]
  | updateLoan {loanId data loan changed} (first : own = [])
      (found : seen fun d _ => LoanRepository.findById d loanId = some loan)
      (id : loan.id.text = loanId)
      (active : loan.status = .active)
      (checked : (data.dueDate = none ∧ changed = loan) ∨
        ∃ t, data.dueDate = some (.naive t) ∧ loan.loanDate < t ∧ changed = {loan with dueDate := t}) :
      Effect seen own before (.updateLoan loanId data) [.updateLoan loan changed]
  | notify {r main note} (second : own = [main]) (about : Announces r main.writes note) :
      Effect seen own before r [.insertNotification note]

theorem secondEffect {seen : Seen} {own : Log} {before : Database} {r : Request} {writes : List Write}
    (e : Effect seen own before r writes) (later : own ≠ []) : ∃ main note, own = [main] ∧
      writes = [.insertNotification note] ∧ Announces r main.writes note := by
  cases e with
  | notify second about => exact ⟨_,_,second,rfl,about⟩
  | _ => contradiction

def atDesk : Request → Bool
  | .createLoan _ => true
  | .returnLoan _ => true
  | .cancelLoan _ => true
  | _ => false

def commitsOf : Request → Nat
  | .createReservation _ _ => 2
  | .cancelReservation _ => 2
  | .createLoan _ => 2
  | .returnLoan _ => 2
  | .cancelLoan _ => 2
  | .getBook _ => 0
  | .listBooks _ _ => 0
  | .getLoan _ => 0
  | .listLoans _ _ => 0
  | .listLoansByUser _ _ _ => 0
  | _ => 1

structure Completed (r : Request) (answer : Response) (own : Log) : Prop where
  length : own.length = commitsOf r
  payment : ∀ loanId, r = .payFine loanId → ∃ view main loan now, answer = .finePaid view ∧
    own = [main] ∧ main.writes = [.updateLoan loan (paid loan now)] ∧
    view.paymentAmount = (paid loan now).finePaidAmount - loan.finePaidAmount

def Down (admits : Answer → Prop) (e : ApiError) : Prop :=
  e = .redisError ∧ ∃ a, admits a ∧ a.redisUp = false

def Failed (admits : Answer → Prop) (e : ApiError) (own : Log) : Prop :=
  own = [] ∨ Down admits e

def allowed (seen : Log → Int → Seen) (requests : Nat → Option Request) (h : Log) (m : Commit) :
    Prop :=
  ∃ r, requests m.client = some r ∧ Effect (seen h m.clock) (mine m.client h) m.before r m.writes

end LibraryApi.Effects
