import LibraryApi.BookService
import LibraryApi.FineCalculator
import LibraryApi.NotificationHandlers

/-! The loan desk. Closing, paying and renewing start from the locked row of an
ACTIVE loan; `update_loan` reads its row without a lock, `cancel_loan` asks for
no payment and `renew_loan` leaves the cache alone. -/
namespace LibraryApi.LoanService
open Models CacheService Repositories NotificationHandlers
open BookService (forgetBook pyText pyBool)
open FineCalculator (calculateDaysLate calculateAmount days)
open Program (select write commit now raise)

def loanDays : Int := 14
def maxActiveLoans : Nat := 3
def renewalDays : Int := 7
def maxRenewals : Int := 2

structure CreateLoanSchema where
  userId : String
  bookId : String
  deriving DecidableEq

inductive DateTime where
  | naive (instant : Int)
  | aware (instant offset : Int)
  deriving DecidableEq

structure UpdateLoanSchema where
  dueDate : Option DateTime
  deriving DecidableEq

structure ReturnView where
  id : Uuid
  status : LoanStatus
  returnedAt : Option Int
  fineAmount : Int
  finePaidAt : Option Int
  finePaidAmount : Int
  daysLate : Int
  deriving DecidableEq

structure PaymentView where
  id : Uuid
  fineAmount : Int
  paymentAmount : Int
  finePaidAmount : Int
  finePaidAt : Option Int
  deriving DecidableEq

structure CancelView where
  id : Uuid
  status : LoanStatus
  cancelledAt : Option Int
  deriving DecidableEq

structure RenewView where
  id : Uuid
  status : LoanStatus
  dueDate : Int
  renewalCount : Int
  deriving DecidableEq

def serializeAt (loan : LoanModel) (referenceDate : Int) : LoanView :=
  let daysLate := calculateDaysLate loan.dueDate referenceDate
  {id := loan.id,userId := loan.userId,bookId := loan.bookId,loanDate := loan.loanDate,
    dueDate := loan.dueDate,returnedAt := loan.returnedAt,cancelledAt := loan.cancelledAt,
    status := loan.status,fineAmount := loan.fineAmount,finePaidAt := loan.finePaidAt,
    finePaidAmount := loan.finePaidAmount,
    currentFineAmount := if loan.status = .active then calculateAmount loan.dueDate referenceDate
      else loan.fineAmount,
    daysLate := daysLate,isOverdue := loan.status == .active && decide (0 < daysLate),
    renewalCount := loan.renewalCount}

/- A returned loan is shown as of its return; one without a return instant, which
the calculator is then given as no reference date, as of now. -/
def serializeLoan (loan : LoanModel) : Service LoanView := do
  match loan.status,loan.returnedAt with
  | .returned,some t => return serializeAt loan t
  | _,_ =>
    let t ← now
    return serializeAt loan t

def serializeAll : List LoanModel → Service (List LoanView)
  | [] => return []
  | loan :: rest => do
    let view ← serializeLoan loan
    let views ← serializeAll rest
    return view :: views

def itemKey (loanId : String) : String := "loans:item:" ++ loanId

def pyStatus : Option LoanStatus → String
  | none => "None"
  | some .active => "LoanStatus.ACTIVE"
  | some .returned => "LoanStatus.RETURNED"
  | some .cancelled => "LoanStatus.CANCELLED"

def listKey (p : Pagination) (f : LoanRepository.Filters) : String :=
  "loans:list:" ++ toString p.page ++ ":" ++ toString p.size ++ ":" ++ pyText f.userId ++ ":" ++
    pyText f.bookId ++ ":" ++ pyStatus f.status ++ ":" ++ pyBool f.overdue

def userKey (userId : String) (p : Pagination) (status : Option LoanStatus) : String :=
  "loans:user:" ++ userId ++ ":" ++ toString p.page ++ ":" ++ toString p.size ++ ":" ++
    pyStatus status

def invalidateLoanCache (userId loanId : Uuid) : Service Unit := do
  delete (itemKey loanId.text)
  deletePattern "loans:list*"
  deletePattern ("loans:user:" ++ userId.text ++ ":" ++ "*")

def newLoan (id : Uuid) (user : UserModel) (book : BookModel) (now createdAt : Int) : LoanModel :=
  {id := id,userId := user.id,bookId := book.id,loanDate := now,dueDate := now + days loanDays,
    returnedAt := none,cancelledAt := none,status := .active,fineAmount := 0,finePaidAt := none,
    finePaidAmount := 0,renewalCount := 0,createdAt := createdAt}

def restocked (book : BookModel) (n : Int) : BookModel :=
  {book with availableCopies := book.availableCopies + n}

def createLoan (data : CreateLoanSchema) : Service LoanView := do
  let user ← require (.notFound "Usuário não encontrado")
    (← select fun d => UserRepository.findById d data.userId)
  let activeLoans ← select fun d => LoanRepository.countActiveByUser d data.userId
  refuse (maxActiveLoans ≤ activeLoans)
    (.businessRule "Usuário atingiu o número máximo de empréstimos ativos")
  let book ← require (.notFound "Livro não encontrado")
    (← LoanRepository.getBookForUpdate data.bookId)
  refuse (book.availableCopies ≤ 0) (.businessRule "Livro indisponível")
  let now ← Program.now
  write (.updateBook book (restocked book (-1)))
  let id ← newUuid
  let createdAt ← Program.now
  -- the ids are those of the two rows found above
  let loan := newLoan id user book now createdAt
  write (.insertLoan loan)
  let created ← LoanRepository.refresh loan
  commit
  let created ← LoanRepository.refresh created
  forgetBook data.bookId
  invalidateLoanCache user.id created.id
  let occurredAt ← Program.now
  publish (.loanCreated occurredAt created.id created.userId created.bookId)
  serializeLoan created

def getLoan (loanId : String) : Service Payload := do
  match ← get (itemKey loanId) with
  | some cached => return cached
  | none =>
    let loan ← require (.notFound "Empréstimo não encontrado")
      (← select fun d => LoanRepository.findById d loanId)
    let view ← serializeLoan loan
    set (itemKey loanId) (.loan view)
    return .loan view

def fineUnpaid (loan : LoanModel) (now : Int) : Prop :=
  0 < calculateAmount loan.dueDate now ∧ loan.finePaidAmount < calculateAmount loan.dueDate now

instance (loan : LoanModel) (now : Int) : Decidable (fineUnpaid loan now) := by
  unfold fineUnpaid; infer_instance

def returned (loan : LoanModel) (now : Int) : LoanModel :=
  {loan with
    status := .returned
    returnedAt := some now
    fineAmount := calculateAmount loan.dueDate now}

def returnLoan (loanId : String) : Service ReturnView := do
  let loan ← require (.notFound "Empréstimo ativo não encontrado")
    (← LoanRepository.findActiveByIdForUpdate loanId)
  let now ← Program.now
  let daysLate := calculateDaysLate loan.dueDate now
  refuse (fineUnpaid loan now) .finePaymentRequired
  let book ← require (.notFound "Livro não encontrado")
    (← LoanRepository.getBookForUpdate loan.bookId.text)
  write (.updateBook book (restocked book 1))
  write (.updateLoan loan (returned loan now))
  commit
  let loan ← LoanRepository.refresh (returned loan now)
  forgetBook loan.bookId.text
  invalidateLoanCache loan.userId loan.id
  let occurredAt ← Program.now
  publish (.loanReturned occurredAt loan.id loan.userId loan.bookId)
  return ⟨loan.id,loan.status,loan.returnedAt,loan.fineAmount,loan.finePaidAt,
    loan.finePaidAmount,daysLate⟩

def paid (loan : LoanModel) (now : Int) : LoanModel :=
  let fineAmount := calculateAmount loan.dueDate now
  {loan with fineAmount := fineAmount,finePaidAmount := fineAmount,finePaidAt := some now}

def payFine (loanId : String) : Service PaymentView := do
  let loan ← require (.notFound "Empréstimo ativo não encontrado")
    (← LoanRepository.findActiveByIdForUpdate loanId)
  let now ← Program.now
  let fineAmount := calculateAmount loan.dueDate now
  refuse (fineAmount ≤ 0) (.businessRule "O empréstimo não possui multa a pagar")
  let paymentAmount := fineAmount - loan.finePaidAmount
  refuse (paymentAmount ≤ 0) (.businessRule "A multa do empréstimo já está paga")
  let loan ← LoanRepository.update loan (paid loan now)
  invalidateLoanCache loan.userId loan.id
  return ⟨loan.id,loan.fineAmount,paymentAmount,loan.finePaidAmount,loan.finePaidAt⟩

def listPaginated (p : Pagination) (f : LoanRepository.Filters) : Service Payload := do
  match ← get (listKey p f) with
  | some cached => return cached
  | none =>
    let (loans,total) ← LoanRepository.listPaginated p f
    let items ← serializeAll loans
    let response := Payload.loans ⟨items,total,p.page,p.size⟩
    set (listKey p f) response
    return response

def listByUserPaginated (userId : String) (p : Pagination) (status : Option LoanStatus) :
    Service Payload := do
  match ← get (userKey userId p status) with
  | some cached => return cached
  | none =>
    let _ ← require (.notFound "Usuário não encontrado")
      (← select fun d => UserRepository.findById d userId)
    let (loans,total) ← LoanRepository.listPaginated p ⟨some userId,none,status,none⟩
    let items ← serializeAll loans
    let response := Payload.loans ⟨items,total,p.page,p.size⟩
    set (userKey userId p status) response
    return response

/- Comparing an aware with a naive datetime raises TypeError. -/
def dueDateChecked (loan : LoanModel) : Option DateTime → Service LoanModel
  | none => return loan
  | some (.aware _ _) => raise .typeError
  | some (.naive t) => do
    refuse (t ≤ loan.loanDate)
      (.businessRule "A data de vencimento deve ser maior que a data do empréstimo")
    return {loan with dueDate := t}

def updateLoan (loanId : String) (data : UpdateLoanSchema) : Service LoanView := do
  let loan ← require (.notFound "Empréstimo não encontrado")
    (← select fun d => LoanRepository.findById d loanId)
  refuse (loan.status ≠ .active)
    (.businessRule "Apenas empréstimos ativos podem ser atualizados")
  let changed ← dueDateChecked loan data.dueDate
  let updatedLoan ← LoanRepository.update loan changed
  invalidateLoanCache updatedLoan.userId updatedLoan.id
  serializeLoan updatedLoan

def cancelled (loan : LoanModel) (now : Int) : LoanModel :=
  {loan with status := .cancelled,cancelledAt := some now,fineAmount := 0}

def cancelLoan (loanId : String) : Service CancelView := do
  let loan ← require (.notFound "Empréstimo ativo não encontrado")
    (← LoanRepository.findActiveByIdForUpdate loanId)
  let book ← require (.notFound "Livro não encontrado")
    (← LoanRepository.getBookForUpdate loan.bookId.text)
  let now ← Program.now
  write (.updateBook book (restocked book 1))
  write (.updateLoan loan (cancelled loan now))
  commit
  let loan ← LoanRepository.refresh (cancelled loan now)
  forgetBook loan.bookId.text
  invalidateLoanCache loan.userId loan.id
  let occurredAt ← Program.now
  publish (.loanCancelled occurredAt loan.id loan.userId loan.bookId)
  return ⟨loan.id,loan.status,loan.cancelledAt⟩

def renewed (loan : LoanModel) : LoanModel :=
  {loan with
    dueDate := loan.dueDate + days renewalDays
    renewalCount := loan.renewalCount + 1}

def renewLoan (loanId : String) : Service RenewView := do
  let loan ← require (.notFound "Empréstimo ativo não encontrado")
    (← LoanRepository.findActiveByIdForUpdate loanId)
  let now ← Program.now
  refuse (0 < calculateDaysLate loan.dueDate now)
    (.businessRule "Empréstimos em atraso não podem ser renovados")
  refuse (maxRenewals ≤ loan.renewalCount)
    (.businessRule "O empréstimo atingiu o número máximo de renovações")
  let hasActiveReservation ← select fun d =>
    ReservationRepository.existsActiveForBook d loan.bookId
  refuse (hasActiveReservation = true)
    (.businessRule "O empréstimo não pode ser renovado porque o livro possui reservas ativas")
  let loan ← LoanRepository.update loan (renewed loan)
  return ⟨loan.id,loan.status,loan.dueDate,loan.renewalCount⟩

end LibraryApi.LoanService
