import LibraryApi.Api
import LibraryApi.UseRules

/-! What the services await, read off their texts. Whatever only reads, Redis included, takes
no lock and writes nothing; a notification is inserted without a lock. -/
namespace LibraryApi.ServiceTexts
open Models CacheService Repositories NotificationHandlers Controllers Security
open Program (Uses Looks usesPure usesRaise usesSelect usesNow usesCall usesBind looksUses)

variable {α : Type}

section Reading

theorem requireLooks (e : ApiError) (row : Option α) : Looks (require e row) := by
  cases row with
  | none => exact usesRaise e
  | some row => exact usesPure row

theorem refuseLooks (bad : Prop) [Decidable bad] (e : ApiError) : Looks (refuse bad e) := by
  unfold refuse
  split
  · exact usesRaise e
  · exact usesPure ()

theorem uniqueLooks (rows : List α) : Looks (scalarOneOrNone rows) := by
  unfold scalarOneOrNone
  split
  · exact usesPure none
  · exact usesPure (some _)
  · exact usesRaise _

theorem findUses {S : Program.Use Write → Prop} {β : Type} {query : Database → Option β} {e : ApiError} {f : β → Service α}
    (rest : ∀ row, Uses S (f row)) : Uses S (do let row ← require e (← Program.select query); f row) :=
  usesBind (usesSelect query) fun row => usesBind (looksUses (requireLooks e row)) rest

theorem findLooks (query : Database → Option α) (e : ApiError) : Looks (do require e (← Program.select query)) :=
  usesBind (usesSelect query) (requireLooks e)

theorem redisLooks (act : Cache → α × Cache) : Looks (redis act) := usesCall _

theorem deleteKeysLooks (keys : List String) : Looks (deleteKeys keys) := by
  induction keys with
  | nil => exact usesPure ()
  | cons key rest ih => exact usesBind (redisLooks _) fun _ => ih

theorem deletePatternLooks (pattern : String) : Looks (deletePattern pattern) := usesBind (redisLooks _) deleteKeysLooks

theorem forgetBookLooks (bookId : String) : Looks (BookService.forgetBook bookId) :=
  usesBind (redisLooks _) fun _ => deletePatternLooks _

theorem forgetBooksLooks : Looks AuthorService.forgetBooks := usesBind (deletePatternLooks _) fun _ => deletePatternLooks _

theorem invalidateLooks (userId loanId : Uuid) : Looks (LoanService.invalidateLoanCache userId loanId) :=
  usesBind (redisLooks _) fun _ => usesBind (deletePatternLooks _) fun _ => deletePatternLooks _

theorem serializeLooks (loan : LoanModel) : Looks (LoanService.serializeLoan loan) := by
  unfold LoanService.serializeLoan
  split
  · exact usesPure _
  · exact usesBind usesNow fun _ => usesPure _

theorem serializeAllLooks (loans : List LoanModel) : Looks (LoanService.serializeAll loans) := by
  induction loans with
  | nil => exact usesPure _
  | cons loan rest ih => exact usesBind (serializeLooks loan) fun _ => usesBind ih fun _ => usesPure _

theorem cachedLooks (key : String) {p : Service Payload} (fresh : Looks p) : Looks (do
    match ← CacheService.get key with
    | some cached => return cached
    | none => p) := by
  refine usesBind (redisLooks _) fun hit => ?_
  cases hit with
  | some cached => exact usesPure cached
  | none => exact fresh

theorem listBooksLooks (p : Pagination) (f : BookRepository.Filters) : Looks (BookService.listBooksPaginated p f) := by
  refine cachedLooks _ (usesBind ?_ fun _ => usesBind (redisLooks _) fun _ => usesPure _)
  exact usesBind (usesCall _) fun _ => usesBind (usesCall _) fun _ => usesBind (usesSelect _) fun _ =>
    usesBind (usesSelect _) fun _ => usesPure _

theorem getBookLooks (bookId : String) : Looks (BookService.getBook bookId) :=
  cachedLooks _ (findUses fun ⟨_,_⟩ => usesBind (redisLooks _) fun _ => usesPure _)

theorem getLoanLooks (loanId : String) : Looks (LoanService.getLoan loanId) :=
  cachedLooks _ (findUses fun _ => usesBind (serializeLooks _) fun _ => usesBind (redisLooks _) fun _ => usesPure _)

theorem loanPageLooks (p : Pagination) (f : LoanRepository.Filters) : Looks (LoanRepository.listPaginated p f) :=
  usesBind usesNow fun _ => usesBind (usesCall _) fun _ => usesBind (usesSelect _) fun _ => usesBind (usesSelect _) fun _ => usesPure _

theorem listLoansLooks (p : Pagination) (f : LoanRepository.Filters) : Looks (LoanService.listPaginated p f) :=
  cachedLooks _ (usesBind (loanPageLooks p f) fun _ => usesBind (serializeAllLooks _) fun _ =>
    usesBind (redisLooks _) fun _ => usesPure _)

theorem listLoansByUserLooks (userId : String) (p : Pagination) (status : Option LoanStatus) :
    Looks (LoanService.listByUserPaginated userId p status) :=
  cachedLooks _ (findUses fun _ => usesBind (loanPageLooks _ _) fun _ => usesBind (serializeAllLooks _) fun _ =>
    usesBind (redisLooks _) fun _ => usesPure _)

theorem rowsLooks (rows : List Nat → Database → List α) (total : Database → Nat) : Looks (do
    let order ← rowOrder
    let found ← Program.select (rows order)
    let total ← Program.select total
    return (found,total)) :=
  usesBind (usesCall _) fun _ => usesBind (usesSelect _) fun _ => usesBind (usesSelect _) fun _ => usesPure _

theorem reservationsLooks (p : Pagination) (f : ReservationRepository.Filters) : Looks (ReservationService.listPaginated p f) :=
  usesBind (rowsLooks _ _) fun _ => usesPure _

theorem usersLooks (p : Pagination) : Looks (UserService.listUsersPaginated p) := usesBind (rowsLooks _ _) fun _ => usesPure _
theorem authorsLooks (p : Pagination) : Looks (AuthorService.listAuthorsPaginated p) := usesBind (rowsLooks _ _) fun _ => usesPure _

theorem notificationsLooks (p : Pagination) (userId : Option String) : Looks (NotificationRepository.listPaginated p userId) :=
  rowsLooks _ _

theorem statsLooks (startDate endDate : Option LoanService.DateTime) : Looks (Reports.ReportService.getStats startDate endDate) :=
  usesBind (usesSelect _) fun _ => usesBind (usesSelect _) fun _ => usesBind (usesBind (usesCall _) fun _ => usesSelect _) fun _ =>
    usesPure _

theorem executeLooks (query : LoanModel → Bool) : Looks (Reports.ReportService.execute query) :=
  usesBind (usesCall _) fun _ => usesSelect _

theorem currentUserLooks (token : Token) : Looks (getCurrentUser token) := by
  cases token with
  | expired => exact usesRaise _
  | invalid => exact usesRaise _
  | payload sub role => exact findLooks _ _

theorem currentAdminLooks (token : Token) : Looks (getCurrentAdmin token) :=
  usesBind (currentUserLooks token) fun _ => usesBind (refuseLooks _ _) fun _ => usesPure _

theorem ownerLooks (loan : Payload) : Looks (LoanController.userIdOf loan) := by
  cases loan with
  | loan view => exact usesPure _
  | _ => exact usesRaise _

theorem decodeLooks (s : Deployment) (token : String) : Looks (decodeToken s token) := by
  unfold decodeToken
  split
  · exact usesPure _
  · exact usesBind usesNow fun _ => usesPure _

theorem loginLooks (s : Deployment) (data : LoginSchema) : Looks (login s data) :=
  usesBind (usesSelect _) fun _ => usesBind (uniqueLooks _) fun _ => usesBind (requireLooks _ _) fun _ =>
    usesBind (refuseLooks _ _) fun _ => usesBind usesNow fun _ => usesPure _

end Reading

section Notifications

theorem existsLooks (zone : DueLoanNotificationJob.UtcOffset) (loanId : Uuid) (type : NotificationType) :
    Looks (DueLoanNotificationJob.NotificationRepository.existsForLoanToday zone loanId type) :=
  usesBind (usesBind usesNow fun _ => usesPure _) fun _ => usesBind (usesSelect _) fun _ =>
    usesBind (uniqueLooks _) fun _ => usesPure _

def notes : Program.Use Write → Prop
  | .write (.insertNotification _) => True
  | .commit => True
  | _ => False

theorem sendNotes (userId : Uuid) (type : NotificationType) (message : String) (loanId reservationId : Option Uuid) :
    Uses notes (NotificationService.sendNotification userId type message loanId reservationId) :=
  usesBind usesNow fun _ => usesBind (usesCall _) fun _ => usesBind usesNow fun _ =>
    usesBind ((Program.usesWrite _).mpr trivial) fun _ => usesBind (Program.usesCommit.mpr trivial) fun _ => usesSelect _

theorem publishNotes (event : DomainEvent) : Uses notes (publish event) := by
  rw [publishDelivers]
  cases event <;> exact usesBind (usesBind (sendNotes _ _ _ _ _) fun _ => usesPure _) fun _ => usesPure _

theorem sendOnceNotes (zone : DueLoanNotificationJob.UtcOffset) (userId : Uuid) (type : NotificationType) (message : String)
    (loanId reservationId : Option Uuid) :
    Uses notes (DueLoanNotificationJob.NotificationService.sendOncePerDay zone userId type message loanId reservationId) := by
  have send (already : Bool) : Uses notes (if already then (return none : Service (Option NotificationModel)) else do
      let created ← NotificationService.sendNotification userId type message loanId reservationId
      return some created) := by
    cases already with
    | true => exact usesPure _
    | false => exact usesBind (sendNotes _ _ _ _ _) fun _ => usesPure _
  cases loanId with
  | none => exact send false
  | some loanId => exact usesBind (looksUses (existsLooks _ _ _)) send

theorem remindAllNotes (zone : DueLoanNotificationJob.UtcOffset) (type : NotificationType) (message : String)
    (loans : List LoanModel) : Uses notes (DueLoanNotificationJob.remindAll zone type message loans) := by
  induction loans with
  | nil => exact usesPure ()
  | cons loan rest ih => exact usesBind (sendOnceNotes _ _ _ _ _ _) fun _ => ih

theorem executeNotes (zone : DueLoanNotificationJob.UtcOffset) : Uses notes (DueLoanNotificationJob.execute zone) := by
  have dated (day : Int) : Uses notes (DueLoanNotificationJob.LoanRepository.listDueOnDate day) :=
    usesBind (usesCall _) fun _ => usesSelect _
  have overdue : Uses notes DueLoanNotificationJob.LoanRepository.listOverdueForNotifications :=
    usesBind usesNow fun _ => usesBind (usesCall _) fun _ => usesSelect _
  refine usesBind (usesBind usesNow fun _ => usesPure _) fun today => ?_
  refine usesBind (dated _) fun _ => usesBind (remindAllNotes _ _ _ _) fun _ => ?_
  refine usesBind (dated _) fun _ => usesBind (remindAllNotes _ _ _ _) fun _ => ?_
  exact usesBind overdue fun _ => remindAllNotes _ _ _ _

theorem loanTailNotes {bookId : String} {userId loanId : Uuid} {event : Int → DomainEvent} {k : Service α} (last : Looks k) :
    Uses notes (do
      BookService.forgetBook bookId
      LoanService.invalidateLoanCache userId loanId
      let t ← Program.now
      publish (event t)
      k) :=
  usesBind (looksUses (forgetBookLooks _)) fun _ => usesBind (looksUses (invalidateLooks _ _)) fun _ =>
    usesBind usesNow fun _ => usesBind (publishNotes _) fun _ => looksUses last

end Notifications
end LibraryApi.ServiceTexts
