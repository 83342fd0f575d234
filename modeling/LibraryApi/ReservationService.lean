import LibraryApi.NotificationHandlers
import LibraryApi.Repositories

/-! Reservations. The two operations that write test and write on plainly read rows; the
event is published after the commit. Nothing here goes through the cache. -/
namespace LibraryApi.ReservationService
open Models CacheService Repositories NotificationHandlers
open Program (select write commit now)

structure CancelView where
  id : Uuid
  status : ReservationStatus
  cancelledAt : Option Int
  deriving DecidableEq

def newReservation (id : Uuid) (user : UserModel) (book : BookModel) (createdAt : Int) :
    ReservationModel :=
  ⟨id,user.id,book.id,.active,createdAt,none,none⟩

def cancelled (reservation : ReservationModel) (now : Int) : ReservationModel :=
  {reservation with status := .cancelled,cancelledAt := some now}

def createReservation (bookId userId : String) : Service ReservationModel := do
  let user ← require (.notFound "Usuário não encontrado")
    (← select fun d => UserRepository.findById d userId)
  let (book,_) ← require (.notFound "Livro não encontrado")
    (← select fun d => BookRepository.findById d bookId)
  refuse (0 < book.availableCopies)
    (.businessRule "O livro está disponível e não precisa de reserva")
  let existing ← scalarOneOrNone
    (← select fun d => ReservationRepository.findActiveByUserAndBook d userId bookId)
  refuse (existing.isSome) (.businessRule "O usuário já possui uma reserva ativa para este livro")
  let id ← newUuid
  let createdAt ← now
  -- the ids are those of the two rows found above
  let reservation := newReservation id user book createdAt
  write (.insertReservation reservation)
  commit
  let created ← select fun d => (d.reservations.find id.text).getD reservation
  let occurredAt ← now
  publish (.reservationCreated occurredAt created.id created.userId created.bookId)
  return created

/- What is done once the row is there. -/
def cancelLoaded (reservation : ReservationModel) : Service CancelView := do
  refuse (reservation.status ≠ .active)
    (.businessRule "Apenas reservas ativas podem ser canceladas")
  let cancelledAt ← now
  let updated ← ReservationRepository.update reservation (cancelled reservation cancelledAt)
  let occurredAt ← now
  publish (.reservationCancelled occurredAt updated.id updated.userId updated.bookId)
  return ⟨updated.id,updated.status,updated.cancelledAt⟩

def cancelReservation (reservationId : String) : Service CancelView := do
  let reservation ← require (.notFound "Reserva não encontrada")
    (← select fun d => ReservationRepository.findById d reservationId)
  cancelLoaded reservation

def listPaginated (p : Pagination) (f : ReservationRepository.Filters) : Service (Page ReservationModel) := do
  let (reservations,total) ← ReservationRepository.listPaginated p f
  return ⟨reservations,total,p.page,p.size⟩

def getReservation (reservationId : String) : Service ReservationModel := do
  require (.notFound "Reserva não encontrada")
    (← select fun d => ReservationRepository.findById d reservationId)

end LibraryApi.ReservationService
