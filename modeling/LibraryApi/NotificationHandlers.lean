import LibraryApi.CacheService
import LibraryApi.EventBus

/-! Domain events, the notifications their handlers send, and the bus of one
request. A handler writes and commits through the session of the request that
published the event. -/
namespace LibraryApi.NotificationHandlers
open Models CacheService
open EventBus (Handler Bus)
open Program (select write commit now)

inductive EventType where
  | loanCreated
  | loanReturned
  | loanCancelled
  | reservationCreated
  | reservationCancelled
  deriving DecidableEq, Repr

inductive DomainEvent where
  | loanCreated (occurredAt : Int) (loanId userId bookId : Uuid)
  | loanReturned (occurredAt : Int) (loanId userId bookId : Uuid)
  | loanCancelled (occurredAt : Int) (loanId userId bookId : Uuid)
  | reservationCreated (occurredAt : Int) (reservationId userId bookId : Uuid)
  | reservationCancelled (occurredAt : Int) (reservationId userId bookId : Uuid)

def DomainEvent.type : DomainEvent → EventType
  | .loanCreated .. => .loanCreated
  | .loanReturned .. => .loanReturned
  | .loanCancelled .. => .loanCancelled
  | .reservationCreated .. => .reservationCreated
  | .reservationCancelled .. => .reservationCancelled

inductive HandlerClass where
  | loanCreatedNotificationHandler
  | loanReturnedNotificationHandler
  | loanCancelledNotificationHandler
  | reservationCreatedNotificationHandler
  | reservationCancelledNotificationHandler
  deriving DecidableEq, Repr

abbrev EventHandler := Handler HandlerClass DomainEvent Service

namespace NotificationRepository

/- The id and the creation instant are column defaults, read at the flush. -/
def create (row : Uuid → Int → NotificationModel) : Service NotificationModel := do
  let id ← newUuid
  let createdAt ← now
  write (.insertNotification (row id createdAt))
  commit
  select fun d => (d.notifications.find? (fun r => r.id == id)).getD (row id createdAt)

end NotificationRepository

namespace NotificationService

def sendNotification (userId : Uuid) (notificationType : NotificationType) (message : String)
    (loanId reservationId : Option Uuid) : Service NotificationModel := do
  let sentAt ← now
  NotificationRepository.create fun id createdAt =>
    {id := id,userId := userId,loanId := loanId,reservationId := reservationId,
      type := notificationType,status := .sent,channel := "EMAIL_FAKE",message := message,
      sentAt := some sentAt,createdAt := createdAt}

end NotificationService
open NotificationService (sendNotification)

/- A handler is subscribed to one event type only and ignores the others. -/
def loanCreatedNotificationHandler : EventHandler :=
  ⟨.loanCreatedNotificationHandler,fun
    | .loanCreated _ loanId userId _ => do
      let _ ← sendNotification userId .loanCreated
        ("Empréstimo criado com sucesso. " ++ "O prazo padrão de devolução é de 14 dias.")
        (some loanId) none
    | _ => pure ()⟩

def loanReturnedNotificationHandler : EventHandler :=
  ⟨.loanReturnedNotificationHandler,fun
    | .loanReturned _ loanId userId _ => do
      let _ ← sendNotification userId .loanReturned "Empréstimo devolvido com sucesso."
        (some loanId) none
    | _ => pure ()⟩

def loanCancelledNotificationHandler : EventHandler :=
  ⟨.loanCancelledNotificationHandler,fun
    | .loanCancelled _ loanId userId _ => do
      let _ ← sendNotification userId .loanCancelled "Empréstimo cancelado com sucesso."
        (some loanId) none
    | _ => pure ()⟩

def reservationCreatedNotificationHandler : EventHandler :=
  ⟨.reservationCreatedNotificationHandler,fun
    | .reservationCreated _ reservationId userId _ => do
      let _ ← sendNotification userId .reservationCreated
        ("Reserva criada com sucesso. " ++ "Avisaremos quando o livro estiver disponivel.")
        none (some reservationId)
    | _ => pure ()⟩

def reservationCancelledNotificationHandler : EventHandler :=
  ⟨.reservationCancelledNotificationHandler,fun
    | .reservationCancelled _ reservationId userId _ => do
      let _ ← sendNotification userId .reservationCancelled "Reserva cancelada com sucesso."
        none (some reservationId)
    | _ => pure ()⟩

abbrev ServiceBus := Bus EventType HandlerClass DomainEvent Service

def registerEventHandlers (bus : ServiceBus) : ServiceBus :=
  let bus := EventBus.subscribe bus .loanCreated loanCreatedNotificationHandler
  let bus := EventBus.subscribe bus .loanReturned loanReturnedNotificationHandler
  let bus := EventBus.subscribe bus .loanCancelled loanCancelledNotificationHandler
  let bus := EventBus.subscribe bus .reservationCreated reservationCreatedNotificationHandler
  EventBus.subscribe bus .reservationCancelled reservationCancelledNotificationHandler

def requestBus : ServiceBus := registerEventHandlers EventBus.empty

def publish (event : DomainEvent) : Service Unit := EventBus.publish requestBus DomainEvent.type event

theorem publishDelivers (event : DomainEvent) : publish event = (do
    (match event.type with
      | .loanCreated => loanCreatedNotificationHandler
      | .loanReturned => loanReturnedNotificationHandler
      | .loanCancelled => loanCancelledNotificationHandler
      | .reservationCreated => reservationCreatedNotificationHandler
      | .reservationCancelled => reservationCancelledNotificationHandler).handle event
    pure ()) := by
  cases event <;> rfl

end LibraryApi.NotificationHandlers
