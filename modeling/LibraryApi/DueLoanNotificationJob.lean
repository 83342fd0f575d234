import LibraryApi.FineCalculator
import LibraryApi.NotificationHandlers
import LibraryApi.Repositories

/-! The job that reminds borrowers. The dates it asks for are those of the server's
calendar, `date.today()`; due dates and creation instants are naive UTC datetimes, and
their dates those of the UTC calendar. -/
namespace LibraryApi.DueLoanNotificationJob
open Models CacheService NotificationHandlers
open FineCalculator (date dayMicros)
open Program (select now)

structure UtcOffset where
  micros : Int
  low : -dayMicros < micros
  high : micros < dayMicros

namespace UtcOffset

def date (z : UtcOffset) (t : Int) : Int := FineCalculator.date (t + z.micros)

def today (z : UtcOffset) : Service Int := do
  let t ← now
  return z.date t

end UtcOffset

namespace LoanRepository

def listDueOnDate (dueDate : Int) : Service (List LoanModel) := do
  let order ← rowOrder
  select fun d : Database => Repositories.arranged order
    (d.loans.rows.filter fun l => l.status == .active && date l.dueDate == dueDate)

def listOverdueForNotifications : Service (List LoanModel) := do
  let now ← now
  let order ← rowOrder
  select fun d : Database => Repositories.arranged order
    (d.loans.rows.filter fun l => l.status == .active && decide (l.dueDate < now))

end LoanRepository

namespace NotificationRepository

def existsForLoanToday (z : UtcOffset) (loanId : Uuid) (type : NotificationType) : Service Bool := do
  let today ← z.today
  let rows ← select fun d : Database => d.notifications.filter fun r =>
    r.loanId == some loanId && r.type == type && date r.createdAt == today
  let row ← scalarOneOrNone rows
  return row.isSome

end NotificationRepository

namespace NotificationService

/- Without a loan nothing is looked up and the notification is always sent. -/
def sendOncePerDay (z : UtcOffset) (userId : Uuid) (type : NotificationType) (message : String)
    (loanId reservationId : Option Uuid) : Service (Option NotificationModel) := do
  let alreadySent ← match loanId with
    | some loanId => NotificationRepository.existsForLoanToday z loanId type
    | none => pure false
  if alreadySent then return none
  else
    let created ← NotificationHandlers.NotificationService.sendNotification userId type message loanId
      reservationId
    return some created

end NotificationService

def remindAll (z : UtcOffset) (type : NotificationType) (message : String) : List LoanModel → Service Unit
  | [] => return ()
  | loan :: rest => do
    let _ ← NotificationService.sendOncePerDay z loan.userId type message (some loan.id) none
    remindAll z type message rest

def execute (z : UtcOffset) : Service Unit := do
  let today ← z.today
  let dueSoonDate := today + 2
  let dueSoonLoans ← LoanRepository.listDueOnDate dueSoonDate
  remindAll z .loanDueSoon "Seu empréstimo vence em 2 dias." dueSoonLoans
  let dueTodayLoans ← LoanRepository.listDueOnDate today
  remindAll z .loanDueToday "Seu empréstimo vence hoje." dueTodayLoans
  let overdueLoans ← LoanRepository.listOverdueForNotifications
  remindAll z .loanOverdue "Seu empréstimo está atrasado. Regularize a devolução." overdueLoans

end LibraryApi.DueLoanNotificationJob
