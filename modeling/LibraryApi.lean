import LibraryApi.StockRaces
import LibraryApi.QuotaRaces
import LibraryApi.LoanClosing
import LibraryApi.FineLedger
import LibraryApi.LoanCache
import LibraryApi.LoanRaces
import LibraryApi.DueDateRaces
import LibraryApi.ReservationRaces
import LibraryApi.ReservationCancelling
import LibraryApi.CatalogueRaces
import LibraryApi.FailedRequests
import LibraryApi.RenewalRaces
import LibraryApi.BookCache
import LibraryApi.StaleRefill
import LibraryApi.DailyReminders
import LibraryApi.OwnerIsolation
import LibraryApi.ReminderRun
import LibraryApi.Overdue
import LibraryApi.UpdatedDueDates
import LibraryApi.BookSearch
import LibraryApi.AvailabilityFilter
import LibraryApi.QueueForOthers
import LibraryApi.ClosedLoanView
import LibraryApi.BookBodies
import LibraryApi.OverlappingJobs
import LibraryApi.LateDays
import LibraryApi.EventDelivery
import LibraryApi.EmailReuse
import LibraryApi.Reports
import LibraryApi.Api
import LibraryApi.FairSchedules
import LibraryApi.UseRules
import LibraryApi.Application
import LibraryApi.LockOrder
import LibraryApi.Permanence
import LibraryApi.ServiceTexts
import LibraryApi.Progress
import LibraryApi.JointRules
import LibraryApi.Particulars
import LibraryApi.References
import LibraryApi.ReferentialIntegrity
import LibraryApi.Authority
import LibraryApi.Credentials
import LibraryApi.Receipts
import LibraryApi.Announcements
import LibraryApi.StockLedger
import LibraryApi.ErrorCatalogue
import LibraryApi.TiedPaging
import LibraryApi.OrderedListings
import LibraryApi.PaymentLedger
import LibraryApi.MomentRules
import LibraryApi.CachedTruth
import LibraryApi.TurnRules
import LibraryApi.FirstTurns
