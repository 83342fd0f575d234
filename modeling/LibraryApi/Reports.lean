import LibraryApi.BookBodies
import LibraryApi.Csv
import LibraryApi.LoanHistory
import LibraryApi.UpdatedDueDates
import Mathlib.Algebra.BigOperators.Group.List.Basic
import Mathlib.Algebra.Order.Ring.Int

/-! The three reports. Each reads the loans in one SELECT, and the window of dates is
written out twice, in the statistics and in the filters of the other two. Amounts are
whole, so a float of one ends in `.0`, and their sum is taken without rounding. The PDF is
what is handed to reportlab, without the margins of the page and the colours of the table. -/
namespace LibraryApi.Reports
open Models CacheService Repositories Requests Runs
open BookBodies (isoformat datePart)
open Json (writeInt readInt)
open LoanService (DateTime)
open KeyedTable (Table)
open Program (Env alone select)

namespace ReportService

def normalizeDatetime (value : Option DateTime) : Option Int := value.map UpdatedDueDates.ReportService.normalizeDatetime

section Queries

abbrev Query := LoanModel → Bool

def narrowed {α : Type} (query : Query) (value : Option α) (column : α → Query) : Query := match value with
  | none => query
  | some a => fun l => query l && column a l

def truthy (filter : Option String) : Option String := filter.filter fun s => !s.isEmpty

def applyLoanFilters (query : Query) (status : Option LoanStatus) (userId bookId : Option String)
    (startDate endDate : Option DateTime) : Query :=
  let startDate := normalizeDatetime startDate
  let endDate := normalizeDatetime endDate
  let query := narrowed query status fun s l => l.status == s
  let query := narrowed query (truthy userId) fun s l => l.userId.text == s
  let query := narrowed query (truthy bookId) fun s l => l.bookId.text == s
  let query := narrowed query startDate fun t l => decide (t ≤ l.loanDate)
  narrowed query endDate fun t l => decide (l.loanDate ≤ t)

def execute (query : Query) : Service (List LoanModel) := do
  let order ← rowOrder
  select fun d : Database => arranged order (d.loans.rows.filter query)

end Queries

section Statistics

structure Stats where
  totalBooks : Nat
  totalUsers : Nat
  totalLoans : Nat
  activeLoans : Nat
  returnedLoans : Nat
  cancelledLoans : Nat
  totalFines : Int
  deriving DecidableEq

def totalFines (loans : List LoanModel) : Int := (loans.map fun l => l.fineAmount).sum

def statsOf (totalBooks totalUsers : Nat) (loans : List LoanModel) : Stats :=
  {totalBooks := totalBooks
   totalUsers := totalUsers
   totalLoans := loans.length
   activeLoans := (loans.filter fun l => l.status == .active).length
   returnedLoans := (loans.filter fun l => l.status == .returned).length
   cancelledLoans := (loans.filter fun l => l.status == .cancelled).length
   totalFines := totalFines loans}

def getStats (startDate endDate : Option DateTime) : Service Stats := do
  let startDate := normalizeDatetime startDate
  let endDate := normalizeDatetime endDate
  let totalBooks ← select fun d : Database => d.books.rows.length
  let totalUsers ← select fun d : Database => d.users.rows.length
  let loanQuery := narrowed (fun _ => true) startDate fun t l => decide (t ≤ l.loanDate)
  let loanQuery := narrowed loanQuery endDate fun t l => decide (l.loanDate ≤ t)
  let loans ← execute loanQuery
  return statsOf totalBooks totalUsers loans

end Statistics

section Rows

def statusValue : LoanStatus → String
  | .active => "ACTIVE"
  | .returned => "RETURNED"
  | .cancelled => "CANCELLED"

def floatText (n : Int) : String := String.ofList (writeInt n ++ ['.','0'])

def header : List String := ["id","user_id","book_id","loan_date","due_date","returned_at","cancelled_at","status",
  "fine_amount","renewal_count"]

def csvRow (loan : LoanModel) : List String :=
  [loan.id.text,loan.userId.text,loan.bookId.text,isoformat 'T' loan.loanDate,isoformat 'T' loan.dueDate,
    (loan.returnedAt.map (isoformat 'T')).getD "",(loan.cancelledAt.map (isoformat 'T')).getD "",
    statusValue loan.status,floatText loan.fineAmount,String.ofList (writeInt loan.renewalCount)]

def generateLoansCsv (status : Option LoanStatus) (userId bookId : Option String) (startDate endDate : Option DateTime) :
    Service String := do
  let loans ← execute (applyLoanFilters (fun _ => true) status userId bookId startDate endDate)
  return Csv.write (header :: loans.map csvRow)

end Rows

section Pages

inductive Style where
  | title
  | normal
  | bodyText
  deriving DecidableEq

inductive Cell where
  | text (s : String)
  | paragraph (s : String) (style : Style)
  deriving DecidableEq

inductive Flowable where
  | paragraph (s : String) (style : Style)
  | spacer (width height : Nat)
  | table (data : List (List Cell)) (colWidths : List Nat) (repeatRows : Nat)
  deriving DecidableEq

def cents (n : Int) : List Char := writeInt n ++ ['.','0','0']

def summary (loans : List LoanModel) : String := String.ofList ("Total de registros: ".toList ++
  (writeInt loans.length ++ (" | Total de multas: R$ ".toList ++ cents (totalFines loans))))

def fineRow (loan : LoanModel) : List Cell :=
  [.paragraph loan.id.text .bodyText,.paragraph loan.userId.text .bodyText,.paragraph loan.bookId.text .bodyText,
    .text (statusValue loan.status),.text (datePart loan.dueDate),.text ((loan.returnedAt.map datePart).getD ""),
    .text ("R$ " ++ String.ofList (cents loan.fineAmount))]

def elements (loans : List LoanModel) : List Flowable :=
  [.paragraph "Relatório de Multas" .title,.spacer 1 12,.paragraph (summary loans) .normal,.spacer 1 12,
    if loans.isEmpty then .paragraph "Nenhuma multa encontrada para os filtros informados." .normal
    else .table (["Loan ID","User ID","Book ID","Status","Due Date","Returned At","Fine"].map .text :: loans.map fineRow)
      [120,120,120,65,75,75,65] 1]

def generateFinesPdf (userId bookId : Option String) (minAmount : Option Rat) (startDate endDate : Option DateTime) :
    Service (List Flowable) := do
  let query := applyLoanFilters (fun l => decide (0 < l.fineAmount)) none userId bookId startDate endDate
  let query := narrowed query minAmount fun m l => decide (m ≤ l.fineAmount)
  let loans ← execute query
  return elements loans

end Pages
end ReportService
open ReportService

section Readers

def column (rows : List (List String)) (name : String) : List String := rows.filterMap fun row => (header.zip row).lookup name

def readFloat (s : String) : Option Int := match readInt s.toList with
  | some (n,['.','0']) => some n
  | _ => none

def readTotal (s : String) : Option Int := do
  let rest ← "Total de registros: ".toList.isPrefixOf? s.toList
  let (_,rest) ← readInt rest
  let rest ← " | Total de multas: R$ ".toList.isPrefixOf? rest
  match readInt rest with
  | some (n,['.','0','0']) => some n
  | _ => none

def pdfTotal (pdf : List Flowable) : Option Int := pdf.findSome? fun
  | .paragraph s .normal => readTotal s
  | _ => none

structure Agree (stats : Stats) (rows : List (List String)) (pdf : List Flowable) : Prop where
  total : stats.totalLoans = rows.length
  statuses : stats.activeLoans + stats.returnedLoans + stats.cancelledLoans = stats.totalLoans
  active : stats.activeLoans = (column rows "status").count "ACTIVE"
  returned : stats.returnedLoans = (column rows "status").count "RETURNED"
  cancelled : stats.cancelledLoans = (column rows "status").count "CANCELLED"
  fines : ((column rows "fine_amount").mapM readFloat).map List.sum = some stats.totalFines
  charged : pdfTotal pdf = some stats.totalFines

end Readers

section Totals

theorem prefixRead (p rest : List Char) : p.isPrefixOf? (p ++ rest) = some rest := by
  induction p with
  | nil => rfl
  | cons c p ih => rw [List.cons_append,List.isPrefixOf?,if_pos (beq_self_eq_true c),ih]

theorem intRead (n : Int) {c : Char} (stops : c.isDigit = false) (rest : List Char) :
    readInt (writeInt n ++ c :: rest) = some (n,c :: rest) := by
  obtain ⟨_,_,written,_,read⟩ := Json.readIntWritten n (@Json.stopsCons c rest stops)
  rw [written,read]

theorem floatRead (n : Int) : readFloat (floatText n) = some n := by
  unfold readFloat floatText
  rw [String.toList_ofList,intRead n rfl]
  rfl

theorem floatsRead (amounts : List Int) : (amounts.map floatText).mapM readFloat = some amounts := by
  induction amounts with
  | nil => rfl
  | cons n rest ih =>
    rw [List.map_cons,List.mapM_cons,floatRead,ih]
    rfl

theorem totalRead (loans : List LoanModel) : readTotal (summary loans) = some (totalFines loans) := by
  have text : (summary loans).toList = "Total de registros: ".toList ++ (writeInt loans.length ++
      (" | Total de multas: R$ ".toList ++ cents (totalFines loans))) := String.toList_ofList
  have count : readInt (writeInt loans.length ++ (" | Total de multas: R$ ".toList ++ cents (totalFines loans))) =
      some (((loans.length : Nat) : Int)," | Total de multas: R$ ".toList ++ cents (totalFines loans)) :=
    intRead (c := ' ') _ rfl _
  have amount : readInt (cents (totalFines loans)) = some (totalFines loans,['.','0','0']) :=
    intRead (c := '.') _ rfl _
  unfold readTotal
  rw [text,prefixRead,Option.bind_eq_bind,Option.bind_some,count,Option.bind_eq_bind,Option.bind_some]
  simp only [prefixRead,Option.bind_some,amount]

theorem pdfRead (loans : List LoanModel) : pdfTotal (elements loans) = some (totalFines loans) := by
  simp only [pdfTotal,elements,List.findSome?_cons]
  rw [totalRead]

end Totals

section Agreement
variable {loans read : List LoanModel}

theorem columnRead {name : String} {f : LoanModel → String} (at_ : ∀ l, (header.zip (csvRow l)).lookup name = some (f l))
    (loans : List LoanModel) : column (loans.map csvRow) name = loans.map f := by
  unfold column
  rw [List.filterMap_map,← List.filterMap_eq_map]
  exact List.filterMap_congr fun l _ => at_ l

theorem statusSame (s s' : LoanStatus) : (statusValue s == statusValue s') = (s == s') := by
  cases s <;> cases s' <;> decide

theorem statusCounted (s : LoanStatus) (same : read.Perm loans) : (read.filter fun l => l.status == s).length =
    (column (loans.map csvRow) "status").count (statusValue s) := by
  rw [columnRead (f := fun l => statusValue l.status) fun _ => rfl,List.count,List.countP_map,← List.countP_eq_length_filter,
    same.countP_eq]
  exact List.countP_congr fun l _ => by simp [statusSame]

theorem statusesCounted (loans : List LoanModel) : (loans.filter fun l => l.status == .active).length +
    (loans.filter fun l => l.status == .returned).length + (loans.filter fun l => l.status == .cancelled).length =
      loans.length := by
  induction loans with
  | nil => rfl
  | cons l rest ih => cases done : l.status <;> simp [done] <;> omega

theorem totalSame (same : read.Perm loans) : totalFines read = totalFines loans := (same.map _).sum_eq

/- What the PDF leaves out adds nothing. -/
theorem totalPositive (nonneg : ∀ l ∈ loans, 0 ≤ l.fineAmount) :
    totalFines (loans.filter fun l => decide (0 < l.fineAmount)) = totalFines loans := by
  induction loans with
  | nil => rfl
  | cons l rest ih =>
    have tail := ih fun l' mem => nonneg l' (List.mem_cons_of_mem _ mem)
    have low := nonneg l List.mem_cons_self
    unfold totalFines at tail ⊢
    by_cases positive : 0 < l.fineAmount
    · simp [positive,tail]
    · have zero : l.fineAmount = 0 := by omega
      simp [zero,tail]

theorem readingsAgree {counted listed fined : List LoanModel} (nonneg : ∀ l ∈ loans, 0 ≤ l.fineAmount)
    (forStats : counted.Perm loans) (forRows : listed.Perm loans)
    (forPages : fined.Perm (loans.filter fun l => decide (0 < l.fineAmount))) (books users : Nat) :
    Agree (statsOf books users counted) (listed.map csvRow) (elements fined) := by
  have same : counted.Perm listed := forStats.trans forRows.symm
  have amounts : ((column (listed.map csvRow) "fine_amount").mapM readFloat).map List.sum = some (totalFines listed) := by
    have texts : listed.map (fun l => floatText l.fineAmount) = (listed.map fun l => l.fineAmount).map floatText :=
      by rw [List.map_map]; rfl
    rw [columnRead (f := fun l => floatText l.fineAmount) fun _ => rfl,texts,floatsRead]
    rfl
  exact {
    total := by rw [List.length_map]; exact same.length_eq
    statuses := statusesCounted counted
    active := statusCounted .active same
    returned := statusCounted .returned same
    cancelled := statusCounted .cancelled same
    fines := by rw [amounts,← totalSame same]; rfl
    charged := by
      rw [pdfRead,totalSame forPages,totalPositive nonneg,← totalSame forStats]
      rfl}

end Agreement

section Windows
variable {startDate endDate startDate' endDate' : Option DateTime} {w : World} {env : Oracle}

def window (startDate endDate : Option Int) : Query := fun l =>
  startDate.all (fun t => decide (t ≤ l.loanDate)) && endDate.all fun t => decide (l.loanDate ≤ t)

def selected (query : Query) (w : World) (env : Env Answer) : List LoanModel :=
  arranged env.answer.order (w.db.loans.rows.filter query)

theorem selectedPerm {loans : Table (fun r : LoanModel => r.id.text)} (same : w.db.loans = loans) (query : Query)
    (env : Env Answer) : (selected query w env).Perm (loans.rows.filter query) := by
  cases same
  exact arrangedPerm _ _

theorem narrowedWindow (query : Query) (startDate endDate : Option Int) :
    narrowed (narrowed query startDate fun t l => decide (t ≤ l.loanDate)) endDate (fun t l => decide (l.loanDate ≤ t)) =
      fun l => query l && window startDate endDate l := by
  funext l
  cases startDate <;> cases endDate <;> simp [narrowed,window,Bool.and_assoc]

theorem filtersWindow (query : Query) : applyLoanFilters query none none none startDate endDate =
    fun l => query l && window (normalizeDatetime startDate) (normalizeDatetime endDate) l := narrowedWindow query _ _

theorem statsServed : (alone 0 (getStats startDate endDate) [] w env).1 = .ok (statsOf w.db.books.rows.length
    w.db.users.rows.length (selected (window (normalizeDatetime startDate) (normalizeDatetime endDate)) w (env 2))) := by
  unfold getStats
  simp only [narrowedWindow,Bool.true_and]
  rfl

theorem csvServed : (alone 0 (generateLoansCsv none none none startDate endDate) [] w env).1 = .ok (Csv.write (header ::
    (selected (window (normalizeDatetime startDate) (normalizeDatetime endDate)) w (env 0)).map csvRow)) := by
  unfold generateLoansCsv
  simp only [filtersWindow,Bool.true_and]
  rfl

theorem pdfServed : (alone 0 (generateFinesPdf none none none startDate endDate) [] w env).1 = .ok (elements (selected
    (fun l => decide (0 < l.fineAmount) && window (normalizeDatetime startDate) (normalizeDatetime endDate) l) w (env 0))) := by
  unfold generateFinesPdf
  simp only [filtersWindow]
  rfl

def written (t : Int) : Option Int → DateTime
  | none => .naive t
  | some offset => .aware (t + offset) offset

inductive SameBound : Option DateTime → Option DateTime → Prop where
  | absent : SameBound none none
  | spelled (t : Int) (offset offset' : Option Int) : SameBound (some (written t offset)) (some (written t offset'))

theorem writtenNormal (t : Int) (offset : Option Int) : normalizeDatetime (some (written t offset)) = some t := by
  cases offset with
  | none => rfl
  | some offset => exact congrArg some (Int.add_sub_cancel t offset)

theorem boundNormal (same : SameBound startDate startDate') : normalizeDatetime startDate = normalizeDatetime startDate' := by
  cases same with
  | absent => rfl
  | spelled t offset offset' => rw [writtenNormal,writtenNormal]

theorem filtersSame (starts : SameBound startDate startDate') (ends : SameBound endDate endDate') (query : Query)
    (status : Option LoanStatus) (userId bookId : Option String) :
    applyLoanFilters query status userId bookId startDate endDate =
      applyLoanFilters query status userId bookId startDate' endDate' := by
  unfold applyLoanFilters
  rw [boundNormal starts,boundNormal ends]

end Windows

theorem finesNonneg (t : Int) (requests : Nat → Option Request) (moves : Moves) :
    ∀ l ∈ ((begin (settled .empty [] t) requests).run moves).world.db.loans.rows, 0 ≤ l.fineAmount := by
  intro l mem
  obtain ⟨path,same⟩ := @poolPath requests .empty [] t moves
  have found := Table.findComplete mem
  rw [same] at found
  have none (l : LoanModel) (k : String) : Database.empty.loans.find k ≠ some l := nofun
  refine LoanHistory.everyLoan (P := fun l => 0 ≤ l.fineAmount) (fun _ _ _ _ _ => Int.le_refl 0) (fun step low => ?_)
    (fun l there => absurd there (none l _)) path l found
  cases step with
  | returned => exact FineCalculator.amountNonneg _ _
  | cancelled => exact Int.le_refl 0
  | paid => exact FineCalculator.amountNonneg _ _
  | _ => exact low

/-- Whatever requests were served in whatever order, the three reports over one window agree
on the loans that are then there, and do not tell the spellings of a bound apart. -/
theorem reportsAgree (t : Int) (requests : Nat → Option Request) (moves : Moves) (startDate endDate : Option DateTime) :
    let loans := ((begin (settled .empty [] t) requests).run moves).world.db.loans
    (∀ w₁ w₂ w₃ : World, w₁.db.loans = loans → w₂.db.loans = loans → w₃.db.loans = loans → ∀ env₁ env₂ env₃ : Oracle,
      ∃ stats csv rows pdf, (alone 0 (getStats startDate endDate) [] w₁ env₁).1 = .ok stats ∧
        (alone 0 (generateLoansCsv none none none startDate endDate) [] w₂ env₂).1 = .ok csv ∧
        Csv.read csv = some (header :: rows) ∧
        (alone 0 (generateFinesPdf none none none startDate endDate) [] w₃ env₃).1 = .ok pdf ∧ Agree stats rows pdf) ∧
    ∀ startDate' endDate', SameBound startDate startDate' → SameBound endDate endDate' →
      getStats startDate endDate = getStats startDate' endDate' ∧ ∀ status userId bookId minAmount,
        generateLoansCsv status userId bookId startDate endDate = generateLoansCsv status userId bookId startDate' endDate' ∧
        generateFinesPdf userId bookId minAmount startDate endDate = generateFinesPdf userId bookId minAmount startDate' endDate' := by
  intro loans
  have nonneg : ∀ l ∈ loans.rows, 0 ≤ l.fineAmount := finesNonneg t requests moves
  refine ⟨fun w₁ w₂ w₃ first second third env₁ env₂ env₃ => ?_,fun startDate' endDate' starts ends => ⟨?_,fun _ _ _ _ => ⟨?_,?_⟩⟩⟩
  · refine ⟨_,_,_,_,statsServed,csvServed,Csv.readWritten _,pdfServed,?_⟩
    refine readingsAgree (fun l mem => nonneg l (List.mem_of_mem_filter mem)) (selectedPerm first _ _)
      (selectedPerm second _ _) ?_ _ _
    rw [List.filter_filter]
    exact selectedPerm third _ _
  · unfold getStats
    rw [boundNormal starts,boundNormal ends]
  · unfold generateLoansCsv
    rw [filtersSame starts ends]
  · unfold generateFinesPdf
    rw [filtersSame starts ends]

def lateRequests : Nat → Option Request :=
  requestsOf (borrowing 2 ++ [(.createLoan ⟨(sampleId 2).text,(sampleId 3).text⟩,fun _ => tick 5),
    (.payFine (sampleId 4).text,fun _ => tick 6),(.returnLoan (sampleId 4).text,fun _ => tick 7)])

def lateMoves : Moves := (List.range 5).flatMap (fun j => List.replicate 30 (j,tick (j+1))) ++
  (5,tick 6) :: (5,{tick 6 with elapsed := 20 * 86400000000}) :: List.replicate 30 (5,tick 6) ++ List.replicate 30 (6,tick 7)

def lateReturn : World := ((begin (settled .empty [] 0) lateRequests).run lateMoves).world

theorem fineReported : ∃ csv rows pdf,
    (alone 0 (generateLoansCsv none none none (some (.naive 0)) none) [] lateReturn fun _ => tick 8).1 = .ok csv ∧
    Csv.read csv = some (header :: rows) ∧
    (alone 0 (generateFinesPdf none none none (some (.naive 0)) none) [] lateReturn fun _ => tick 9).1 = .ok pdf ∧
    Agree ⟨1,1,2,1,1,0,12⟩ rows pdf ∧
    getStats (some (.naive 0)) none = getStats (some (.aware 10800000000 10800000000)) none := by
  have counted : (alone 0 (getStats (some (.naive 0)) none) [] lateReturn fun _ => tick 7).1 = .ok ⟨1,1,2,1,1,0,12⟩ := by
    decide +kernel
  have there : lateReturn.db.loans = ((begin (settled .empty [] 0) lateRequests).run lateMoves).world.db.loans := by rw [lateReturn]
  obtain ⟨agree,spelled⟩ := reportsAgree 0 lateRequests lateMoves (some (.naive 0)) none
  obtain ⟨stats,csv,rows,pdf,first,second,read,third,same⟩ := agree lateReturn lateReturn lateReturn there there there
    (fun _ => tick 7) (fun _ => tick 8) (fun _ => tick 9)
  rw [counted] at first
  cases first
  exact ⟨csv,rows,pdf,second,read,third,same,
    (spelled _ _ (.spelled 0 none (some 10800000000)) .absent).1⟩

end LibraryApi.Reports
