import LibraryApi.LoanHistory
import LibraryApi.StockInvariant

/-! The two exits of a loan, served one at a time. Both need the book row to be
active, which the catalogue may change at any moment; only `return_loan` asks
for the fine. -/
namespace LibraryApi.LoanClosing
open Models CacheService KeyedTable Repositories Requests Effects Runs CommittedRows LoanHistory
open LoanService (restocked returned cancelled fineUnpaid)
open FineCalculator (calculateAmount)
open Program (wp wpBind execAll mine Ended)

section Tail
variable {c : ServiceRules.Contract} {α : Type} {w : World}

theorem closingRule (fair : c.Fair) (free : ∀ h m, c.effect h m)
    (up : ∀ a, c.admits a → a.redisUp = true) {book book' : BookModel} {loan loan' : LoanModel}
    (fits : (Write.updateBook book book').fits = true)
    {event : LoanModel → Int → NotificationHandlers.DomainEvent} {answer : LoanModel → α} :
    wp c (fun _ _ _ => True) (fun _ _ => False) (do
      Program.write (.updateBook book book')
      Program.write (.updateLoan loan loan')
      Program.commit
      let l ← LoanRepository.refresh loan'
      BookService.forgetBook l.bookId.text
      LoanService.invalidateLoanCache l.userId l.id
      let t ← Program.now
      NotificationHandlers.publish (event l t)
      return answer l) [] w := by
  have never {e : ApiError} (down : Down c.admits e) : False := by
    obtain ⟨_,a,admitted,off⟩ := down
    rw [up a admitted] at off; contradiction
  have stocked := Database.updateBookRuns fits
  have closed (d : Database) : ∃ d', Program.execAll [Write.updateBook book book',.updateLoan loan loan'] d = .ok d' :=
    ⟨_,Program.execAllCons.mpr ⟨_,stocked d,rfl⟩⟩
  refine wpBind.mpr (Program.writeRule fair (fun w₁ _ _ => ?_) fun _ _ _ failed => nomatch (stocked _).symm.trans failed)
  refine wpBind.mpr (Program.writeRule fair (fun w₂ _ _ => ?_) fun _ _ _ failed => nomatch failed)
  refine wpBind.mpr (Program.commitRule (fun w₃ d _ _ => ⟨free _ _,?_⟩) fun _ _ _ failed => nomatch (closed _).choose_spec.symm.trans failed)
  refine wpBind.mpr (Program.selectRule fun w₄ _ => ?_)
  refine Program.readingThen (ServiceRules.forgetBookReading fair _) (fun _ w₅ _ => ?_)
    fun _ _ _ => never
  refine Program.readingThen (ServiceRules.invalidateReading fair _ _) (fun _ w₆ _ => ?_)
    fun _ _ _ => never
  refine wpBind.mpr (Program.nowRule fair fun w₇ _ => wpBind.mpr ?_)
  exact ServiceRules.publishRule fair (fun _ _ _ _ _ => free _ _) fun _ _ _ => trivial

end Tail

section Reached
variable {requests : Nat → Option Request} {d : Database} {t : Int} {k : Nat} {w : World} {env : Oracle}
  {loan : LoanModel} {book : BookModel}

abbrev upAlone (k : Nat) : ServiceRules.Contract :=
  Program.still k (fun a => a.redisUp = true) fun _ _ => True

theorem answeredEnded {r : Except ApiError Response × World}
    (ended : Ended (upAlone k) (fun _ _ _ => True) (fun _ _ => False) r) : ∃ answer, r.1 = .ok answer := by
  obtain ⟨result,_⟩ := r
  cases result with
  | ok answer => exact ⟨answer,rfl⟩
  | error e => obtain ⟨_,never,_⟩ := ended; exact never.elim

theorem returnAnswers (h : Reached requests d t k w) (up : ∀ n, (env n).answer.redisUp = true)
    (found : w.db.loans.find loan.id.text = some loan) (active : loan.status = .active)
    (stock : w.db.books.find loan.bookId.text = some book) (shelved : book.isActive = true)
    (covered : ¬ fineUnpaid loan (w.clock + (env 1).elapsed)) :
    ∃ answer, (serve k (.returnLoan loan.id.text) w env).1 = .ok answer := by
  refine answeredEnded (k := k) (endedLock found active (endedNow ?_))
  have later : Program.Quiet k w {w.acquire k [.loan loan.id] with clock := w.clock + (env 1).elapsed} :=
    (Program.Quiet.acquire k w _).trans (Program.Quiet.now k _ (env 1).elapsed)
  refine reachedEnded (reachedLater h later) rfl (Program.Quiet.refl k) (fun n => up (n+2)) (wpBind.mpr ?_)
  refine ServiceRules.refuseRule (fun unpaid => covered unpaid) fun _ => ?_
  refine ServiceRules.lockBookRule Program.stillFair (fun w₁ r₁ none => ?_) fun w₁ b r₁ _ _ _ => ?_
  · have gone := none book (r₁.db ▸ stock)
    rw [shelved] at gone; contradiction
  · exact closingRule Program.stillFair (fun _ _ => trivial) (fun _ h => h) (by simp [Write.fits,LoanService.restocked])

theorem cancelAnswers (h : Reached requests d t k w) (up : ∀ n, (env n).answer.redisUp = true)
    (found : w.db.loans.find loan.id.text = some loan) (active : loan.status = .active)
    (stock : w.db.books.find loan.bookId.text = some book) (shelved : book.isActive = true) :
    ∃ answer, (serve k (.cancelLoan loan.id.text) w env).1 = .ok answer := by
  refine answeredEnded (k := k) (reachedEnded h rfl (Program.Quiet.refl k) up (wpBind.mpr ?_))
  refine ServiceRules.lockLoanRule Program.stillFair (fun w₁ r₁ none => ?_)
    fun w₁ l r₁ stored _ _ => ?_
  · exact none loan (r₁.db ▸ found) active
  cases Option.some.inj ((r₁.db ▸ stored).symm.trans found)
  refine ServiceRules.lockBookRule Program.stillFair (fun w₂ r₂ none => ?_) fun w₂ b r₂ _ _ _ => ?_
  · have gone := none book (by rw [r₂.db,r₁.db]; exact stock)
    rw [shelved] at gone; contradiction
  · exact wpBind.mpr (Program.nowRule Program.stillFair fun _ _ =>
      closingRule Program.stillFair (fun _ _ => trivial) (fun _ h => h) (by simp [Write.fits,LoanService.restocked]))

structure ClosedAs (status : LoanStatus) (loan : LoanModel) (d : Database)
    (served : Except ApiError Response × World) : Prop where
  answered : ∃ answer, served.1 = .ok answer
  closed : ∃ l, served.2.db.loans.find loan.id.text = some l ∧ l.status = status
  back : ∃ b b', d.books.find loan.bookId.text = some b ∧
    served.2.db.books.find loan.bookId.text = some b' ∧ b'.availableCopies = b.availableCopies + 1

theorem closedAnswer {status : LoanStatus} {r : Request} (env : Oracle) (h : Reached requests d t k w)
    (sent : requests k = some r) (exit : Exits loan.id.text r status)
    (found : w.db.loans.find loan.id.text = some loan)
    (stock : w.db.books.find loan.bookId.text = some book)
    (done : ∃ answer, (serve k r w env).1 = .ok answer) :
    book.isActive = true ∧ ClosedAs status loan w.db (serve k r w env) := by
  obtain ⟨answer,ok⟩ := done
  obtain ⟨note,main,own⟩ := answeredTwice h sent (exitsTwice exit) ok
  obtain ⟨_,_,_,ran,e,n,writes,_,final⟩ := servedTwice h sent own
  rw [writes] at final
  obtain ⟨books,loans⟩ := elsewhereRan rfl (ranOne final)
  have closed {b : BookModel} {c : LoanModel} (here : w.db.books.find loan.bookId.text = some b)
      (ran : execAll ([.updateBook b (restocked b 1),.updateLoan loan c] : List Write) w.db =
        .ok main.after) (id : c.id = loan.id) (new : c.status = status) : ClosedAs status loan w.db (serve k r w env) := by
    have rows := ranClose ran
    refine ⟨⟨answer,ok⟩,⟨c,?_,new⟩,b,restocked b 1,here,?_,rfl⟩
    · rw [loans,rows]; exact loanReplaced found id
    · rw [books,rows]; exact bookReplaced here rfl
  generalize main.writes = writes' at e ran
  cases exit with
  | returning =>
    cases e with
    | returnLoan _ found' _ stock' shelved =>
      cases Option.some.inj (found'.symm.trans found)
      cases Option.some.inj (stock'.symm.trans stock)
      exact ⟨shelved,closed stock ran rfl rfl⟩
    | notify second => contradiction
  | cancelling =>
    cases e with
    | cancelLoan _ found' _ stock' shelved =>
      cases Option.some.inj (found'.symm.trans found)
      cases Option.some.inj (stock'.symm.trans stock)
      exact ⟨shelved,closed stock ran rfl rfl⟩
    | notify second => contradiction

end Reached

/-- After any run an ACTIVE loan can be returned, once its fine is paid, and
cancelled, exactly if its book is still on the catalogue. -/
theorem closesIffShelved (t : Int) (calls : List (Request × Oracle)) :
    let w := (serveAll 0 (opening t) calls).2
    ∀ loan ∈ w.db.loans.rows, loan.status = .active →
      ∃ book, w.db.books.find loan.bookId.text = some book ∧
        ∀ env : Oracle, (∀ n, (env n).answer.redisUp = true) →
          (calculateAmount loan.dueDate (w.clock + (env 1).elapsed) ≤ loan.finePaidAmount →
            (ClosedAs .returned loan w.db (serve calls.length (.returnLoan loan.id.text) w env) ↔
              book.isActive = true)) ∧
          (ClosedAs .cancelled loan w.db (serve calls.length (.cancelLoan loan.id.text) w env) ↔
            book.isActive = true) := by
  intro w loan mem active
  have reached (r : Request) (env : Oracle) :
      Reached (requestsOf (calls ++ [(r,env)])) .empty t calls.length w :=
    reachedAll fun _ _ => requestsEarlier
  have sent := requestsLast calls
  have found := Table.findComplete mem
  obtain ⟨book,stock⟩ := (StockInvariant.reachedStocked (reached (.deleteBook "") fun _ => tick 0)).referenced
    loan mem
  refine ⟨book,stock,fun env up => ?_⟩
  have returning := closedAnswer env (reached (.returnLoan loan.id.text) env) (sent _ env)
    .returning found stock
  have cancelling := closedAnswer env (reached (.cancelLoan loan.id.text) env) (sent _ env)
    .cancelling found stock
  refine ⟨fun covered => ⟨fun closed => (returning closed.answered).1,fun shelved => ?_⟩,
    fun closed => (cancelling closed.answered).1,fun shelved => ?_⟩
  · exact (returning (returnAnswers (reached (.deleteBook "") env) up found active stock shelved
      fun unpaid => absurd unpaid.2 (Int.not_lt.mpr covered))).2
  · exact (cancelling (cancelAnswers (reached (.deleteBook "") env) up found active stock shelved)).2

def stranding : List (Request × Oracle) :=
  borrowing 2 ++ [(.deleteBook (sampleId 3).text,fun _ => tick 5)]

theorem strandedLoan :
    let w := (serveAll 0 (opening 0) stranding).2
    ∃ loan ∈ w.db.loans.rows, loan.status = .active ∧
      calculateAmount loan.dueDate w.clock ≤ loan.finePaidAmount ∧
      (serve 5 (.returnLoan loan.id.text) w fun _ => tick 0).1 =
        .error (.notFound "Livro não encontrado") ∧
      (serve 5 (.cancelLoan loan.id.text) w fun _ => tick 0).1 =
        .error (.notFound "Livro não encontrado") := by
  decide +kernel

theorem lentLoanCloses :
    let w := (serveAll 0 (opening 0) (borrowing 2)).2
    ∃ loan ∈ w.db.loans.rows,
      ClosedAs .returned loan w.db (serve 4 (.returnLoan loan.id.text) w fun _ => tick 0) ∧
      ClosedAs .cancelled loan w.db (serve 4 (.cancelLoan loan.id.text) w fun _ => tick 0) := by
  intro w
  have lent : ∃ loan ∈ w.db.loans.rows, loan.status = .active ∧
      calculateAmount loan.dueDate (w.clock + ((tick 0).elapsed : Int)) ≤ loan.finePaidAmount ∧
      ∀ book ∈ w.db.books.find loan.bookId.text, book.isActive = true := by decide +kernel
  obtain ⟨loan,mem,active,covered,shelved⟩ := lent
  obtain ⟨book,stock,closes⟩ := closesIffShelved 0 (borrowing 2) loan mem active
  have both := closes (fun _ => tick 0) fun _ => rfl
  exact ⟨loan,mem,(both.1 covered).mpr (shelved book stock),both.2.mpr (shelved book stock)⟩

section Fines

def closedAt (l : LoanModel) : Option Int := match l.status with
  | .active => none
  | .returned => l.returnedAt
  | .cancelled => l.cancelledAt

structure Exit (m : Commit) (k : String) (l l' : LoanModel) (now : Int) : Prop where
  opened : m.before.loans.find k = some l
  active : l.status = .active
  closed : m.after.loans.find k = some l'
  instant : closedAt l' = some now

variable {seen : Log → Int → Seen} {requests : Nat → Option Request} {d : Database} {t : Int} {h : Log}

theorem exitGuard {m : Commit} {k : String} {l l' : LoanModel} {now : Int}
    (path : Program.Path (allowed seen requests) d t h) (mem : m ∈ h) (exit : Exit m k l l' now) :
    l'.status = .cancelled ∨ ¬ fineUnpaid l now := by
  obtain ⟨rest,path,_⟩ := Program.pathUpTo path mem
  cases path with
  | commit _ _ ran _ effect =>
    obtain ⟨r,_,e⟩ := effect
    obtain ⟨l₁,found,step⟩ := loanStep e ran exit.opened
    cases Option.some.inj (found.symm.trans exit.closed)
    have instant := exit.instant
    cases step with
    | returned _ _ settled => cases instant; exact .inr settled
    | cancelled => exact .inl rfl
    | kept => simp [closedAt,exit.active] at instant
    | renewed => simp [closedAt,LoanService.renewed,exit.active] at instant
    | paid => simp [closedAt,LoanService.paid,exit.active] at instant
    | rescheduled => simp [closedAt,exit.active] at instant

theorem paidNonneg {k : String} (start : ∀ l, d.loans.find k = some l → 0 ≤ l.finePaidAmount)
    (path : Program.Path (allowed seen requests) d t h) :
    ∀ l, (Program.stateAfter d h).loans.find k = some l → 0 ≤ l.finePaidAmount := by
  refine everyLoan (P := fun l => 0 ≤ l.finePaidAmount) (fun _ _ _ _ _ => Int.le_refl 0)
    (fun step low => ?_) start path
  cases step with
  | paid => exact FineCalculator.amountNonneg _ _
  | _ => exact low

theorem guardCovers {m : Commit} {k : String} {l l' : LoanModel} {now : Int}
    (start : ∀ k l, d.loans.find k = some l → 0 ≤ l.finePaidAmount)
    (path : Program.Path (allowed seen requests) d t h) (mem : m ∈ h) (exit : Exit m k l l' now)
    (settled : ¬ fineUnpaid l now) : calculateAmount l.dueDate now ≤ l.finePaidAmount := by
  obtain ⟨rest,path,_⟩ := Program.pathUpTo path mem
  have low : 0 ≤ l.finePaidAmount := by
    cases path with
    | commit before eq _ _ _ => exact paidNonneg (start k) before l (eq ▸ exit.opened)
  unfold fineUnpaid at settled
  omega

def Covered (h : Log) : Prop := ∀ m ∈ h, ∀ k l l' now, Exit m k l l' now →
  calculateAmount l.dueDate now ≤ l.finePaidAmount

def CancelsGuarded (h : Log) : Prop := ∀ m ∈ h, ∀ k l l' now, Exit m k l l' now →
  l'.status = .cancelled → ¬ fineUnpaid l now

theorem pathCovered (start : ∀ k l, d.loans.find k = some l → 0 ≤ l.finePaidAmount)
    (path : Program.Path (allowed seen requests) d t h) : Covered h ↔ CancelsGuarded h := by
  constructor
  · intro covered m mem k l l' now exit _ unpaid
    exact absurd unpaid.2 (Int.not_lt.mpr (covered m mem k l l' now exit))
  · intro guarded m mem k l l' now exit
    have settled : ¬ fineUnpaid l now :=
      (exitGuard path mem exit).elim (guarded m mem k l l' now exit) id
    exact guardCovers start path mem exit settled

end Fines

/-- In any run of requests, and in any interleaving from where it ends, no loan
leaves ACTIVE with an uncovered fine exactly if the cancellations are guarded. -/
theorem coveredIffCancelsGuarded (t : Int) (calls : List (Request × Oracle))
    (requests : Nat → Option Request) (moves : Moves) :
    let w := (serveAll 0 (opening t) calls).2
    let s := (begin (settled w.db w.ext w.clock) requests).run moves
    (Covered w.history ↔ CancelsGuarded w.history) ∧
      (Covered s.world.history ↔ CancelsGuarded s.world.history) := by
  intro w s
  have reached : Reached (requestsOf calls) .empty t calls.length w := reachedAll fun _ _ sent => sent
  have early : ∀ k l, Database.empty.loans.find k = some l → 0 ≤ l.finePaidAmount :=
    fun k l found => nomatch (Table.findEmpty k).symm.trans found
  have start : ∀ k l, w.db.loans.find k = some l → 0 ≤ l.finePaidAmount := fun k =>
    reached.root.db ▸ paidNonneg (early k) reached.path
  obtain ⟨path,_⟩ : PoolPath requests w.db w.clock s.world.history ∧ _ :=
    poolPath w.db w.ext w.clock moves
  exact ⟨pathCovered early reached.path,pathCovered start path⟩

def lateCancel : List (Request × Oracle) := borrowing 2 ++ [(.cancelLoan (sampleId 4).text,fun n =>
  if n = 2 then {tick 0 with elapsed := 20 * 86400000000} else tick 0)]

theorem lateCancelEscapes :
    let w := (serveAll 0 (opening 0) lateCancel).2
    ∃ m ∈ w.history, ∃ k l l' now, Exit m k l l' now ∧ l.finePaidAmount = 0 ∧
      calculateAmount l.dueDate now = 12 ∧ l'.fineAmount = 0 := by
  intro w
  have escaped : ∃ m ∈ w.history, ∃ l ∈ m.before.loans.find (sampleId 4).text,
      ∃ l' ∈ m.after.loans.find (sampleId 4).text, ∃ now ∈ closedAt l', l.status = .active ∧
        l.finePaidAmount = 0 ∧ calculateAmount l.dueDate now = 12 ∧ l'.fineAmount = 0 := by
    decide +kernel
  obtain ⟨m,mem,l,found,l',closed,now,instant,active,facts⟩ := escaped
  exact ⟨m,mem,_,l,l',now,⟨found,active,closed,instant⟩,facts⟩

end LibraryApi.LoanClosing
