import LibraryApi.LoanHistory

/-! Renewals of one loan under concurrent requests. `renew_loan` moves the count and
the due date together on the row it has locked; `update_loan` writes the due date of
a row it has only read, but the loan date it compares with never changes. -/
namespace LibraryApi.RenewalRaces
open Models CacheService Repositories Requests Effects Runs CommittedRows LoanHistory
open LoanService (maxRenewals loanDays renewalDays newLoan)
open FineCalculator (days)
open Program (execAll Path stateAfter mine)

structure Bounded (l : LoanModel) : Prop where
  nonneg : 0 ≤ l.renewalCount
  most : l.renewalCount ≤ maxRenewals
  due : l.loanDate < l.dueDate

def Scheduled (l : LoanModel) : Prop :=
  l.dueDate = l.loanDate + days loanDays + days renewalDays * l.renewalCount

def Reschedules (requests : Nat → Option Request) (k : String) (m : Commit) : Prop :=
  ∃ data, requests m.client = some (.updateLoan k data) ∧ data.dueDate ≠ none

section Steps
variable {seen : Seen} {k : String} {l l' : LoanModel} {r : Request}

theorem newLoanBounded (id : Uuid) (user : UserModel) (book : BookModel) (now createdAt : Int) :
    Bounded (newLoan id user book now createdAt) := by
  have most : 0 ≤ maxRenewals := by decide
  refine ⟨Int.le_refl 0,most,?_⟩
  show now < now + days loanDays
  have positive : 0 < days loanDays := by decide
  omega

theorem newLoanScheduled (id : Uuid) (user : UserModel) (book : BookModel) (now createdAt : Int) :
    Scheduled (newLoan id user book now createdAt) := by
  simp [Scheduled,newLoan]

theorem loanDateStep (step : LoanStep seen k l r l') : l'.loanDate = l.loanDate := by
  cases step <;> rfl

theorem boundedStep (step : LoanStep seen k l r l')
    (dated : ∀ loaded, (seen fun d _ => d.loans.find k = some loaded) → loaded.loanDate = l.loanDate)
    (bounded : Bounded l) : Bounded l' := by
  have positive : 0 < days renewalDays := by decide
  cases step with
  | kept => exact bounded
  | returned => exact ⟨bounded.nonneg,bounded.most,bounded.due⟩
  | cancelled => exact ⟨bounded.nonneg,bounded.most,bounded.due⟩
  | paid => exact ⟨bounded.nonneg,bounded.most,bounded.due⟩
  | renewed _ _ _ below =>
    have := bounded.nonneg
    have := bounded.due
    refine ⟨?_,?_,?_⟩ <;> simp only [LoanService.renewed] <;> omega
  | @rescheduled data loaded t read _ _ later =>
    refine ⟨bounded.nonneg,bounded.most,?_⟩
    show l.loanDate < flushed loaded.dueDate t l.dueDate
    unfold flushed
    split
    · exact bounded.due
    · rw [← dated loaded read]; exact later

theorem scheduledStep (step : LoanStep seen k l r l')
    (other : ∀ data, r = .updateLoan k data → data.dueDate = none) (scheduled : Scheduled l) :
    Scheduled l' := by
  unfold Scheduled at scheduled ⊢
  cases step with
  | kept => exact scheduled
  | returned => exact scheduled
  | cancelled => exact scheduled
  | paid => exact scheduled
  | renewed =>
    show l.dueDate + days renewalDays = l.loanDate + days loanDays + days renewalDays * (l.renewalCount + 1)
    rw [scheduled,Int.mul_add,Int.mul_one,Int.add_assoc _ _ (days renewalDays)]
  | rescheduled _ _ asked =>
    rw [other _ rfl] at asked
    contradiction

end Steps

section Paths
variable {requests : Nat → Option Request} {d : Database} {t : Int} {h later : Log} {k : String}

theorem loanDatePath {loaded : LoanModel} (path : PoolPath requests d t (later ++ h))
    (found : (stateAfter d h).loans.find k = some loaded) :
    ∃ l, (stateAfter d (later ++ h)).loans.find k = some l ∧ l.loanDate = loaded.loanDate := by
  induction later with
  | nil => exact ⟨loaded,found,rfl⟩
  | cons m later ih =>
    cases path with
    | commit rest before ran clock effect =>
      obtain ⟨l,here,same⟩ := ih rest
      obtain ⟨r,_,e⟩ := effect
      rw [← show m.before = stateAfter d (later ++ h) from before] at here
      obtain ⟨l',found',step⟩ := loanStep e ran here
      exact ⟨l',found',(loanDateStep step).trans same⟩

theorem boundedPath (start : ∀ l, d.loans.find k = some l → Bounded l) (path : PoolPath requests d t h) :
    ∀ l, (stateAfter d h).loans.find k = some l → Bounded l := by
  induction path with
  | start => exact start
  | @commit m h rest before ran clock effect ih =>
    obtain ⟨r,_,e⟩ := effect
    rw [before] at e ran
    intro l' found'
    rcases loanOrigin e ran found' with ⟨l,found,step⟩ | ⟨_,_,_,_,_,rfl⟩
    · refine boundedStep step (fun loaded read => ?_) (ih l found)
      obtain ⟨later,h₀,_,rfl,_,_,stored⟩ := read
      obtain ⟨l₂,found₂,same⟩ := loanDatePath rest stored
      cases Option.some.inj (found.symm.trans found₂)
      exact same.symm
    · exact newLoanBounded _ _ _ _ _

theorem scheduledPath (start : ∀ l, d.loans.find k = some l → Scheduled l)
    (quiet : ∀ m ∈ h, ¬ Reschedules requests k m) (path : PoolPath requests d t h) :
    ∀ l, (stateAfter d h).loans.find k = some l → Scheduled l := by
  refine loanInvariant (P := fun _ => Scheduled) (fun _ => newLoanScheduled) ?_ start path
  intro m mem _ r l l' sent _ _ step scheduled
  refine scheduledStep step (fun data same => ?_) scheduled
  by_contra asked
  exact quiet m mem ⟨data,same ▸ sent,asked⟩

end Paths

theorem refusedQuiet {requests : Nat → Option Request} {d : Database} {x : Cache} {t : Int}
    {moves : Moves} {k : String} (up : ∀ m ∈ moves, m.2.answer.redisUp = true)
    (refused : ∀ j data, requests j = some (.updateLoan k data) → data.dueDate ≠ none →
      finished ((begin (settled d x t) requests).run moves) j ∧
        succeeded ((begin (settled d x t) requests).run moves) j = false) :
    ∀ m ∈ ((begin (settled d x t) requests).run moves).world.history, ¬ Reschedules requests k m := by
  intro m mem ⟨data,sent,asked⟩
  have good : PoolGood requests (fun a => a.redisUp = true) (fun _ _ => True) d t
      ((begin (settled d x t) requests).run moves) := poolGood d x t moves up
  obtain ⟨⟨result,ended⟩,failed⟩ := refused m.client data sent asked
  cases result with
  | ok answer => simp [succeeded,ended] at failed
  | error e =>
    have own : m ∈ mine m.client ((begin (settled d x t) requests).run moves).world.history :=
      List.mem_filter.mpr ⟨mem,by simp⟩
    rcases good.threads m.client _ ended with none | ⟨_,a,admitted,down⟩
    · rw [show mine m.client ((begin (settled d x t) requests).run moves).world.history = [] from none]
        at own
      contradiction
    · rw [admitted] at down; contradiction

/-- In every committed state of every run a loan has been renewed at most twice and is
due after its loan date, and until an update of its due date is committed (without a
failing Redis: until one succeeds) it is due on its schedule. -/
theorem renewalsKept (d : Database) (x : Cache) (t : Int) (requests : Nat → Option Request)
    (moves : Moves) (k : String) (start : ∀ l, d.loans.find k = some l → Bounded l ∧ Scheduled l) :
    let s := (begin (settled d x t) requests).run moves
    s.world.db = stateAfter d s.world.history ∧
    (∀ later earlier l, s.world.history = later ++ earlier → (stateAfter d earlier).loans.find k = some l →
      Bounded l ∧ ((∀ m ∈ earlier, ¬ Reschedules requests k m) → Scheduled l)) ∧
    ((∀ m ∈ moves, m.2.answer.redisUp = true) →
      (∀ j data, requests j = some (.updateLoan k data) → data.dueDate ≠ none →
        finished s j ∧ succeeded s j = false) →
      ∀ later earlier l, s.world.history = later ++ earlier →
        (stateAfter d earlier).loans.find k = some l → Scheduled l) := by
  intro s
  obtain ⟨path,last⟩ : PoolPath requests d t s.world.history ∧ _ := poolPath d x t moves
  refine ⟨last,fun later earlier l split found => ⟨?_,fun quiet => ?_⟩,
    fun up refused later earlier l split found => ?_⟩
  · exact boundedPath (fun l found => (start l found).1) (Path.suffix (split ▸ path)) l found
  · exact scheduledPath (fun l found => (start l found).2) quiet (Path.suffix (split ▸ path)) l found
  · have quiet : ∀ m ∈ s.world.history, ¬ Reschedules requests k m := refusedQuiet up refused
    rw [split] at quiet
    exact scheduledPath (fun l found => (start l found).2)
      (fun m mem => quiet m (List.mem_append_right _ mem)) (Path.suffix (split ▸ path)) l found

def renewing (j : Nat) : Option Request :=
  if j < 3 then some (.renewLoan (sampleId 4).text) else none

def renewedInTurns : Moves := (List.replicate 20 [(0,tick 5),(1,tick 6),(2,tick 7)]).flatten

theorem renewedTwice :
    let s := (begin (settled lentOnce.db [] 0) renewing).run renewedInTurns
    (∀ j < 2, succeeded s j = true) ∧ succeeded s 2 = false ∧
      ∃ l, s.world.db.loans.find (sampleId 4).text = some l ∧ l.renewalCount = 2 ∧ Bounded l ∧ Scheduled l := by
  have lent : ∀ l ∈ lentOnce.db.loans.find (sampleId 4).text,
      (0 ≤ l.renewalCount ∧ l.renewalCount ≤ maxRenewals ∧ l.loanDate < l.dueDate) ∧
        l.dueDate = l.loanDate + days loanDays + days renewalDays * l.renewalCount := by decide +kernel
  have kept := renewalsKept lentOnce.db [] 0 renewing renewedInTurns (sampleId 4).text fun l found =>
    ⟨⟨(lent l found).1.1,(lent l found).1.2.1,(lent l found).1.2.2⟩,(lent l found).2⟩
  obtain ⟨l,found,twice⟩ : ∃ l ∈ ((begin (settled lentOnce.db [] 0) renewing).run
      renewedInTurns).world.db.loans.find (sampleId 4).text, l.renewalCount = 2 := by decide +kernel
  obtain ⟨bounded,scheduled⟩ := kept.2.1 [] _ l (List.nil_append _).symm (kept.1 ▸ found)
  refine ⟨by decide +kernel,by decide +kernel,l,found,twice,bounded,scheduled fun m _ ⟨data,sent,_⟩ => ?_⟩
  unfold renewing at sent
  split at sent <;> cases sent

end LibraryApi.RenewalRaces
