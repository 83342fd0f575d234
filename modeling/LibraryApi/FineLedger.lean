import LibraryApi.LoanHistory

/-! The money of one loan, request after request. A payment tops the paid amount up
to the fine of the instant, a return charges the fine of the instant, and lateness
only grows unless somebody moves the due date. A payment whose cache invalidation
fails is committed but answered with an error. -/
namespace LibraryApi.FineLedger
open Models KeyedTable Requests Effects Runs CommittedRows LoanHistory
open FineCalculator (calculateAmount calculateDaysLate amountMono amountNonneg amountPositive daysLateMono)
open LoanService (fineUnpaid)
open Program (execAll Path stateAfter clockAfter seenLast mine)

def paymentOf (k : String) (o : Outcome) : Int := match o.request,o.result with
  | .payFine loanId,.ok (.finePaid view) => if loanId = k then view.paymentAmount else 0
  | _,_ => 0

def payments (k : String) (outcomes : List Outcome) : Int :=
  outcomes.foldl (fun total o => total + paymentOf k o) 0

def cutOff (k : String) (o : Outcome) : Bool := match o.request,o.result with
  | .payFine loanId,.error .redisError => loanId == k
  | _,_ => false

section Steps
variable {seen : Seen} {k : String} {l l' : LoanModel} {r : Request}

theorem paidStep (step : LoanStep seen k l r l') : l.finePaidAmount ≤ l'.finePaidAmount ∧
    (r ≠ .payFine k → l'.finePaidAmount = l.finePaidAmount) := by
  cases step with
  | paid _ _ owed => exact ⟨Int.le_of_lt owed,fun other => absurd rfl other⟩
  | _ => exact ⟨Int.le_refl _,fun _ => rfl⟩

end Steps

section Paths
variable {requests : Nat → Option Request} {t : Int} {h : Log} {k : String}

structure Charged (l : LoanModel) : Prop where
  low : 0 ≤ l.finePaidAmount
  returned : l.status = .returned → ∃ t, l.returnedAt = some t ∧
    l.fineAmount = calculateAmount l.dueDate t ∧ l.fineAmount ≤ l.finePaidAmount

theorem chargedPath (path : SequentialPath requests .empty t h) :
    ∀ l, (stateAfter .empty h).loans.find k = some l → Charged l := by
  refine loanInvariant (P := fun _ => Charged) (fun _ _ _ _ _ _ => ⟨Int.le_refl 0,nofun⟩)
    (fun m _ h r l l' _ found _ step held => ?_)
    (fun l found => nomatch (Table.findEmpty k).symm.trans found) path
  cases step with
  | kept => exact held
  | @returned now _ _ settled =>
    refine ⟨held.low,fun _ => ⟨now,rfl,rfl,?_⟩⟩
    have low := held.low
    unfold fineUnpaid at settled
    show calculateAmount l.dueDate now ≤ l.finePaidAmount
    omega
  | cancelled => exact ⟨held.low,nofun⟩
  | renewed active =>
    exact ⟨held.low,fun done => by
      rw [show (LoanService.renewed l).status = l.status from rfl,active] at done; contradiction⟩
  | paid active =>
    exact ⟨amountNonneg _ _,fun done => by
      rw [show (LoanService.paid l _).status = l.status from rfl,active] at done; contradiction⟩
  | rescheduled read active =>
    -- one after another, the row that was checked is the row that is written
    obtain ⟨_,_,_,newest⟩ := read
    cases Option.some.inj (newest.symm.trans found)
    exact ⟨held.low,fun done => by rw [active] at done; contradiction⟩

structure Exact (clock : Int) (l : LoanModel) : Prop where
  low : 0 ≤ l.finePaidAmount
  late : l.status = .active → 0 < l.finePaidAmount →
    ∃ t ≤ clock, l.finePaidAmount = calculateAmount l.dueDate t
  returned : l.status = .returned → l.finePaidAmount = l.fineAmount

theorem paidLate {clock now : Int} {l : LoanModel} (held : Exact clock l) (active : l.status = .active)
    (some : 0 < l.finePaidAmount) (later : clock ≤ now) :
    l.finePaidAmount ≤ calculateAmount l.dueDate now ∧ 0 < calculateDaysLate l.dueDate now := by
  obtain ⟨t,before,paid⟩ := held.late active some
  have grown : calculateAmount l.dueDate t ≤ calculateAmount l.dueDate now :=
    amountMono (Int.le_trans before later)
  exact ⟨paid ▸ grown,amountPositive.mp (by omega)⟩

theorem exactPath (none : ∀ m ∈ h, ∀ data, requests m.client ≠ some (.updateLoan k data))
    (path : SequentialPath requests .empty t h) :
    ∀ l, (stateAfter .empty h).loans.find k = some l → Exact (clockAfter t h) l := by
  refine loanInvariant (fun _ _ _ _ _ _ => ⟨Int.le_refl 0,nofun,nofun⟩)
    (fun m mem h r l l' sent _ clock step held => ?_)
    (fun l found => nomatch (Table.findEmpty k).symm.trans found) path
  cases step with
  | kept =>
    exact ⟨held.low,fun active some => (held.late active some).imp fun _ x => ⟨Int.le_trans x.1 clock,x.2⟩,
      held.returned⟩
  | returned active instant settled =>
    obtain ⟨now,later,_,rfl⟩ := instant
    refine ⟨held.low,nofun,fun _ => ?_⟩
    show l.finePaidAmount = calculateAmount l.dueDate now
    have low := held.low
    have fine := amountNonneg l.dueDate now
    unfold fineUnpaid at settled
    rcases Int.lt_or_eq_of_le low with some | zero
    · have := (paidLate held active some later).1
      omega
    · omega
  | cancelled => exact ⟨held.low,nofun,nofun⟩
  | renewed active instant inTime =>
    obtain ⟨now,later,_,rfl⟩ := instant
    have unpaid : ¬ 0 < l.finePaidAmount := fun some => by
      have := (paidLate held active some later).2
      omega
    exact ⟨held.low,fun _ some => absurd some unpaid,fun done => by
      rw [show (LoanService.renewed l).status = l.status from rfl,active] at done; contradiction⟩
  | paid active instant =>
    obtain ⟨now,_,before,rfl⟩ := instant
    exact ⟨amountNonneg _ _,fun _ _ => ⟨now,before,rfl⟩,fun done => by
      rw [show (LoanService.paid l now).status = l.status from rfl,active] at done; contradiction⟩
  | rescheduled => exact absurd sent (none m mem _)

theorem paidCommit {m : Commit} {l l' : LoanModel} (path : SequentialPath requests .empty t h)
    (mem : m ∈ h) (found : m.before.loans.find k = some l) (found' : m.after.loans.find k = some l') :
    l.finePaidAmount ≤ l'.finePaidAmount := by
  obtain ⟨_,path,_⟩ := Program.pathUpTo path mem
  cases path with
  | commit _ _ ran _ effect =>
    obtain ⟨r,_,e⟩ := effect
    obtain ⟨l₁,found₁,step⟩ := loanStep e ran found
    cases Option.some.inj (found'.symm.trans found₁)
    exact (paidStep step).1

theorem paidUnrenewed {m : Commit} {l : LoanModel}
    (none : ∀ c ∈ h, ∀ data, requests c.client ≠ some (.updateLoan k data))
    (path : SequentialPath requests .empty t h) (mem : m ∈ h)
    (found : m.before.loans.find k = some l) (owing : 0 < l.finePaidAmount) :
    requests m.client ≠ some (.renewLoan k) := by
  obtain ⟨rest,path,inside⟩ := Program.pathUpTo path mem
  cases path with
  | commit earlier before ran _ effect =>
    obtain ⟨r,sent,e⟩ := effect
    rw [before] at found
    have held := exactPath (fun c mem => none c (inside c (List.mem_cons_of_mem _ mem))) earlier l found
    intro renewing
    cases Option.some.inj (sent.symm.trans renewing)
    rw [before] at e
    generalize m.writes = ws at e
    cases e with
    | renewLoan _ stored active instant inTime =>
      cases Option.some.inj (stored.symm.trans found)
      obtain ⟨now,later,_,rfl⟩ := instant
      have := (paidLate held active owing later).2
      omega
    | notify _ about => exact about

theorem paidLater {later : Log} (path : SequentialPath requests .empty t (later ++ h)) :
    (∀ l, (stateAfter .empty h).loans.find k = some l →
      ∃ l', (stateAfter .empty (later ++ h)).loans.find k = some l' ∧
        l.finePaidAmount ≤ l'.finePaidAmount ∧
        ((∀ m ∈ later, requests m.client ≠ some (.payFine k)) →
          l'.finePaidAmount = l.finePaidAmount)) ∧
    ((stateAfter .empty h).loans.find k = none →
      (∀ m ∈ later, requests m.client ≠ some (.payFine k)) →
      ∀ l', (stateAfter .empty (later ++ h)).loans.find k = some l' → l'.finePaidAmount = 0) := by
  induction later with
  | nil =>
    exact ⟨fun l found => ⟨l,found,Int.le_refl _,fun _ => rfl⟩,fun none _ l' found => by
      rw [show stateAfter .empty ([] ++ h) = stateAfter .empty h from rfl,none] at found
      contradiction⟩
  | cons c later ih =>
    cases path with
    | commit rest before ran _ effect =>
      replace before : c.before = stateAfter .empty (later ++ h) := before
      obtain ⟨there,fresh⟩ := ih rest
      obtain ⟨r,sent,e⟩ := effect
      have other (others : ∀ m ∈ c :: later, requests m.client ≠ some (.payFine k)) :
          r ≠ .payFine k := fun same => others c List.mem_cons_self (same ▸ sent)
      rw [← before] at there fresh
      refine ⟨fun l found => ?_,fun none others l' found' => ?_⟩
      · obtain ⟨l₁,found₁,grown,same⟩ := there l found
        obtain ⟨l₂,found₂,step⟩ := loanStep e ran found₁
        exact ⟨l₂,found₂,Int.le_trans grown (paidStep step).1,fun others =>
          ((paidStep step).2 (other others)).trans
            (same fun m mem => others m (List.mem_cons_of_mem _ mem))⟩
      · rcases loanOrigin e ran found' with ⟨l,found,step⟩ | ⟨_,_,_,_,_,rfl⟩
        · exact ((paidStep step).2 (other others)).trans
            (fresh none (fun m mem => others m (List.mem_cons_of_mem _ mem)) l found)
        · rfl

end Paths

section Runs
variable {requests : Nat → Option Request} {t : Int} {k : String} {w : World}

structure Booked (k : String) (outcomes : List Outcome) (d : Database) : Prop where
  absent : d.loans.find k = none → payments k outcomes = 0
  present : ∀ l, d.loans.find k = some l → payments k outcomes ≤ l.finePaidAmount ∧
    ((∀ o ∈ outcomes, cutOff k o = false) → payments k outcomes = l.finePaidAmount)

theorem paymentsLast (outcomes : List Outcome) (o : Outcome) :
    payments k (outcomes ++ [o]) = payments k outcomes + paymentOf k o := by
  simp [payments]

theorem otherPayment {r : Request} {result : Except ApiError Response} (other : r ≠ .payFine k) :
    paymentOf k ⟨r,result⟩ = 0 := by
  unfold paymentOf
  split
  · rename_i loanId view same _
    have apart : loanId ≠ k := fun here => other (here ▸ same)
    rw [if_neg apart]
  · rfl

theorem answeredPayment {j : Nat} {env : Oracle} {a : Response}
    (h : Reached requests .empty t j w) (sent : requests j = some (.payFine k))
    (done : (serve j (.payFine k) w env).1 = .ok a) : ∃ l l', w.db.loans.find k = some l ∧
      (serve j (.payFine k) w env).2.db.loans.find k = some l' ∧
      paymentOf k ⟨.payFine k,.ok a⟩ = l'.finePaidAmount - l.finePaidAmount := by
  have ended := (serveAny h sent env).2.ended
  rw [done] at ended
  obtain ⟨view,main,loan,now,rfl,own,writes,amount⟩ := ended.payment k rfl
  obtain ⟨_,_,_,e,ran⟩ := servedOnce h sent own
  generalize main.writes = ws at e ran writes
  cases e with
  | payFine _ found =>
    simp only [List.cons.injEq,Write.updateLoan.injEq,and_true] at writes
    obtain ⟨rfl,same⟩ := writes
    rw [ranUpdateLoan ran]
    exact ⟨_,_,found,loanReplaced found (c := LoanService.paid _ _) rfl,by
      simp [paymentOf,amount,same]⟩
  | notify second => contradiction

theorem failedPayment (r : Request) (e : ApiError) : paymentOf k ⟨r,.error e⟩ = 0 := by
  cases r <;> rfl

theorem bookedSame {later h : Log} {outcomes : List Outcome} {o : Outcome}
    (path : SequentialPath requests .empty t (later ++ h))
    (booked : Booked k outcomes (stateAfter .empty h)) (zero : paymentOf k o = 0)
    (others : ∀ m ∈ later, requests m.client ≠ some (.payFine k)) :
    Booked k (outcomes ++ [o]) (stateAfter .empty (later ++ h)) := by
  obtain ⟨there,fresh⟩ := paidLater (k := k) path
  have same : payments k (outcomes ++ [o]) = payments k outcomes := by
    rw [paymentsLast,zero,Int.add_zero]
  cases found : (stateAfter .empty h).loans.find k with
  | none =>
    refine ⟨fun _ => same.trans (booked.absent found),fun l' found' => ?_⟩
    rw [same,booked.absent found,fresh found others l' found']
    exact ⟨Int.le_refl 0,fun _ => rfl⟩
  | some l =>
    obtain ⟨l₁,found₁,_,kept⟩ := there l found
    refine ⟨fun none => (nomatch none.symm.trans found₁),fun l' found' => ?_⟩
    cases Option.some.inj (found'.symm.trans found₁)
    obtain ⟨low,equal⟩ := booked.present l found
    rw [same,kept others]
    exact ⟨low,fun none => equal fun o mem => none o (List.mem_append_left _ mem)⟩

theorem bookedStep {j : Nat} {r : Request} {env : Oracle} {outcomes : List Outcome}
    (h : Reached requests .empty t j w) (sent : requests j = some r)
    (booked : Booked k outcomes w.db) :
    Booked k (outcomes ++ [⟨r,(serve j r w env).1⟩]) (serve j r w env).2.db := by
  obtain ⟨last,served⟩ := serveAny h sent env
  obtain ⟨later,grown,clients,own⟩ := served.own
  have path := last.path
  have ended := served.ended
  rw [grown] at path
  have before := booked
  rw [h.root.db] at before
  by_cases paying : r = .payFine k
  · subst paying
    cases done : (serve j (.payFine k) w env).1 with
    | ok a =>
      obtain ⟨l,l',found,found',amount⟩ := answeredPayment h sent done
      obtain ⟨low,equal⟩ := booked.present l found
      refine ⟨fun none => (nomatch none.symm.trans found'),fun l₁ found₁ => ?_⟩
      cases Option.some.inj (found'.symm.trans found₁)
      rw [paymentsLast,amount]
      refine ⟨by omega,fun none => ?_⟩
      have := equal fun o mem => none o (List.mem_append_left _ mem)
      omega
    | error e =>
      rw [done,own] at ended
      rcases ended with rfl | ⟨rfl,_⟩
      · rw [last.root.db,grown]
        exact bookedSame path before (failedPayment _ e) nofun
      · -- what was paid stays paid, and the answer no longer counts
        obtain ⟨there,_⟩ := paidLater (k := k) path
        rw [← grown,← last.root.db,← h.root.db] at there
        have unanswered : payments k (outcomes ++ [⟨.payFine k,.error .redisError⟩]) =
            payments k outcomes := by
          rw [paymentsLast,failedPayment,Int.add_zero]
        refine ⟨fun none => ?_,fun l' found' => ⟨?_,fun none => ?_⟩⟩
        · cases found : w.db.loans.find k with
          | none => exact unanswered.trans (booked.absent found)
          | some l =>
            obtain ⟨_,found',_⟩ := there l found
            rw [none] at found'; contradiction
        · rw [unanswered]
          cases found : w.db.loans.find k with
          | none =>
            rw [booked.absent found]
            exact (chargedPath last.path l' (last.root.db ▸ found')).low
          | some l =>
            obtain ⟨l₁,found₁,grown,_⟩ := there l found
            cases Option.some.inj (found'.symm.trans found₁)
            exact Int.le_trans (booked.present l found).1 grown
        · have := none _ (List.mem_append_right _ (List.mem_singleton.mpr rfl))
          simp [cutOff] at this
  · rw [last.root.db,grown]
    refine bookedSame path before (otherPayment paying) fun m mem same => paying ?_
    rw [clients m mem] at same
    exact Option.some.inj (sent.symm.trans same)

theorem bookedAll {t : Int} {calls : List (Request × Oracle)} {requests : Nat → Option Request}
    (sent : ∀ j r, requestsOf calls j = some r → requests j = some r) :
    Booked k (serveAll 0 (opening t) calls).1 (serveAll 0 (opening t) calls).2.db := by
  induction calls using List.reverseRecOn with
  | nil => exact ⟨fun _ => rfl,fun l found => nomatch (Table.findEmpty k).symm.trans found⟩
  | append_singleton calls call ih =>
    obtain ⟨r,env⟩ := call
    have earlier j r' (found : requestsOf calls j = some r') : requests j = some r' :=
      sent j r' (requestsEarlier found)
    rw [serveLast]
    exact bookedStep (reachedAll earlier) (sent _ r (requestsLast calls r env)) (ih earlier)

end Runs

/-- What is paid on a loan was answered payment by payment, unless Redis failed
under an answer, and covers the fine of its return. Without an update of the due
date it is that fine, and no loan on which something is paid is renewed. -/
theorem fineLedger (t : Int) (calls : List (Request × Oracle)) (k : String) :
    let run := serveAll 0 (opening t) calls
    let loan := run.2.db.loans.find k
    (∀ l ∈ loan, payments k run.1 ≤ l.finePaidAmount ∧
      ((∀ o ∈ run.1, cutOff k o = false) → payments k run.1 = l.finePaidAmount) ∧
      (l.status = .returned → ∃ now, l.returnedAt = some now ∧
        l.fineAmount = 2 * calculateDaysLate l.dueDate now ∧ l.fineAmount ≤ l.finePaidAmount)) ∧
    (∀ m ∈ run.2.history, ∀ l ∈ m.before.loans.find k, ∀ l' ∈ m.after.loans.find k,
      l.finePaidAmount ≤ l'.finePaidAmount) ∧
    ((∀ m ∈ run.2.history, ∀ data, requestsOf calls m.client ≠ some (.updateLoan k data)) →
      (∀ l ∈ loan, l.status = .returned → l.finePaidAmount = l.fineAmount) ∧
      ∀ m ∈ run.2.history, ∀ l ∈ m.before.loans.find k, 0 < l.finePaidAmount →
        requestsOf calls m.client ≠ some (.renewLoan k)) := by
  intro run loan
  have reached : Reached (requestsOf calls) .empty t calls.length run.2 := reachedAll fun _ _ sent => sent
  have stored l (found : l ∈ loan) : (stateAfter .empty run.2.history).loans.find k = some l := by
    rw [← reached.root.db]; exact found
  refine ⟨fun l found => ?_,fun m mem l found l' found' => paidCommit reached.path mem found found',
    fun none => ⟨fun l found => (exactPath none reached.path l (stored l found)).returned,
      fun m mem l found => paidUnrenewed none reached.path mem found⟩⟩
  obtain ⟨low,equal⟩ := (bookedAll (k := k) fun _ _ sent => sent).present l found
  refine ⟨low,equal,fun closed => ?_⟩
  obtain ⟨now,instant,fine,covered⟩ := (chargedPath reached.path l (stored l found)).returned closed
  exact ⟨now,instant,fine.trans (Int.mul_comm _ _),covered⟩

def cutOffPayment : List (Request × Oracle) := borrowing 1 ++ [(.payFine (sampleId 4).text,fun _ =>
  ⟨20 * 86400000000,{(tick 0).answer with redisUp := false}⟩)]

theorem paymentCutOff :
    let run := serveAll 0 (opening 0) cutOffPayment
    ∃ l ∈ run.2.db.loans.rows, l.finePaidAmount = 12 ∧ payments l.id.text run.1 = 0 := by
  decide +kernel

end LibraryApi.FineLedger
