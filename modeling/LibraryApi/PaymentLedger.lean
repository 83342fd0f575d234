import LibraryApi.FineLedger
import LibraryApi.Particulars
import LibraryApi.Receipts

/-! The money of the whole application. Whatever sessions run at once, what is paid on a loan
is what its payments were answered, and what sessions have committed that have not answered:
row locks let no two payments settle the same fine. -/
namespace LibraryApi.PaymentLedger
open Models CacheService KeyedTable Requests Effects ServiceRules Runs Security Api Application ServiceTexts
open CommittedRows LoanHistory
open LoanService (paid)
open Program (execAll stateAfter mine wp wpBind wpMono wpBoth wpFree Rooted looksReading readingThen)

def paidIn (k : String) (d : Database) : Int := (d.loans.find k).elim 0 LoanModel.finePaidAmount

def payment (k : String) : List Write → Int
  | [.updateLoan l c] => if l.id.text = k then c.finePaidAmount - l.finePaidAmount else 0
  | _ => 0

def takings (k : String) (h : Log) : Int := (h.map fun m => payment k m.writes).sum

def receipt (k : String) : Client → Body → Int
  | .bearer _ (.endpoint (.payLoanFine loanId)),.reply (.response (.finePaid view)) => if loanId = k then view.paymentAmount else 0
  | _,_ => 0

def accounted (k : String) (client : Client) (own : Log) :
    Option (Program.Thread Database Write RowKey Cache Answer ApiError Body) → Int
  | some (.finished (.ok body)) => receipt k client body
  | some (.finished (.error .redisError)) => takings k own
  | some (.finished (.error _)) => 0
  | some (.running _ _) => takings k own
  | none => takings k own

section Commits
variable {seen : Seen} {own : Log} {before after : Database} {r : Request} {writes : List Write} {k : String}
  {loans loans' : Table (fun r : LoanModel => r.id.text)}

theorem paidChange (change : Change seen loans r loans') (other : ∀ loanId, r ≠ .payFine loanId) :
    (loans'.find k).elim 0 LoanModel.finePaidAmount = (loans.find k).elim 0 LoanModel.finePaidAmount := by
  cases change with
  | same => rfl
  | opened _ added =>
    rw [Table.findInsert added]
    split
    · rename_i here
      rw [← here,(Table.insertRows added).2]
      rfl
    · rfl
  | replaced stored id step =>
    rw [storedLoan stored id]
    split
    · rename_i here
      rw [here,stored]
      exact (FineLedger.paidStep step).2 (other _)
    · rfl
  | @rescheduled data loaded t =>
    unfold storeLoan
    rw [Table.findModify]
    split
    · cases loans.find k <;> simp [LoanModel.flush]
    · rfl

theorem quietPayment (e : Effect seen own before r writes) (other : ∀ loanId, r ≠ .payFine loanId) : payment k writes = 0 := by
  cases e with
  | payFine => exact absurd rfl (other _)
  | renewLoan => simp [payment,LoanService.renewed]
  | updateLoan _ _ _ _ checked => rcases checked with ⟨_,rfl⟩ | ⟨_,_,_,rfl⟩ <;> simp [payment]
  | deleteAuthor =>
    unfold payment
    split <;> simp_all
  | _ => rfl

theorem paymentUpdate {l c : LoanModel} :
    payment k [.updateLoan l c] = if l.id.text = k then c.finePaidAmount - l.finePaidAmount else 0 := rfl

theorem effectPaid (e : Effect seen own before r writes) (ran : execAll writes before = .ok after) :
    paidIn k after = paidIn k before + payment k writes := by
  by_cases paying : ∃ loanId, r = .payFine loanId
  · obtain ⟨loanId,rfl⟩ := paying
    cases e with
    | notify _ about => exact about.elim
    | @payFine _ l now _ found =>
      obtain rfl := (Table.findSound found).2
      obtain rfl := ranUpdateLoan ran
      show ((storeLoan before.loans l (paid l now)).find k).elim 0 LoanModel.finePaidAmount = paidIn k before + payment k _
      rw [storedLoan found (show (paid l now).id = l.id from rfl)]
      rw [paymentUpdate]
      unfold paidIn
      split
      · rename_i here
        rw [here,found,if_pos rfl]
        simp only [Option.elim_some]
        omega
      · rename_i other
        rw [if_neg (Ne.symm other),Int.add_zero]
  · have other (loanId : String) (same : r = .payFine loanId) : False := paying ⟨loanId,same⟩
    rw [quietPayment e other,Int.add_zero]
    exact paidChange (loansChanged e ran) other

theorem deedPaid {task : Task} (e : Deed seen own before task writes) (ran : execAll writes before = .ok after) :
    paidIn k after = paidIn k before + payment k writes := by
  cases task with
  | request r => exact effectPaid e ran
  | reminders =>
    obtain ⟨_,_,_⟩ := e
    cases ran
    exact (Int.add_zero _).symm

end Commits

section Contracts
variable {s : Deployment} {c : Contract} {d : Database} {t : Int} {w : World}

def Paying (client : Client) (body : Body) (own : Log) : Prop :=
  ∀ credentials loanId, client = .bearer credentials (.endpoint (.payLoanFine loanId)) →
    ∃ answer, body = .reply (.response answer) ∧ Completed (.payFine loanId) answer own

theorem payLoanFineRule {loanId : String} (doing : Doing d t c (some (.request (.payFine loanId))) w) (credentials : String) :
    wp c (fun body _ w' => ∃ answer, body = .reply (.response answer) ∧ Completed (.payFine loanId) answer (mine c.client w'.history))
      (fun _ _ => True) (Client.serve s (.bearer credentials (.endpoint (.payLoanFine loanId)))) [] w := by
  have fair := doing.fair
  refine readingThen (looksReading fair (decodeLooks s credentials)) (fun token w₁ r₁ => ?_) fun _ _ _ _ => trivial
  refine wpBind.mpr (wpBind.mpr ?_)
  refine readingThen (looksReading fair (currentUserLooks token)) (fun user w₂ r₂ => ?_) fun _ _ _ _ => trivial
  refine readingThen (looksReading fair (getLoanLooks loanId)) (fun loan w₃ r₃ => ?_) fun _ _ _ _ => trivial
  refine readingThen (looksReading fair (ownerLooks loan)) (fun owner w₄ r₄ => ?_) fun _ _ _ _ => trivial
  refine refuseRule (fun _ => trivial) fun _ => ?_
  have serving := doingServing (doingLater doing (fair.trans r₁ (fair.trans r₂ (fair.trans r₃ r₄)))) rfl
  exact wpMono (fun _ _ _ done => ⟨_,rfl,done⟩) (fun _ _ _ => trivial) (payFineRule serving)

theorem clientPaying (client : Client) (fair : c.Fair) (idle : mine c.client w.history = []) (root : Rooted d t w)
    (free : ∀ h m, m.client = c.client → c.effect h m) :
    wp c (fun body _ w' => Paying client body (mine c.client w'.history)) (fun _ _ => True) (client.serve s) [] w := by
  by_cases paying : ∃ credentials loanId, client = .bearer credentials (.endpoint (.payLoanFine loanId))
  · obtain ⟨credentials,loanId,rfl⟩ := paying
    refine wpMono (fun body _ w' done => ?_) (fun _ _ h => h)
      (payLoanFineRule ⟨fair,idle,root,fun h m _ own _ _ => free h m own⟩ credentials)
    rintro _ _ same
    cases same
    exact done
  · exact wpMono (fun _ _ _ _ credentials loanId same => absurd ⟨credentials,loanId,same⟩ paying) (fun _ _ h => h) (wpFree free _)

end Contracts

section Runs
variable {s : Deployment} {clients : Nat → Option Client} {d : Database} {t : Int} {h : Log} {k : String}

theorem pathPaid (path : SystemPath s clients d t h) : paidIn k (stateAfter d h) = paidIn k d + takings k h := by
  induction path with
  | start => exact (Int.add_zero _).symm
  | @commit m h rest before ran clock known ih =>
    obtain ⟨_,_,_,done⟩ := known
    show paidIn k m.after = paidIn k d + takings k (m :: h)
    rw [deedPaid done.deed ran,before,ih]
    unfold takings
    rw [List.map_cons,List.sum_cons]
    omega

theorem taskPays {client : Client} {loanId : String} (task : Client.task s client = some (.request (.payFine loanId))) :
    ∃ credentials, client = .bearer credentials (.endpoint (.payLoanFine loanId)) := by
  cases client with
  | scheduler => cases task
  | anonymous r => cases r <;> cases task
  | bearer credentials r =>
    cases r with
    | endpoint e => cases e <;> cases task; exact ⟨credentials,rfl⟩
    | createReservation bookId =>
      obtain ⟨_,_,same⟩ := Option.map_eq_some_iff.mp task
      cases same
    | _ => cases task

theorem commitPayment (path : SystemPath s clients d t h) {m : Commit} (mem : m ∈ h) {client : Client}
    (sent : clients m.client = some client) (other : ∀ credentials, client ≠ .bearer credentials (.endpoint (.payLoanFine k))) :
    payment k m.writes = 0 := by
  obtain ⟨_,path,_⟩ := Program.pathUpTo path mem
  cases path with
  | commit _ _ _ _ known =>
    obtain ⟨client',task,sent',done⟩ := known
    cases Option.some.inj (sent.symm.trans sent')
    have deed := done.deed
    generalize m.writes = writes at deed ⊢
    cases task with
    | reminders =>
      obtain ⟨_,_,_⟩ := deed
      rfl
    | request r =>
      by_cases paying : ∃ loanId, r = .payFine loanId
      · obtain ⟨loanId,rfl⟩ := paying
        obtain ⟨credentials,rfl⟩ := taskPays done.set
        cases deed with
        | notify _ about => exact about.elim
        | payFine _ found =>
          rw [paymentUpdate,if_neg fun here => ?_]
          rw [(Table.findSound found).2] at here
          exact other credentials (here ▸ rfl)
      · exact quietPayment deed fun loanId same => paying ⟨loanId,same⟩

theorem paysOwn (path : SystemPath s clients d t h) {m : Commit} (mem : m ∈ h) {credentials : String}
    (sent : clients m.client = some (.bearer credentials (.endpoint (.payLoanFine k)))) {l c : LoanModel}
    (writes : m.writes = [.updateLoan l c]) : l.id.text = k := by
  obtain ⟨_,path,_⟩ := Program.pathUpTo path mem
  cases path with
  | commit _ _ _ _ known =>
    obtain ⟨client,task,sent',done⟩ := known
    cases Option.some.inj (sent.symm.trans sent')
    obtain rfl : Task.request (.payFine k) = task := Option.some.inj done.set
    have deed : Effect _ _ m.before (.payFine k) m.writes := done.deed
    rw [writes] at deed
    cases deed with
    | payFine _ found => exact (Table.findSound found).2

theorem commitSent (path : SystemPath s clients d t h) {m : Commit} (mem : m ∈ h) : ∃ client, clients m.client = some client := by
  obtain ⟨_,path,_⟩ := Program.pathUpTo path mem
  cases path with
  | commit _ _ _ _ known =>
    obtain ⟨client,_,sent,_⟩ := known
    exact ⟨client,sent⟩

theorem takingsNone {own : Log} (none : ∀ m ∈ own, payment k m.writes = 0) : takings k own = 0 := by
  refine List.sum_eq_zero fun x mem => ?_
  obtain ⟨m,inside,rfl⟩ := List.mem_map.mp mem
  exact none m inside

theorem otherReceipt {client : Client} {body : Body} (other : ∀ credentials, client ≠ .bearer credentials (.endpoint (.payLoanFine k))) :
    receipt k client body = 0 := by
  unfold receipt
  split
  · rename_i credentials loanId view
    exact if_neg fun here => other credentials (by rw [here])
  · rfl

theorem sessionAccounted {world : World} {j : Nat} {client : Client} (sent : clients j = some client)
    (path : SystemPath s clients d t world.history)
    (thread : Option (Program.Thread Database Write RowKey Cache Answer ApiError Body))
    (answered : ∀ body, thread = some (.finished (.ok body)) → Paying client body (mine j world.history))
    (failed : ∀ e, thread = some (.finished (.error e)) → Refused (fun _ => True) (Client.task s client) e (mine j world.history)) :
    accounted k client (mine j world.history) thread = takings k (mine j world.history) := by
  have none (other : ∀ credentials, client ≠ .bearer credentials (.endpoint (.payLoanFine k))) :
      takings k (mine j world.history) = 0 := takingsNone fun m mem => by
    obtain ⟨inside,own⟩ := Program.mineMember mem
    exact commitPayment path inside (own ▸ sent) other
  cases thread with
  | none => rfl
  | some thread =>
  cases thread with
  | running p pending => rfl
  | finished result =>
  by_cases paying : ∃ credentials, client = .bearer credentials (.endpoint (.payLoanFine k))
  · obtain ⟨credentials,rfl⟩ := paying
    cases result with
    | ok body =>
      obtain ⟨answer,rfl,done⟩ := answered body rfl credentials k rfl
      obtain ⟨view,main,loan,now,rfl,own,writes,amount⟩ := done.payment k rfl
      obtain ⟨inside,here⟩ := Program.mineMember (own ▸ List.mem_singleton_self main)
      have same : loan.id.text = k := paysOwn path inside (here ▸ sent) writes
      rw [own]
      show (if k = k then view.paymentAmount else 0) = payment k main.writes + 0
      rw [writes,paymentUpdate,if_pos rfl,if_pos same,amount,Int.add_zero]
    | error e =>
      have none : mine j world.history = [] ∨ Down (fun _ => True) e := failed e rfl
      cases e with
      | redisError => rfl
      | _ =>
        rcases none with none | down
        · rw [none]
          rfl
        · cases down.1
  · have other : ∀ credentials, client ≠ .bearer credentials (.endpoint (.payLoanFine k)) := fun x same => paying ⟨x,same⟩
    rw [none other]
    cases result with
    | ok body => exact otherReceipt other
    | error e =>
      cases e with
      | redisError => exact none other
      | _ => rfl

/-- The money of every run: what is paid on a loan is what was paid at the start, what
payments answered since, and what sessions committed that run still or that Redis failed. -/
theorem paymentsAccounted (s : Deployment) {clients : Nat → Option Client} {n : Nat} (few : ∀ j, n ≤ j → clients j = none)
    (d : Database) (x : Cache) (t : Int) (moves : Moves) (k : String) :
    let final := (receive s (settled d x t) clients).run moves
    paidIn k final.world.db = paidIn k d + ∑ j ∈ Finset.range n,
      (clients j).elim 0 fun client => accounted k client (mine j final.world.history) (final.pool j) := by
  have rule (j : Nat) (client : Client) (sent : clients j = some client) :
      wp (Program.pooled j (fun _ _ => True) (fun _ => True) fun h m => entitled s clients d t j h m ∧ True)
        (fun body _ w' => Paying client body (mine j w'.history))
        (fun e w' => Refused (fun _ => True) (Client.task s client) e (mine j w'.history)) (client.serve s) [] (settled d x t) := by
    have ends := pooledEnds (s := s) (w := settled d x t) (fun _ => True) (fun _ => trivial) (fun _ _ => trivial) rfl sent
    have pays := clientPaying client (s := s) (c := Program.pooled j (fun _ _ => True) (fun _ => True) fun _ _ => True)
      (Program.pooledFair (fun _ => trivial) fun _ _ => trivial) rfl (Program.freshRooted (w := settled d x t) rfl) fun _ _ _ => trivial
    exact wpMono (fun _ _ _ done => done.2) (fun _ _ done => done.1)
      (wpBoth (c := Program.pooled j (fun _ _ => True) (fun _ => True) fun _ _ => True) ends pays)
  have good := poolGood (fun _ => True) s clients (w := settled d x t) _ Paying _ (fun _ => trivial) (fun _ _ => trivial)
    (fun _ => trivial) rfl rule moves fun _ _ => trivial
  have path : SystemPath s clients d t _ := good.path.mono fun _ _ known => known.1
  intro final
  have total : paidIn k final.world.db = paidIn k d + takings k final.world.history := by
    rw [good.root.db]
    exact pathPaid path
  rw [total,takings,Program.sumShares fun m mem => ?_]
  · refine congrArg _ (Finset.sum_congr rfl fun j _ => ?_)
    cases sent : clients j with
    | none =>
      refine takingsNone fun m mem => ?_
      obtain ⟨inside,own⟩ := Program.mineMember mem
      obtain ⟨client,here⟩ := commitSent path inside
      rw [own,sent] at here
      contradiction
    | some client =>
      refine (sessionAccounted sent path (final.pool j) (fun body here => ?_) fun e here => ?_).symm
      · exact good.threads j _ here client sent
      · exact good.threads j _ here client sent
  · obtain ⟨client,sent⟩ := commitSent path mem
    by_contra far
    rw [few m.client (Nat.not_lt.mp far)] at sent
    contradiction

def payingTwice (j : Nat) : Option Client :=
  if j < 2 then some (.bearer (sampleId 2).text (.endpoint (.payLoanFine (sampleId 4).text))) else none

def sixDaysLate : Int := lentOnce.clock + 20 * FineCalculator.dayMicros

theorem payingTwiceAccounted :
    let final := (receive plainTokens (settled lentOnce.db lentOnce.ext sixDaysLate) payingTwice).run (inTurn 60)
    paidIn (sampleId 4).text final.world.db = 12 ∧ paidIn (sampleId 4).text final.world.db =
      paidIn (sampleId 4).text lentOnce.db + ∑ j ∈ Finset.range 2, (payingTwice j).elim 0 fun client =>
        accounted (sampleId 4).text client (mine j final.world.history) (final.pool j) := by
  have two : ∀ j, 2 ≤ j → payingTwice j = none := fun _ far => if_neg (Nat.not_lt.mpr far)
  refine ⟨by decide +kernel,?_⟩
  exact paymentsAccounted plainTokens two lentOnce.db lentOnce.ext sixDaysLate (inTurn 60) (sampleId 4).text

end Runs
end LibraryApi.PaymentLedger
