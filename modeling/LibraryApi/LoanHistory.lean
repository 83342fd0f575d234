import LibraryApi.CommittedRows

/-! The life of one loan row: what a commit of any request can make of it. Closing,
paying and renewing replace the committed row; an update of the due date writes
that one column of whatever row is committed by then. -/
namespace LibraryApi.LoanHistory
open Models KeyedTable Repositories Requests Effects CommittedRows
open LoanService (returned cancelled paid renewed fineUnpaid newLoan)
open FineCalculator (calculateDaysLate calculateAmount)
open Program (execAll Path stateAfter clockAfter mine)

inductive LoanStep (seen : Seen) (k : String) (l : LoanModel) : Request → LoanModel → Prop where
  | kept {r} : LoanStep seen k l r l
  | returned {now} (active : l.status = .active) (instant : seen fun _ t => t = now)
      (settled : ¬ fineUnpaid l now) : LoanStep seen k l (.returnLoan k) (returned l now)
  | cancelled {now} (active : l.status = .active) (instant : seen fun _ t => t = now) :
      LoanStep seen k l (.cancelLoan k) (cancelled l now)
  | renewed {now} (active : l.status = .active) (instant : seen fun _ t => t = now)
      (inTime : calculateDaysLate l.dueDate now ≤ 0) (below : l.renewalCount < LoanService.maxRenewals) :
      LoanStep seen k l (.renewLoan k) (renewed l)
  | paid {now} (active : l.status = .active) (instant : seen fun _ t => t = now)
      (owed : l.finePaidAmount < calculateAmount l.dueDate now)
      (positive : 0 < calculateAmount l.dueDate now) : LoanStep seen k l (.payFine k) (paid l now)
  | rescheduled {data loaded t} (read : seen fun d _ => d.loans.find k = some loaded)
      (active : loaded.status = .active) (asked : data.dueDate = some (.naive t))
      (later : loaded.loanDate < t) : LoanStep seen k l (.updateLoan k data)
        {l with dueDate := flushed loaded.dueDate t l.dueDate}

inductive Change (seen : Seen) (loans : Table (fun r : LoanModel => r.id.text)) :
    Request → Table (fun r : LoanModel => r.id.text) → Prop where
  | same {r} : Change seen loans r loans
  | opened {data user book id now createdAt loans'} (instant : seen fun _ t => t = now)
      (added : loans.insert (newLoan id user book now createdAt) = some loans') :
      Change seen loans (.createLoan data) loans'
  | replaced {r a c} (stored : loans.find a.id.text = some a) (id : c.id = a.id)
      (step : LoanStep seen a.id.text a r c) : Change seen loans r (storeLoan loans a c)
  | rescheduled {data loaded t} (read : seen fun d _ => d.loans.find loaded.id.text = some loaded)
      (active : loaded.status = .active) (asked : data.dueDate = some (.naive t))
      (later : loaded.loanDate < t) : Change seen loans (.updateLoan loaded.id.text data)
        (storeLoan loans loaded {loaded with dueDate := t})

section Steps
variable {seen : Seen} {own : Log} {before after : Database} {r : Request} {writes : List Write}
  {k : String} {l : LoanModel}

theorem storedSame (loans : Table (fun r : LoanModel => r.id.text)) (l : LoanModel) :
    storeLoan loans l l = loans := by
  obtain ⟨rows,unique⟩ := loans
  simp [storeLoan,Table.modify,Database.loanUnchanged]

theorem loansChanged (e : Effect seen own before r writes) (ran : execAll writes before = .ok after) :
    Change seen before.loans r after.loans := by
  have elsewhereSame {x : Write} (other : elsewhere x = true) (ran : execAll [x] before = .ok after) :
      Change seen before.loans r after.loans := by
    rw [(elsewhereRan other (ranOne ran)).2]; exact .same
  cases e with
  | createBook => obtain ⟨_,_,rfl⟩ := ranInsertBook ran; exact .same
  | updateBook => obtain rfl := ranUpdateBook ran; exact .same
  | deleteBook => obtain rfl := ranUpdateBook ran; exact .same
  | deleteAuthor =>
    have same : after.loans = before.loans := by
      refine Program.execAllKeeps (R := fun d d' => d'.loans = d.loans) (fun _ => rfl)
        (fun {a b c} (x : b.loans = a.loans) (y : c.loans = b.loans) => y.trans x)
        (fun x mem d d' step => ?_) ran
      rcases List.mem_cons.mp mem with rfl | inside
      · exact (elsewhereRan rfl step).2
      · obtain ⟨b,_,rfl⟩ := List.mem_map.mp inside
        obtain rfl := Database.updateBookRan step; rfl
    rw [same]; exact .same
  | createLoan _ _ _ _ _ _ instant =>
    obtain ⟨loans,added,rfl⟩ := ranLend ran
    exact .opened instant added
  | returnLoan _ stored active _ _ instant settled =>
    obtain rfl := ranClose ran
    obtain rfl := (Table.findSound stored).2
    exact .replaced stored rfl (.returned active instant settled)
  | cancelLoan _ stored active _ _ instant =>
    obtain rfl := ranClose ran
    obtain rfl := (Table.findSound stored).2
    exact .replaced stored rfl (.cancelled active instant)
  | renewLoan _ stored active instant inTime below =>
    obtain rfl := ranUpdateLoan ran
    obtain rfl := (Table.findSound stored).2
    exact .replaced stored rfl (.renewed active instant inTime below)
  | payFine _ stored active instant owed positive =>
    obtain rfl := ranUpdateLoan ran
    obtain rfl := (Table.findSound stored).2
    exact .replaced stored rfl (.paid active instant owed positive)
  | updateLoan _ read id active checked =>
    obtain rfl := ranUpdateLoan ran
    subst id
    rcases checked with ⟨_,rfl⟩ | ⟨t,asked,later,rfl⟩
    · show Change seen before.loans _ (storeLoan before.loans _ _)
      rw [storedSame]; exact .same
    · exact .rescheduled read active asked later
  | createAuthor => exact elsewhereSame rfl ran
  | updateAuthor => exact elsewhereSame rfl ran
  | createUser => exact elsewhereSame rfl ran
  | updateUser => exact elsewhereSame rfl ran
  | updateRole => exact elsewhereSame rfl ran
  | deleteUser => exact elsewhereSame rfl ran
  | createReservation => exact elsewhereSame rfl ran
  | cancelReservation => exact elsewhereSame rfl ran
  | notify => exact elsewhereSame rfl ran

theorem loanStep (e : Effect seen own before r writes) (ran : execAll writes before = .ok after)
    (found : before.loans.find k = some l) :
    ∃ l', after.loans.find k = some l' ∧ LoanStep seen k l r l' := by
  have change := loansChanged e ran
  generalize after.loans = loans' at change ⊢
  cases change with
  | same => exact ⟨l,found,.kept⟩
  | opened _ added => exact ⟨l,Database.insertKeeps added found,.kept⟩
  | @replaced _ a c stored id step =>
    rw [storedLoan stored id]
    split
    · rename_i here
      subst here
      cases Option.some.inj (found.symm.trans stored)
      exact ⟨c,rfl,step⟩
    · exact ⟨l,found,.kept⟩
  | @rescheduled data loaded t read active asked later =>
    unfold storeLoan
    rw [Table.findModify,found]
    split
    · rename_i here
      subst here
      exact ⟨_,rfl,by simpa [LoanModel.flush] using LoanStep.rescheduled read active asked later⟩
    · exact ⟨l,rfl,.kept⟩

theorem loanBorn (e : Effect seen own before r writes) (ran : execAll writes before = .ok after)
    (absent : before.loans.find k = none) (found : after.loans.find k = some l) :
    ∃ data id user book now createdAt, r = .createLoan data ∧ (seen fun _ t => t = now) ∧
      l = newLoan id user book now createdAt := by
  have change := loansChanged e ran
  generalize after.loans = loans' at change found
  cases change with
  | same => rw [absent] at found; contradiction
  | opened instant added =>
    rw [Table.findInsert added] at found
    split at found
    · cases found; exact ⟨_,_,_,_,_,_,rfl,instant,rfl⟩
    · rw [absent] at found; contradiction
  | replaced stored id =>
    rw [storedLoan stored id] at found
    split at found
    · rename_i here; rw [here,stored] at absent; contradiction
    · rw [absent] at found; contradiction
  | rescheduled =>
    unfold storeLoan at found
    rw [Table.findModify,absent] at found
    split at found <;> contradiction

theorem loanOrigin (e : Effect seen own before r writes) (ran : execAll writes before = .ok after) {l' : LoanModel}
    (found' : after.loans.find k = some l') :
    (∃ l, before.loans.find k = some l ∧ LoanStep seen k l r l') ∨
      ∃ id user book now createdAt, l' = newLoan id user book now createdAt := by
  cases found : before.loans.find k with
  | none =>
    obtain ⟨_,id,user,book,now,createdAt,_,_,new⟩ := loanBorn e ran found found'
    exact .inr ⟨id,user,book,now,createdAt,new⟩
  | some l =>
    obtain ⟨l₁,found₁,step⟩ := loanStep e ran found
    cases Option.some.inj (found'.symm.trans found₁)
    exact .inl ⟨l,rfl,step⟩

theorem statusKept (e : Effect seen own before r writes) (ran : execAll writes before = .ok after)
    (found : before.loans.find k = some l) (closed : l.status ≠ .active) :
    ∃ l', after.loans.find k = some l' ∧ l'.status = l.status := by
  obtain ⟨l',found',step⟩ := loanStep e ran found
  refine ⟨l',found',?_⟩
  cases step with
  | kept => rfl
  | returned active => exact absurd active closed
  | cancelled active => exact absurd active closed
  | renewed active => exact absurd active closed
  | paid active => exact absurd active closed
  | rescheduled => rfl

theorem closedKept (e : Effect seen own before r writes) (ran : execAll writes before = .ok after)
    (other : ∀ data, r ≠ .updateLoan k data) (found : before.loans.find k = some l)
    (closed : l.status ≠ .active) : after.loans.find k = some l := by
  obtain ⟨l',found',step⟩ := loanStep e ran found
  cases step with
  | kept => exact found'
  | returned active => exact absurd active closed
  | cancelled active => exact absurd active closed
  | renewed active => exact absurd active closed
  | paid active => exact absurd active closed
  | rescheduled => exact absurd rfl (other _)

def closes (k : String) (writes : List Write) : Bool := writes.any fun
  | .updateLoan l c => l.id.text == k && c.status != .active
  | _ => false

inductive Exits (k : String) : Request → LoanStatus → Prop where
  | returning : Exits k (.returnLoan k) .returned
  | cancelling : Exits k (.cancelLoan k) .cancelled

theorem exitsClosed {status : LoanStatus} (exit : Exits k r status) : status ≠ .active := by
  cases exit <;> nofun

theorem exitsTwice {status : LoanStatus} (exit : Exits k r status) : commitsOf r = 2 := by
  cases exit <;> rfl

theorem closing (e : Effect seen own before r writes) (ran : execAll writes before = .ok after)
    (closed : closes k writes = true) : ∃ status, Exits k r status ∧ own = [] ∧
      (∃ l, before.loans.find k = some l ∧ l.status = .active) ∧
      ∃ l, after.loans.find k = some l ∧ l.status = status := by
  unfold closes at closed
  cases e with
  | @returnLoan loanId loan _ now first found active =>
    have id := (Table.findSound found).2
    have here : loanId = k ∧ (returned loan now).status ≠ .active := by simpa [id] using closed
    obtain ⟨rfl,done⟩ := here
    rw [ranClose ran]
    exact ⟨_,.returning,first,⟨_,found,active⟩,_,loanReplaced found (c := returned loan now) rfl,rfl⟩
  | @cancelLoan loanId loan _ now first found active =>
    have id := (Table.findSound found).2
    have here : loanId = k ∧ (cancelled loan now).status ≠ .active := by simpa [id] using closed
    obtain ⟨rfl,done⟩ := here
    rw [ranClose ran]
    exact ⟨_,.cancelling,first,⟨_,found,active⟩,_,loanReplaced found (c := cancelled loan now) rfl,rfl⟩
  | renewLoan _ _ active => simp [renewed,active] at closed
  | payFine _ _ active => simp [paid,active] at closed
  | updateLoan _ _ _ active checked =>
    rcases checked with ⟨_,rfl⟩ | ⟨_,_,_,rfl⟩ <;> simp [active] at closed
  | deleteAuthor => simp [AuthorRepository.deactivate] at closed
  | _ => simp at closed

theorem mainCloses {status : LoanStatus} (e : Effect seen [] before r writes)
    (exit : Exits k r status) : closes k writes = true := by
  cases exit with
  | returning =>
    cases e with
    | returnLoan _ found => simp [closes,returned,(Table.findSound found).2]
    | notify second => contradiction
  | cancelling =>
    cases e with
    | cancelLoan _ found => simp [closes,cancelled,(Table.findSound found).2]
    | notify second => contradiction

theorem statusSame (e : Effect seen own before r writes) (ran : execAll writes before = .ok after)
    (found : before.loans.find k = some l) (none : closes k writes = false) :
    ∃ l', after.loans.find k = some l' ∧ l'.status = l.status := by
  by_cases first : own = []
  · subst first
    obtain ⟨l',found',step⟩ := loanStep e ran found
    refine ⟨l',found',?_⟩
    cases step with
    | returned => rw [mainCloses e .returning] at none; contradiction
    | cancelled => rw [mainCloses e .cancelling] at none; contradiction
    | _ => rfl
  · obtain ⟨_,_,_,rfl,_⟩ := secondEffect e first
    exact ⟨l,by rw [(elsewhereRan rfl (ranOne ran)).2]; exact found,rfl⟩

end Steps

section Paths
variable {seen : Log → Int → Seen} {requests : Nat → Option Request} {d : Database} {t : Int} {h : Log}
  {k : String}

theorem loanInvariant {P : Int → LoanModel → Prop}
    (born : ∀ m : Commit, ∀ id user book now createdAt, P m.clock (newLoan id user book now createdAt))
    (kept : ∀ m ∈ h, ∀ h r l l', requests m.client = some r →
      (stateAfter d h).loans.find k = some l → clockAfter t h ≤ m.clock →
      LoanStep (seen h m.clock) k l r l' → P (clockAfter t h) l → P m.clock l')
    (start : ∀ l, d.loans.find k = some l → P t l) (path : Path (allowed seen requests) d t h) :
    ∀ l, (stateAfter d h).loans.find k = some l → P (clockAfter t h) l := by
  induction path with
  | start => exact start
  | @commit m h rest before ran clock effect ih =>
    replace ih := ih fun c mem => kept c (List.mem_cons_of_mem _ mem)
    obtain ⟨r,sent,e⟩ := effect
    rw [before] at e ran
    intro l' found'
    rcases loanOrigin e ran found' with ⟨l,found,step⟩ | ⟨_,_,_,_,_,rfl⟩
    · exact kept m List.mem_cons_self h r l l' sent found clock step (ih l found)
    · exact born m _ _ _ _ _

theorem everyLoan {P : LoanModel → Prop}
    (born : ∀ id user book now createdAt, P (newLoan id user book now createdAt))
    (kept : ∀ {seen k l r l'}, LoanStep seen k l r l' → P l → P l')
    (start : ∀ l, d.loans.find k = some l → P l) (path : Path (allowed seen requests) d t h) :
    ∀ l, (stateAfter d h).loans.find k = some l → P l :=
  loanInvariant (P := fun _ => P) (fun _ => born) (fun _ _ _ _ _ _ _ _ _ step held => kept step held)
    start path

theorem loanStays {l : LoanModel} (found : d.loans.find k = some l)
    (path : Path (allowed seen requests) d t h) : ∃ l', (stateAfter d h).loans.find k = some l' ∧
      (l.status ≠ .active → l'.status = l.status) := by
  induction path with
  | start => exact ⟨l,found,fun _ => rfl⟩
  | @commit m h rest before ran clock effect ih =>
    obtain ⟨r,_,e⟩ := effect
    obtain ⟨l₁,found₁,same₁⟩ := ih
    rw [← before] at found₁
    by_cases closed : l.status = .active
    · obtain ⟨l₂,found₂,_⟩ := loanStep e ran found₁
      exact ⟨l₂,found₂,fun h => absurd closed h⟩
    · obtain ⟨l₂,found₂,same₂⟩ := statusKept e ran found₁ (by rw [same₁ closed]; exact closed)
      exact ⟨l₂,found₂,fun h => same₂.trans (same₁ h)⟩

theorem closedOnce (path : Path (allowed seen requests) d t h) :
    h.countP (fun m => closes k m.writes) ≤ 1 ∧
      (0 < h.countP (fun m => closes k m.writes) →
        ∃ l, (stateAfter d h).loans.find k = some l ∧ l.status ≠ .active) := by
  induction path with
  | start => exact ⟨Nat.zero_le 1,fun some => absurd some (Nat.lt_irrefl 0)⟩
  | @commit c h rest before ran clock effect ih =>
    obtain ⟨r,_,e⟩ := effect
    rw [before] at ran e
    rw [List.countP_cons]
    by_cases now : closes k c.writes = true
    · obtain ⟨status,exit,_,⟨l,found,active⟩,l₁,found₁,same⟩ := closing e ran now
      have none : h.countP (fun m => closes k m.writes) = 0 := by
        rcases Nat.eq_zero_or_pos (h.countP fun m => closes k m.writes) with zero | some
        · exact zero
        · obtain ⟨l',found',closed⟩ := ih.2 some
          cases Option.some.inj (found.symm.trans found')
          exact absurd active closed
      rw [none,if_pos now]
      exact ⟨Nat.le_refl 1,fun _ => ⟨l₁,found₁,same ▸ exitsClosed exit⟩⟩
    · rw [if_neg now]
      refine ⟨ih.1,fun some => ?_⟩
      obtain ⟨l,found,closed⟩ := ih.2 some
      obtain ⟨l',found',same⟩ := statusKept e ran found closed
      exact ⟨l',found',by rw [same]; exact closed⟩

theorem closedBy (path : Path (allowed seen requests) d t h) {j : Nat} {later : Log} {m : Commit}
    {r : Request} {status : LoanStatus} (own : mine j h = later ++ [m])
    (sent : requests j = some r) (exit : Exits k r status) :
    m ∈ h ∧ m.client = j ∧ closes k m.writes = true := by
  obtain ⟨inside,client,_,_,e⟩ := Runs.firstEffect path own sent
  exact ⟨inside,client,mainCloses e exit⟩

theorem closedSame (path : Path (allowed seen requests) d t h) {a b : Commit} (ha : a ∈ h)
    (hb : b ∈ h) (left : closes k a.writes = true) (right : closes k b.writes = true) : a = b :=
  Runs.countedSame (p := fun m : Commit => closes k m.writes) (closedOnce path).1 ha hb left right

theorem exitsOnce {admits : CacheService.Answer → Prop} {G : Database → Database → Prop} {s : State}
    (good : Runs.PoolGood requests admits G d t s) {i j : Nat} {ri rj : Request}
    {si sj : LoanStatus} (sentI : requests i = some ri) (sentJ : requests j = some rj)
    (exitI : Exits k ri si) (exitJ : Exits k rj sj) (doneI : Runs.succeeded s i = true)
    (doneJ : Runs.succeeded s j = true) : i = j := by
  have some {r : Request} {status : LoanStatus} (exit : Exits k r status) : commitsOf r ≠ 0 := by
    rw [exitsTwice exit]; nofun
  obtain ⟨_,a,ownA⟩ := Runs.succeededFirst good sentI doneI (some exitI)
  obtain ⟨_,c,ownC⟩ := Runs.succeededFirst good sentJ doneJ (some exitJ)
  obtain ⟨ha,clientA,closesA⟩ := closedBy good.path ownA sentI exitI
  obtain ⟨hc,clientC,closesC⟩ := closedBy good.path ownC sentJ exitJ
  rw [← clientA,← clientC,closedSame good.path ha hc closesA closesC]

end Paths
end LibraryApi.LoanHistory
