import LibraryApi.LoanHistory

/-! The due date of a closed loan. `update_loan` checks the status on a row it did
not lock, so it may commit on a loan that was closed meanwhile: the due date of a
closed loan stands as long as no such commit asks for another one. -/
namespace LibraryApi.DueDateRaces
open Models CacheService KeyedTable Repositories Requests Effects Runs CommittedRows LoanHistory
open FineCalculator (calculateAmount)
open Program (execAll Path stateAfter mine mineCons)

def onActive (k : String) (d : Database) : Write → Bool
  | .updateLoan l c => l.id.text != k || c.dueDate == l.dueDate ||
      (d.loans.find k).all fun s => s.status == .active
  | _ => true

def StillActive (k : String) (h : Log) : Prop := ∀ m ∈ h, m.writes.all (onActive k m.before) = true

instance (k : String) (h : Log) : Decidable (StillActive k h) := by
  unfold StillActive; infer_instance

def Charged (l : LoanModel) : Prop := l.status = .returned →
  ∃ t, l.returnedAt = some t ∧ l.fineAmount = calculateAmount l.dueDate t

def closedLoan : ApiError := .businessRule "Apenas empréstimos ativos podem ser atualizados"

section Steps
variable {seen : Seen} {own : Log} {before after : Database} {r : Request} {writes : List Write}
  {k : String} {l l' : LoanModel}

theorem closedUntouched (e : Effect seen own before r writes) (ran : execAll writes before = .ok after)
    (found : before.loans.find k = some l) (closed : l.status ≠ .active)
    (still : writes.all (onActive k before) = true) : after.loans.find k = some l := by
  by_cases update : ∃ data, r = .updateLoan k data
  · obtain ⟨data,rfl⟩ := update
    cases e with
    | @updateLoan _ _ loaded changed _ _ id _ checked =>
      have same : changed = loaded := by
        rcases checked with ⟨_,rfl⟩ | ⟨t,_,_,rfl⟩
        · rfl
        · by_cases due : t = loaded.dueDate
          · rw [due]
          · simp [onActive,id,due,found,closed] at still
      rw [ranUpdateLoan ran,same]
      show (storeLoan before.loans loaded loaded).find k = some l
      rw [storedSame]; exact found
    | notify _ about => exact about.elim
  · exact closedKept e ran (fun data same => update ⟨data,same⟩) found closed

theorem chargedStep (step : LoanStep seen k l r l') (active : l.status = .active) : Charged l' := by
  intro done
  cases step with
  | @returned now => exact ⟨now,rfl,rfl⟩
  | cancelled => contradiction
  | kept => rw [active] at done; contradiction
  | renewed => rw [show (LoanService.renewed l).status = l.status from rfl,active] at done; contradiction
  | paid => rw [show (LoanService.paid l _).status = l.status from rfl,active] at done; contradiction
  | rescheduled => rw [active] at done; contradiction

end Steps

section Paths
variable {seen : Log → Int → Seen} {requests : Nat → Option Request} {d : Database} {t : Int}
  {h : Log} {k : String} {l : LoanModel}

theorem chargedPath (start : ∀ l, d.loans.find k = some l → Charged l) (still : StillActive k h)
    (path : Path (allowed seen requests) d t h) :
    ∀ l, (stateAfter d h).loans.find k = some l → Charged l := by
  induction path with
  | start => exact start
  | @commit m h rest before ran clock effect ih =>
    obtain ⟨r,_,e⟩ := effect
    have earlier := ih fun m' mem => still m' (List.mem_cons_of_mem _ mem)
    rw [← before] at earlier
    intro l' found'
    rcases loanOrigin e ran found' with ⟨l,found,step⟩ | ⟨_,_,_,_,_,rfl⟩
    · by_cases active : l.status = .active
      · exact chargedStep step active
      · have same := closedUntouched e ran found active (still m List.mem_cons_self)
        cases Option.some.inj (same.symm.trans found')
        exact earlier _ found
    · intro done
      contradiction

theorem fixedPath {later earlier : Log} (path : Path (allowed seen requests) d t (later ++ earlier))
    (still : StillActive k (later ++ earlier))
    (found : (stateAfter d earlier).loans.find k = some l) (closed : l.status ≠ .active) :
    (∀ m ∈ later, m.after.loans.find k = some l) ∧
      (stateAfter d (later ++ earlier)).loans.find k = some l := by
  induction later with
  | nil => exact ⟨nofun,found⟩
  | cons c later ih =>
    cases path with
    | commit rest before ran clock effect =>
      replace rest : Path (allowed seen requests) d t (later ++ earlier) := rest
      replace before : c.before = stateAfter d (later ++ earlier) := before
      obtain ⟨r,_,e⟩ := effect
      obtain ⟨old,last⟩ := ih rest fun m mem => still m (List.mem_cons_of_mem _ mem)
      have kept := closedUntouched e ran (before ▸ last) closed (still c List.mem_cons_self)
      refine ⟨fun m mem => ?_,kept⟩
      rcases List.mem_cons.mp mem with rfl | inside
      · exact kept
      · exact old m inside

end Paths

section Late
variable {requests : Nat → Option Request} {d : Database} {t : Int} {s : State} {j : Nat} {k : String}
  {data : LoanService.UpdateLoanSchema}

def ClosedRow (d : Database) (k : String) : Prop := ∃ l, d.loans.find k = some l ∧ l.status ≠ .active

structure Late (k : String) (data : LoanService.UpdateLoanSchema) (j : Nat) (s : State) : Prop where
  closed : ClosedRow s.world.db k
  idle : mine j s.world.history = []
  thread : s.pool j = some (.running (handle (.updateLoan k data)) []) ∨
    s.pool j = some (.running (Program.raise closedLoan) []) ∨
    s.pool j = some (.finished (.error closedLoan))

theorem lateRead {w : World} {env : Program.Env Answer} (closed : ClosedRow w.db k) :
    Program.step j env w (handle (.updateLoan k data)) [] =
      some (w,.running (Program.raise closedLoan) []) := by
  obtain ⟨l,found,status⟩ := closed
  have read : handle (.updateLoan k data) = Program.Prog.select
      (fun d : Database => d.loans.find k) fun row => answer .loan (do
        let loan ← require (.notFound "Empréstimo não encontrado") row
        refuse (loan.status ≠ .active) closedLoan
        let changed ← LoanService.dueDateChecked loan data.dueDate
        let updatedLoan ← LoanRepository.update loan changed
        LoanService.invalidateLoanCache updatedLoan.userId updatedLoan.id
        LoanService.serializeLoan updatedLoan) := rfl
  rw [read]
  simp only [Program.step,Program.viewNil,found,require,refuse]
  rw [show (pure l : Service LoanModel) = Program.Prog.pure l from rfl]
  show some (w,Program.Thread.running (answer .loan ((if l.status ≠ .active then
    Program.raise closedLoan else pure ()) >>= _)) []) = _
  rw [if_pos status]
  rfl

theorem lateStep (good : PoolGood requests (fun _ => True) (fun _ _ => True) d t s)
    (late : Late k data j s) (move : Nat × Program.Env Answer) : Late k data j (s.step move) := by
  by_cases own : move.1 = j
  · have moved {p : Service Response} {w : World} {x} (at_ : s.pool j = some (.running p []))
        (stepped : Program.step j move.2 s.world p [] = some (w,x)) :
        (s.step move).world = w ∧ (s.step move).pool j = some x := by
      unfold Program.State.step
      rw [own,at_]
      simp [stepped]
    rcases late.thread with unread | read | ended
    · obtain ⟨world,thread⟩ := moved unread (lateRead late.closed)
      exact ⟨world ▸ late.closed,world ▸ late.idle,.inr (.inl thread)⟩
    · obtain ⟨world,thread⟩ := moved (w := s.world.release j) read rfl
      exact ⟨by rw [world]; exact late.closed,by rw [world]; exact late.idle,.inr (.inr thread)⟩
    · have same : s.step move = s := by
        unfold Program.State.step
        rw [own,ended]
      rw [same]; exact late
  · have pool : (s.step move).pool j = s.pool j := Program.stepOthers own
    rcases Program.stepAdvanced (fun _ => trivial) (fun _ _ => trivial) good trivial with same | next
    · rw [same]; exact late
    refine ⟨?_,?_,pool ▸ late.thread⟩
    · rcases next.kept with ⟨db,_⟩ | ⟨m,_,before,after,_,ran,_,r,_,e⟩
      · rw [db]; exact late.closed
      · obtain ⟨l,found,closed⟩ := late.closed
        obtain ⟨l',found',same⟩ := statusKept e ran (before ▸ found) closed
        exact ⟨l',after ▸ found',same ▸ closed⟩
    · rcases next.kept with ⟨_,history⟩ | ⟨m,client,_,_,_,_,history,_⟩
      · rw [history]; exact late.idle
      · rw [history,mineCons,if_neg (client ▸ own)]; exact late.idle

end Late

structure KeepsDueDate (k : String) (d : Database) (h : Log) : Prop where
  fixed : ∀ later earlier l, h = later ++ earlier → (stateAfter d earlier).loans.find k = some l →
    l.status ≠ .active → ∀ m ∈ later, ∃ l', m.after.loans.find k = some l' ∧ l'.dueDate = l.dueDate
  charged : ∀ m ∈ h, ∀ l, m.after.loans.find k = some l → Charged l

/-- If every new due date is committed on an ACTIVE loan, closed loans keep theirs
and returned loans their fine; an `update_loan` that starts after the closing
commits nothing and raises. -/
theorem dueDateKept (d : Database) (x : Cache) (t : Int) (requests : Nat → Option Request)
    (moves : Moves) (k : String) (start : ∀ l, d.loans.find k = some l → Charged l) :
    let s := (begin (settled d x t) requests).run moves
    (StillActive k s.world.history → KeepsDueDate k d s.world.history) ∧
    ∀ earlier later j data, moves = earlier ++ later → requests j = some (.updateLoan k data) →
      (∀ m ∈ earlier, m.1 ≠ j) →
      ClosedRow ((begin (settled d x t) requests).run earlier).world.db k →
      mine j s.world.history = [] ∧
        ∀ result, s.pool j = some (.finished result) → result = .error closedLoan := by
  intro s
  have good (moves : Moves) : PoolGood requests (fun _ => True) (fun _ _ => True) d t
      ((begin (settled d x t) requests).run moves) := poolGood d x t moves fun _ _ => trivial
  refine ⟨fun still => ⟨fun later earlier l split found closed m mem => ?_,fun m mem l found => ?_⟩,
    fun earlier later j data split sent others closed => ?_⟩
  · have path := (good moves).path
    rw [show ((begin (settled d x t) requests).run moves).world.history = later ++ earlier from split]
      at path
    exact ⟨l,(fixedPath path (split ▸ still) found closed).1 m mem,rfl⟩
  · obtain ⟨rest,path,sub⟩ := Program.pathUpTo (good moves).path mem
    exact chargedPath start (fun m' inside => still m' (sub m' inside)) path l found
  · have unread : ((begin (settled d x t) requests).run earlier).pool j =
        some (.running (handle (.updateLoan k data)) []) := by
      rw [Program.runOthers others]
      simp [begin,Program.start,sent]
    have idle : mine j ((begin (settled d x t) requests).run earlier).world.history = [] :=
      Program.runIdle (fun _ => trivial) (fun _ _ => trivial) (fun _ => trivial) (good [])
        (fun _ _ => trivial) others
    have late : ∀ later : Moves,
        Late k data j ((begin (settled d x t) requests).run (earlier ++ later)) := by
      intro later
      induction later using List.reverseRecOn with
      | nil => rw [List.append_nil]; exact ⟨closed,idle,.inl unread⟩
      | append_singleton later move ih =>
        rw [← List.append_assoc,Program.State.runAppend]
        exact lateStep (good _) ih move
    subst split
    obtain ⟨_,none,thread⟩ := late later
    refine ⟨none,fun result ended => ?_⟩
    replace ended : ((begin (settled d x t) requests).run (earlier ++ later)).pool j = _ := ended
    rcases thread with at_ | at_ | at_ <;> rw [at_] at ended <;> cases ended
    rfl

def rescheduling (j : Nat) : Option Request :=
  if j = 0 then some (.updateLoan (sampleId 4).text ⟨some (.naive 86400000000)⟩)
  else if j = 1 then some (.returnLoan (sampleId 4).text) else none

def returning : Moves := [(1,tick 5),(1,{tick 5 with elapsed := 3 * 86400000000})]

def updatedFirst : Moves := List.replicate 30 (0,tick 6) ++ returning ++ List.replicate 30 (1,tick 5)

def returnedMeanwhile : Moves :=
  (0,tick 6) :: returning ++ List.replicate 30 (1,tick 5) ++ List.replicate 30 (0,tick 6)

def rescheduled (moves : Moves) : State :=
  (begin (settled lentOnce.db lentOnce.ext lentOnce.clock) rescheduling).run moves

theorem updatedFirstKept :
    KeepsDueDate (sampleId 4).text lentOnce.db (rescheduled updatedFirst).world.history := by
  have lent : ∀ l ∈ lentOnce.db.loans.find (sampleId 4).text, l.status = .active := by decide +kernel
  have start : ∀ l, lentOnce.db.loans.find (sampleId 4).text = some l → Charged l :=
    fun l found done => by rw [lent l found] at done; contradiction
  have still : StillActive (sampleId 4).text (rescheduled updatedFirst).world.history := by
    decide +kernel
  unfold rescheduled at still ⊢
  exact (dueDateKept lentOnce.db lentOnce.ext lentOnce.clock rescheduling updatedFirst _ start).1 still

theorem closedLoanRescheduled :
    succeeded (rescheduled returnedMeanwhile) 0 = true ∧
    succeeded (rescheduled returnedMeanwhile) 1 = true ∧
    ¬ KeepsDueDate (sampleId 4).text lentOnce.db (rescheduled returnedMeanwhile).world.history := by
  refine ⟨by decide +kernel,by decide +kernel,fun kept => ?_⟩
  have last : ∃ m ∈ (rescheduled returnedMeanwhile).world.history,
      ∃ l ∈ m.after.loans.find (sampleId 4).text, l.status = .returned ∧
        ∀ now ∈ l.returnedAt, l.fineAmount = 0 ∧ calculateAmount l.dueDate now = 4 := by
    decide +kernel
  obtain ⟨m,mem,l,found,done,fine⟩ := last
  obtain ⟨now,at_,charged⟩ := kept.charged m mem l found done
  obtain ⟨zero,four⟩ := fine now at_
  omega

end LibraryApi.DueDateRaces
