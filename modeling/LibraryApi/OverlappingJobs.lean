import LibraryApi.FairRules
import LibraryApi.RelyRules
import LibraryApi.ReminderRun

/-! Runs of the job at the same time, on a server that keeps UTC. A run looks for a
reminder, and only then sends it: what another run commits in between it does not see. -/
namespace LibraryApi.OverlappingJobs
open Models CacheService Requests DueLoanNotificationJob DailyReminders ReminderRun
open FineCalculator (date dateMono days)
open ServiceRules (Contract)
open Program (wp wpBind wpMono execAll stateAfter clockAfter)

abbrev JobPool := Program.State Database Write RowKey Cache Answer ApiError Unit

def beginRuns (d : Database) (x : Cache) (t : Int) (runs : Nat → Bool) : JobPool :=
  Program.start (Runs.settled d x t) fun j => if runs j then some (execute utc) else none

def aborted (s : JobPool) (j : Nat) : Bool := match s.pool j with
  | some (.finished (.error .multipleResultsFound)) => true
  | _ => false

def inserted : Write → Option NotificationModel
  | .insertNotification r => some r
  | _ => none

def First (d : Database) (r : NotificationModel) : Prop :=
  ∀ loanId ∈ r.loanId, sentOn r.type loanId (date r.createdAt) d.notifications = 0
instance (d r) : Decidable (First d r) := by unfold First; infer_instance

def FirstAtCommit (h : Log) : Prop := ∀ m ∈ h, ∀ r ∈ m.writes.filterMap inserted, First m.before r
instance (h) : Decidable (FirstAtCommit h) := by unfold FirstAtCommit; infer_instance

structure Reminder (d : Database) (t : Int) (h : Log) (m : Commit) (r : NotificationModel) (loanId : Uuid) : Prop where
  writes : m.writes = [.insertNotification r]
  loan : r.loanId = some loanId
  type : reminds r.type = true
  stamp : r.createdAt ≤ m.clock
  looked : ∃ since found before asked, h = since ++ (found ++ before) ∧
    (∀ c ∈ since ++ found, c.client ≠ m.client) ∧ clockAfter t before ≤ asked ∧ asked ≤ r.createdAt ∧
    sentOn r.type loanId (date asked) (stateAfter d (found ++ before)).notifications = 0

def Reminding (d : Database) (t : Int) (h : Log) (m : Commit) : Prop := ∃ r loanId, Reminder d t h m r loanId

section Job
variable {c : Contract} {P : World → Prop} {err : ApiError → World → Prop} {w : World}

structure Stable (c : Contract) (P : World → Prop) : Prop where
  later : ∀ {w w'}, c.rely w w' → P w → P w'
  tick : ∀ {w} (n : Nat), P w → P {w with clock := w.clock + n}

theorem listRule (stable : Stable c P) (held : P w) {p : LoanModel → Bool} {ok : List LoanModel → List Write → World → Prop}
    (rest : ∀ loans w', P w' → ok loans [] w') : wp c ok err (do
    let order ← rowOrder
    Program.select fun d : Database => Repositories.arranged order (d.loans.rows.filter p)) [] w :=
  wpBind.mpr fun _ r₁ _ _ _ r₂ => rest _ _ (stable.later r₂ (stable.later r₁ held))

theorem remindAllRule {type : NotificationType} {message : String} (each : ∀ (loan : LoanModel) w, P w →
      wp c (fun _ pending w' => pending = [] ∧ P w') err
        (NotificationService.sendOncePerDay utc loan.userId type message (some loan.id) none) [] w)
    (loans : List LoanModel) (held : P w) :
    wp c (fun _ pending w' => pending = [] ∧ P w') err (remindAll utc type message loans) [] w := by
  induction loans generalizing w with
  | nil => exact ⟨rfl,held⟩
  | cons loan rest ih =>
    unfold remindAll
    refine wpBind.mpr (wpMono (fun _ _ w₁ done => ?_) (fun _ _ h => h) (each loan w held))
    obtain ⟨rfl,held⟩ := done
    exact ih held

theorem executeRule (stable : Stable c P) (each : ∀ (type : NotificationType) (message : String) (loan : LoanModel) w,
      reminds type = true → P w → wp c (fun _ pending w' => pending = [] ∧ P w') err
        (NotificationService.sendOncePerDay utc loan.userId type message (some loan.id) none) [] w)
    (held : P w) : wp c (fun _ _ _ => True) err (execute utc) [] w := by
  refine wpBind.mpr (wpBind.mpr fun w₁ r₁ n => wpBind.mpr (listRule stable (stable.tick n (stable.later r₁ held))
    fun soon w₂ held => wpBind.mpr (wpMono (fun _ _ w₃ done => ?_) (fun _ _ h => h)
      (remindAllRule (fun loan w => each _ _ loan w rfl) soon held))))
  obtain ⟨rfl,held⟩ := done
  refine wpBind.mpr (listRule stable held fun today w₄ held => wpBind.mpr (wpMono (fun _ _ w₅ done => ?_) (fun _ _ h => h)
      (remindAllRule (fun loan w => each _ _ loan w rfl) today held)))
  obtain ⟨rfl,held⟩ := done
  refine wpBind.mpr (wpBind.mpr fun w₆ r₆ n' => listRule stable (stable.tick n' (stable.later r₆ held))
    fun overdue w₇ held => ?_)
  exact wpMono (fun _ _ _ _ => trivial) (fun _ _ h => h) (remindAllRule (fun loan w => each _ _ loan w rfl) overdue held)

end Job

section Looking
variable {d : Database} {t : Int} {j : Nat} {w : World} {type : NotificationType} {loanId : Uuid}

abbrev running (d : Database) (t : Int) (j : Nat) : Contract :=
  Program.pooled j (fun _ _ => True) (fun _ => True) (Reminding d t)

theorem runningFair : (running d t j).Fair := Program.pooledFair (fun _ => trivial) fun _ _ => trivial

theorem rootedTick (n : Nat) (root : Program.Rooted d t w) : Program.Rooted d t {w with clock := w.clock + n} :=
  ⟨root.db,Int.le_trans root.clock (Program.Quiet.now 0 _ n).clock⟩

theorem rootedStable : Stable (running d t j) (Program.Rooted d t) :=
  ⟨fun r root => Program.frameRooted root r.1,rootedTick⟩

structure Missed (d : Database) (t : Int) (j : Nat) (type : NotificationType) (loanId : Uuid) (asked : Int) (w : World) :
    Prop where
  root : Program.Rooted d t w
  clock : asked ≤ w.clock
  look : ∃ since found before, w.history = since ++ (found ++ before) ∧ (∀ c ∈ since ++ found, c.client ≠ j) ∧
    clockAfter t before ≤ asked ∧
    sentOn type loanId (date asked) (stateAfter d (found ++ before)).notifications = 0

theorem missedStable {asked : Int} : Stable (running d t j) (Missed d t j type loanId asked) where
  later r missed := by
    obtain ⟨more,grown,others,_⟩ := r.1.history
    obtain ⟨since,found,before,same,own,start,none⟩ := missed.look
    refine ⟨Program.frameRooted missed.root r.1,Int.le_trans missed.clock r.1.clock,more ++ since,found,before,?_,?_,start,none⟩
    · rw [grown,same,List.append_assoc]
    · intro c mem
      rw [List.append_assoc] at mem
      rcases List.mem_append.mp mem with new | old
      · exact others c new
      · exact own c old
  tick n missed := ⟨rootedTick n missed.root,
    Int.le_trans missed.clock (Program.Quiet.now j _ n).clock,missed.look⟩

theorem lookRule (root : Program.Rooted d t w) : wp (running d t j)
    (fun sent pending w' => pending = [] ∧ Program.Rooted d t w' ∧
      (sent = false → ∃ asked, Missed d t j type loanId asked w'))
    (fun _ _ => True) (NotificationRepository.existsForLoanToday utc loanId type) [] w := by
  refine existsThen fun w₁ n w₂ r₁ r₂ => ?_
  have root₁ := rootedTick n (Program.frameRooted root r₁.1)
  have root₂ := Program.frameRooted root₁ r₂.1
  obtain ⟨found,grown,others,_⟩ := r₂.1.history
  rw [datedUtc]
  refine ⟨fun none => ⟨rfl,root₂,fun _ => ⟨w₁.clock + n,root₂,r₂.1.clock,[],found,w₁.history,by rw [grown]; rfl,others,
    root₁.clock,?_⟩⟩,fun _ => ⟨rfl,root₂,fun none => by contradiction⟩,fun _ => trivial⟩
  rw [← show w₂.db = stateAfter d (found ++ w₁.history) from grown ▸ root₂.db]
  exact none

theorem sendRule {userId : Uuid} {message : String} {asked : Int} (reminding : reminds type = true)
    (missed : Missed d t j type loanId asked w) : wp (running d t j)
    (fun _ pending w' => pending = [] ∧ Program.Rooted d t w') (fun _ _ => True)
    (NotificationHandlers.NotificationService.sendNotification userId type message (some loanId) none) [] w := by
  refine wpBind.mpr fun w₁ r₁ n => ?_
  have missed₁ := missedStable.tick n (missedStable.later r₁ missed)
  refine wpBind.mpr fun w₂ r₂ a _ => wpBind.mpr fun w₃ r₃ n' => ?_
  have missed₃ := missedStable.tick n' (missedStable.later r₃ (missedStable.later r₂ missed₁))
  refine wpBind.mpr (Program.writeRule runningFair (fun w₄ r₄ _ => ?_) fun _ _ _ _ => trivial)
  refine wpBind.mpr (Program.commitRule (fun w₅ d' r₅ ran => ⟨?_,fun w₆ r₆ => ⟨rfl,?_⟩⟩) fun _ _ _ _ => trivial)
  · have last := missedStable.later r₅ (missedStable.later r₄ missed₃)
    obtain ⟨since,found,before,same,own,start,none⟩ := last.look
    exact ⟨_,loanId,rfl,rfl,reminding,Int.le_trans r₄.1.clock r₅.1.clock,since,found,before,asked,same,own,start,
      missed₃.clock,none⟩
  · exact Program.frameRooted ⟨rfl,Int.le_refl _⟩ r₆.1

theorem onceRule (userId : Uuid) (message : String) (reminding : reminds type = true) (root : Program.Rooted d t w) :
    wp (running d t j) (fun _ pending w' => pending = [] ∧ Program.Rooted d t w') (fun _ _ => True)
      (NotificationService.sendOncePerDay utc userId type message (some loanId) none) [] w := by
  refine wpBind.mpr (wpMono (fun sent _ w₁ known => ?_) (fun _ _ h => h) (lookRule root))
  obtain ⟨rfl,root,look⟩ := known
  cases sent with
  | true => exact ⟨rfl,root⟩
  | false =>
    obtain ⟨asked,missed⟩ := look rfl
    exact wpBind.mpr (wpMono (fun _ _ _ done => done) (fun _ _ h => h) (sendRule reminding missed))

end Looking

section Paths
variable {d after : Database} {t : Int} {h : Log} {m : Commit} {r : NotificationModel} {loanId : Uuid}

abbrev RunPath (d : Database) (t : Int) : Log → Prop := Program.Path (Reminding d t) d t

theorem sentInserted (e : Reminder d t h m r loanId) (ran : execAll m.writes m.before = .ok m.after) :
    m.after.notifications = m.before.notifications ++ [r] := by
  rw [e.writes] at ran
  exact (congrArg Database.notifications (Except.ok.inj ran)).symm

theorem insertedOf (e : Reminder d t h m r loanId) : m.writes.filterMap inserted = [r] := by
  rw [e.writes]
  rfl

theorem firstIff (e : Reminder d t h m r loanId) (d : Database) :
    First d r ↔ sentOn r.type loanId (date r.createdAt) d.notifications = 0 := by
  unfold First
  rw [e.loan]
  simp

theorem onceIff : OncePerDay utc d ↔
    ∀ type loanId day, reminds type = true → sentOn type loanId day d.notifications ≤ 1 := by
  unfold OncePerDay
  simp only [utcDate]
  rfl

theorem onceStep (e : Reminder d t h m r loanId) (ran : execAll m.writes m.before = .ok m.after)
    (once : OncePerDay utc m.before) : OncePerDay utc m.after ↔ First m.before r := by
  have own : ofDay r.type loanId (date r.createdAt) r = true := by simp [ofDay,e.loan]
  have grown (type : NotificationType) (loan : Uuid) (day : Int) : sentOn type loan day m.after.notifications =
      sentOn type loan day m.before.notifications + if ofDay type loan day r then 1 else 0 := by
    rw [sentInserted e ran,sentAppend]
    simp [sentOn,List.countP_cons]
  rw [firstIff e,onceIff]
  constructor
  · intro few
    have here := few r.type loanId (date r.createdAt) e.type
    rw [grown,if_pos own] at here
    omega
  · intro none type loan day reminding
    rw [grown]
    split
    · rename_i hit
      simp only [ofDay,Bool.and_eq_true,beq_iff_eq] at hit
      obtain ⟨⟨about,rfl⟩,rfl⟩ := hit
      cases Option.some.inj (e.loan.symm.trans about)
      omega
    · exact onceSent once reminding loan day

theorem pathOnce (start : OncePerDay utc d) (path : RunPath d t h) :
    ((∀ m ∈ h, OncePerDay utc m.after) ↔ FirstAtCommit h) ∧ (FirstAtCommit h → OncePerDay utc (stateAfter d h)) := by
  refine Program.pathIff start (fun {h m} path once => ?_) path
  cases path with
  | commit rest before ran clock allowed =>
    obtain ⟨r,loanId,e⟩ := allowed
    rw [onceStep e ran once,insertedOf e]
    simp

theorem rowsIff {later : Log} (path : RunPath d t (later ++ h)) (r : NotificationModel) :
    r ∈ (stateAfter d (later ++ h)).notifications ↔
      r ∈ (stateAfter d h).notifications ∨ ∃ c ∈ later, r ∈ c.writes.filterMap inserted := by
  induction later with
  | nil => simp
  | cons m later ih =>
    cases path with
    | commit rest before ran clock allowed =>
      obtain ⟨r',loanId,e⟩ := allowed
      show r ∈ m.after.notifications ↔ _
      rw [sentInserted e ran,before,List.mem_append,List.mem_singleton]
      refine (or_congr (ih rest) Iff.rfl).trans ?_
      simp only [List.exists_mem_cons_iff,insertedOf e,List.mem_singleton]
      rw [or_assoc]
      exact or_congr Iff.rfl or_comm

theorem rowsPast (past : ∀ r ∈ d.notifications, r.createdAt ≤ t) (path : RunPath d t h) :
    ∀ r ∈ (stateAfter d h).notifications, r.createdAt ≤ clockAfter t h := by
  induction path with
  | start => exact past
  | @commit m h rest before ran clock allowed ih =>
    obtain ⟨r',loanId,e⟩ := allowed
    intro r mem
    replace mem : r ∈ m.after.notifications := mem
    rw [sentInserted e ran,before] at mem
    rcases List.mem_append.mp mem with old | new
    · exact Int.le_trans (ih r old) clock
    · rw [List.mem_singleton.mp new]
      exact e.stamp

def Alike (a b : NotificationModel) : Prop :=
  a.loanId = b.loanId ∧ a.type = b.type ∧ date a.createdAt = date b.createdAt

theorem firstAlike (e : Reminder d t h m r loanId) (d : Database) :
    First d r ↔ ∀ r' ∈ d.notifications, ¬ Alike r' r := by
  rw [firstIff e]
  unfold sentOn
  rw [List.countP_eq_zero]
  refine forall₂_congr fun r' _ => not_congr ?_
  simp only [ofDay,Bool.and_eq_true,beq_iff_eq,Alike,e.loan,and_assoc]

/-- When the run took the date for its look, there was no such reminder yet. Whatever it
finds at its commit another run has committed since. -/
theorem overtakenSince (past : ∀ r ∈ d.notifications, r.createdAt ≤ t) {later : Log} (path : RunPath d t (later ++ m :: h))
    (mem : r ∈ m.writes.filterMap inserted) : ∃ since looked, h = since ++ looked ∧
      (∀ c ∈ since, c.client ≠ m.client) ∧ First (stateAfter d looked) r ∧
      (First m.before r ↔ ∀ c ∈ since, ∀ r' ∈ c.writes.filterMap inserted, ¬ Alike r' r) := by
  cases path.suffix with
  | commit rest before ran clock allowed =>
    obtain ⟨r',loanId,e⟩ := allowed
    rw [insertedOf e] at mem
    obtain rfl := List.mem_singleton.mp mem
    obtain ⟨since,found,looked,asked,same,others,start,order,none⟩ := e.looked
    rw [← List.append_assoc] at same
    subst same
    have shown : RunPath d t (found ++ looked) := Program.Path.suffix (List.append_assoc .. ▸ rest)
    have first : First (stateAfter d looked) r := by
      rw [firstAlike e]
      intro old mem alike
      by_cases today : date r.createdAt = date asked
      · have counted := List.countP_eq_zero.mp none old ((rowsIff shown old).mpr (.inl mem))
        simp [ofDay,alike.1,alike.2.1,alike.2.2,e.loan,today] at counted
      · have early := dateMono (Int.le_trans (rowsPast past shown.suffix old mem) start)
        have late := dateMono order
        have day := alike.2.2
        omega
    refine ⟨since ++ found,looked,rfl,others,first,?_⟩
    rw [firstAlike e,before]
    rw [firstAlike e] at first
    constructor
    · exact fun none c inside r' sent => none r' ((rowsIff rest r').mpr (.inr ⟨c,inside,sent⟩))
    · intro none r' mem
      rcases (rowsIff rest r').mp mem with old | ⟨c,inside,sent⟩
      · exact first r' old
      · exact none c inside r' sent

end Paths

section Finding
variable {j : Nat} {w : World} {type : NotificationType} {loanId : Uuid}

theorem onceFinds (userId : Uuid) (message : String) (reminding : reminds type = true) :
    wp (Program.seeing j (OncePerDay utc) fun _ => True) (fun _ pending _ => pending = [] ∧ True)
      (fun e _ => e ≠ .multipleResultsFound)
      (NotificationService.sendOncePerDay utc userId type message (some loanId) none) [] w := by
  refine wpBind.mpr (existsThen fun w₁ n w₂ _ once => ?_)
  have few := onceSent once reminding loanId (date (w₁.clock + n))
  rw [datedUtc]
  refine ⟨fun _ => ?_,fun _ => ⟨rfl,trivial⟩,fun several => absurd few (Nat.not_le_of_lt several)⟩
  exact wpBind.mpr (wpBind.mpr fun _ _ _ => wpBind.mpr fun _ _ _ _ => wpBind.mpr fun _ _ _ =>
    wpBind.mpr fun _ _ => wpBind.mpr fun _ _ => ⟨trivial,fun _ _ => ⟨rfl,trivial⟩⟩)

end Finding

section Runs
variable {d : Database} {x : Cache} {t : Int} {runs : Nat → Bool} {moves : Moves}

theorem runsPath : let s := (beginRuns d x t runs).run moves
    RunPath d t s.world.history ∧ s.world.db = stateAfter d s.world.history := by
  have begun : Program.Good (fun _ _ => True) (fun _ => True) (fun _ => Reminding d t) (fun _ _ _ => True)
      (fun _ _ _ => True) d t (beginRuns d x t runs) := by
    refine Program.startGood (w := Runs.settled d x t) rfl fun j p found => ?_
    split at found <;> cases found
    exact executeRule rootedStable (fun _ message loan _ reminding root => onceRule loan.userId message reminding root)
      (Program.freshRooted (w := Runs.settled d x t) rfl)
  have good := Program.runGood (fun _ => trivial) (fun _ _ => trivial) (fun _ => trivial) begun moves fun _ _ => trivial
  exact ⟨good.path,good.root.db⟩

theorem neverAborted (start : OncePerDay utc d) (j : Nat)
    (all : ∀ m ∈ ((beginRuns d x t runs).run moves).world.history, OncePerDay utc m.after) :
    aborted ((beginRuns d x t runs).run moves) j = false := by
  have held : ∀ th, ((beginRuns d x t runs).run moves).pool j = some th →
      Program.Held (Program.seeing j (OncePerDay utc) fun _ => True) (fun _ _ => True)
        (fun e _ => e ≠ .multipleResultsFound) ((beginRuns d x t runs).run moves).world th := by
    refine Program.runHeld Program.seeingSteady (fun _ _ _ _ h => h) (fun _ _ _ _ h => h) start
      (fun _ _ => trivial) (Program.withinCommitted start all) fun thread found => ?_
    obtain ⟨p,hp,rfl⟩ := Option.map_eq_some_iff.mp found
    replace hp : (if runs j then some (execute utc) else none) = some p := hp
    split at hp <;> cases hp
    exact executeRule ⟨fun _ h => h,fun _ h => h⟩
      (fun _ message loan _ reminding _ => onceFinds loan.userId message reminding) trivial
  unfold aborted
  split
  · rename_i failed
    exact absurd rfl (held _ failed)
  · rfl

/-- Whatever the interleaving, each reminder is there once in every committed state exactly
if every run commits the first of its day; then no run is aborted by two. -/
theorem onceIffFirst (d : Database) (x : Cache) (t : Int) (runs : Nat → Bool) (moves : Moves) (start : OncePerDay utc d) :
    let s := (beginRuns d x t runs).run moves
    ((OncePerDay utc s.world.db ∧ ∀ m ∈ s.world.history, OncePerDay utc m.after) ↔ FirstAtCommit s.world.history) ∧
      (FirstAtCommit s.world.history → ∀ j, aborted s j = false) := by
  intro s
  obtain ⟨path,last⟩ : RunPath d t s.world.history ∧ _ := runsPath
  obtain ⟨every,final⟩ := pathOnce start path
  rw [last]
  exact ⟨⟨fun h => every.mp h.2,fun h => ⟨final h,every.mpr h⟩⟩,fun first j => neverAborted start j (every.mpr first)⟩

end Runs

open Runs (tick lentOnce)

def awaits (j n : Nat) : Moves := List.replicate n (j,tick (5+j))

abbrev threeRuns : JobPool := beginRuns lentOnce.db [] (days 20) fun j => decide (j < 3)

theorem onceNone {d : Database} (none : reminders d = []) : OncePerDay utc d :=
  orderlyOnce (show Orderly utc (reminders d) 0 by rw [none]; exact ⟨by simp,.nil,fun _ => .nil⟩)

theorem remindedByOne : let s := threeRuns.run (awaits 1 8 ++ awaits 0 20 ++ awaits 1 10)
    (OncePerDay utc s.world.db ∧ (reminders s.world.db).length = 1) ∧ ∀ j, aborted s j = false := by
  have start : OncePerDay utc lentOnce.db := onceNone (by decide +kernel)
  obtain ⟨once,never⟩ := onceIffFirst lentOnce.db [] (days 20) (fun j => decide (j < 3))
    (awaits 1 8 ++ awaits 0 20 ++ awaits 1 10) start
  generalize same : (beginRuns lentOnce.db [] (days 20) fun j => decide (j < 3)).run
    (awaits 1 8 ++ awaits 0 20 ++ awaits 1 10) = s at once never
  have first : FirstAtCommit s.world.history := by
    rw [← same]
    decide +kernel
  have one : (reminders s.world.db).length = 1 := by
    rw [← same]
    decide +kernel
  exact ⟨⟨(once.mpr first).1,one⟩,never first⟩

theorem notOnce {d : Database} (type : NotificationType) (loanId : Uuid) (day : Int) (reminding : reminds type = true)
    (two : 1 < sentOn type loanId day d.notifications) : ¬ OncePerDay utc d := fun once =>
  absurd (onceSent once reminding loanId day) (Nat.not_le_of_lt two)

theorem remindedByBoth :
    let s := threeRuns.run (awaits 0 10 ++ awaits 1 10 ++ awaits 0 10 ++ awaits 1 10 ++ awaits 2 12)
    OncePerDay utc lentOnce.db ∧ ¬ OncePerDay utc s.world.db ∧ aborted s 2 = true :=
  ⟨onceNone (by decide +kernel),notOnce .loanOverdue (Runs.sampleId 4) 20 rfl (by decide +kernel),by decide +kernel⟩

end LibraryApi.OverlappingJobs
