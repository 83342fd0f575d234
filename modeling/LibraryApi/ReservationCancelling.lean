import LibraryApi.ReservationHistory
import LibraryApi.ServiceExits

/-! One reservation under concurrent cancellations. `cancel_reservation` tests the
status of a plainly read row, so two of them can both find it ACTIVE: it is
cancelled once, and told once, exactly if every cancellation is committed while
the row is ACTIVE still. -/
namespace LibraryApi.ReservationCancelling
open Models CacheService KeyedTable Repositories Requests Effects Runs CommittedRows ReservationHistory
open ServiceExits ServiceRules
open Program (execAll Path stateAfter mine mineCons Raises wp wpBind wpMono seeing)

def onlyActive : ApiError := .businessRule "Apenas reservas ativas podem ser canceladas"

def Open (k : String) (d : Database) : Prop :=
  ∃ row, d.reservations.find k = some row ∧ row.status = .active

def ActiveAtCommit (k : String) (h : Log) : Prop :=
  ∀ m ∈ h, cancels k m.writes = true → Open k m.before

structure CancelsOnce (requests : Nat → Option Request) (k : String) (s : State) : Prop where
  single : ∀ i j, requests i = some (.cancelReservation k) → requests j = some (.cancelReservation k) →
    succeeded s i = true → succeeded s j = true → i = j
  refused : ∀ j e, requests j = some (.cancelReservation k) → s.pool j = some (.finished (.error e)) →
    e = onlyActive
  once : s.world.history.countP (fun m => cancels k m.writes) ≤ 1
  final : ∀ later m earlier, s.world.history = later ++ m :: earlier → cancels k m.writes = true →
    ∀ m' ∈ later, m'.after.reservations.find k = m.after.reservations.find k
  told : (∃ j, requests j = some (.cancelReservation k)) →
    (∀ j, requests j = some (.cancelReservation k) → finished s j) →
    (∃ j, requests j = some (.cancelReservation k) ∧ succeeded s j = true) ∧ told s.world.db k = 1

section Paths
variable {seen : Log → Int → Seen} {requests : Nat → Option Request} {d : Database} {t : Int} {h : Log}
  {k : String}

theorem pathRow {row : ReservationModel} (found : d.reservations.find k = some row)
    (path : Path (allowed seen requests) d t h) : ∃ row', (stateAfter d h).reservations.find k = some row' ∧
      (h.countP (fun m => cancels k m.writes) = 0 → row' = row) ∧
      (0 < h.countP (fun m => cancels k m.writes) → row'.status = .cancelled) := by
  induction path with
  | start => exact ⟨row,found,fun _ => rfl,fun some => absurd some (Nat.lt_irrefl 0)⟩
  | @commit c h rest before ran clock effect ih =>
    obtain ⟨r,_,e⟩ := effect
    obtain ⟨row₁,found₁,same,closed⟩ := ih
    rw [← before] at found₁
    obtain ⟨row₂,found₂,kept,cancelled⟩ := reservationStep e ran found₁
    refine ⟨row₂,found₂,?_,?_⟩ <;> rw [List.countP_cons]
    · intro none
      cases now : cancels k c.writes with
      | true => simp [now] at none
      | false => rw [kept now]; exact same (by simpa [now] using none)
    · intro some
      cases now : cancels k c.writes with
      | true => exact cancelled now
      | false => rw [kept now]; exact closed (by simpa [now] using some)

theorem openUntil (start : Open k d) (path : Path (allowed seen requests) d t h) :
    Open k (stateAfter d h) ↔ h.countP (fun m => cancels k m.writes) = 0 := by
  obtain ⟨row,found,active⟩ := start
  obtain ⟨row',found',same,closed⟩ := pathRow found path
  constructor
  · intro ⟨row₁,found₁,active₁⟩
    cases Option.some.inj (found'.symm.trans found₁)
    rcases Nat.eq_zero_or_pos (h.countP fun m => cancels k m.writes) with none | some
    · exact none
    · rw [closed some] at active₁; contradiction
  · intro none
    exact ⟨row',found',by rw [same none]; exact active⟩

theorem onceIffActive (start : Open k d) (path : Path (allowed seen requests) d t h) :
    h.countP (fun m => cancels k m.writes) ≤ 1 ↔ ActiveAtCommit k h := by
  induction path with
  | start => exact iff_of_true (Nat.zero_le 1) nofun
  | @commit c h rest before ran clock effect ih =>
    have still := openUntil start rest
    have split : ActiveAtCommit k (c :: h) ↔
        (cancels k c.writes = true → Open k c.before) ∧ ActiveAtCommit k h := by simp [ActiveAtCommit]
    rw [split,before,still,← ih,List.countP_cons]
    cases now : cancels k c.writes with
    | true => simp only [if_true,forall_const]; omega
    | false => simp

theorem tellerCancels (path : Path (allowed seen requests) d t h) {c : Commit} (mem : c ∈ h)
    (tell : tells k c.writes = true) : requests c.client = some (.cancelReservation k) ∧
      ∃ m ∈ h, m.client = c.client ∧ cancels k m.writes = true := by
  obtain ⟨rest,path,sub⟩ := Program.pathUpTo path mem
  cases path with
  | commit path _ _ _ effect =>
    obtain ⟨r,sent,e⟩ := effect
    obtain ⟨main,n,own,about,told⟩ := telling e tell
    obtain ⟨inside,client,_,_,first⟩ := firstEffect (l := []) path own sent
    obtain rfl := announcedCancel first about told
    exact ⟨sent,main,sub main (List.mem_cons_of_mem _ inside),client,mainCancels first⟩

theorem cancellerTells (path : Path (allowed seen requests) d t h) {j : Nat} {n m : Commit}
    (sent : requests j = some (.cancelReservation k)) (own : mine j h = [n,m]) :
    m ∈ h ∧ m.client = j ∧ cancels k m.writes = true ∧ tells k m.writes = false ∧
      tells k n.writes = true := by
  obtain ⟨inside,client,_,_,first⟩ := firstEffect (l := [n]) path own sent
  obtain ⟨_,e⟩ := latestEffect path own sent
  obtain ⟨main,note,same,writes,about⟩ := secondEffect e nofun
  cases same
  refine ⟨inside,client,mainCancels first,mainSilent first,?_⟩
  rw [writes]
  simpa [tells] using cancelAnnounced first about

theorem cancelledForGood {later earlier : Log} {m : Commit} (start : Open k d)
    (path : Path (allowed seen requests) d t (later ++ m :: earlier))
    (once : (later ++ m :: earlier).countP (fun m => cancels k m.writes) ≤ 1)
    (closing : cancels k m.writes = true) :
    (∀ m' ∈ later, m'.after.reservations.find k = m.after.reservations.find k) ∧
      (stateAfter d (later ++ m :: earlier)).reservations.find k = m.after.reservations.find k := by
  induction later with
  | nil => exact ⟨nofun,rfl⟩
  | cons c later ih =>
    cases path with
    | commit rest before ran clock effect =>
      replace rest : Path (allowed seen requests) d t (later ++ m :: earlier) := rest
      replace before : c.before = stateAfter d (later ++ m :: earlier) := before
      rw [List.cons_append,List.countP_cons] at once
      obtain ⟨old,last⟩ := ih rest (Nat.le_of_add_right_le once)
      obtain ⟨r,_,e⟩ := effect
      have here : 0 < (later ++ m :: earlier).countP (fun m => cancels k m.writes) :=
        List.countP_pos_iff.mpr ⟨m,by simp,closing⟩
      have quiet : cancels k c.writes = false := by
        by_contra again
        simp only [Bool.not_eq_false] at again
        simp only [again,if_true] at once
        omega
      obtain ⟨_,found,_⟩ := start
      obtain ⟨row,found,_⟩ := pathRow found rest
      obtain ⟨row',found',kept,_⟩ := reservationStep e ran (before ▸ found)
      have same : c.after.reservations.find k = m.after.reservations.find k := by
        rw [← last,found,found',kept quiet]
      refine ⟨fun m' mem => ?_,same⟩
      rcases List.mem_cons.mp mem with rfl | inside
      · exact same
      · exact old m' inside

theorem toldPath (path : Path (allowed seen requests) d t h) :
    told (stateAfter d h) k = told d k + h.countP (fun m => tells k m.writes) := by
  induction path with
  | start => rfl
  | @commit c h rest before ran clock effect ih =>
    obtain ⟨r,_,e⟩ := effect
    show told c.after k = _
    rw [toldRan e ran,before,ih,List.countP_cons,Nat.add_assoc]

end Paths

section Exits
variable {j : Nat} {A : Answer → Prop} {k : String}

theorem cancelRule {I : Database → Prop} {raises : ApiError → Prop}
    (stored : ∀ d, I d → ∃ row, d.reservations.find k = some row ∧ (row.status ≠ .active → raises onlyActive))
    (w : World) : wp (seeing j I A) (fun _ _ _ => True) (fun e _ => raises e)
      (handle (.cancelReservation k)) [] w := by
  unfold handle answer ReservationService.cancelReservation ReservationService.cancelLoaded ReservationRepository.update
  simp only [Program.bindBind]
  refine findRule (fun w₁ here none => ?_) fun w₁ row here found => ?_
  · obtain ⟨row,found,_⟩ := stored _ here
    cases none.symm.trans found
  obtain ⟨row',found',refused⟩ := stored _ here
  cases Option.some.inj (found.symm.trans found')
  refine refuseRule refused fun _ => ?_
  have rest : Raises (fun _ => raises) 0 [] (do
      let cancelledAt ← Program.now
      Program.write (.updateReservation row (ReservationService.cancelled row cancelledAt))
      Program.commit
      let updated ← Program.select fun d : Database =>
        (d.reservations.find row.id.text).getD (ReservationService.cancelled row cancelledAt)
      let occurredAt ← Program.now
      NotificationHandlers.publish
        (.reservationCancelled occurredAt updated.id updated.userId updated.bookId)
      pure (Response.reservationCancelled ⟨updated.id,updated.status,updated.cancelledAt⟩) : Service Response) := by
    refine fun now => (raisesSure fun d => ⟨_,rfl⟩).mpr ?_
    simp [raisesPublish]
  exact Program.wpRaises (fun _ _ => trivial) rest

end Exits

section Pools
variable {requests : Nat → Option Request} {d : Database} {x : Cache} {t : Int} {moves : Moves} {k : String}

theorem refusedWith (start : Open k d) {j : Nat} {e : ApiError}
    (sent : requests j = some (.cancelReservation k))
    (failed : ((begin (settled d x t) requests).run moves).pool j = some (.finished (.error e))) :
    e = onlyActive := by
  have path : PoolPath requests d t ((begin (settled d x t) requests).run moves).world.history :=
    (poolPath d x t moves).1
  obtain ⟨row,found,_⟩ := start
  refine poolRaises (I := fun d => ∃ row, d.reservations.find k = some row) (R := (· = onlyActive))
    (cancelRule fun d ⟨row,found⟩ => ⟨row,found,fun _ => rfl⟩) sent ⟨row,found⟩ (fun m mem => ?_) failed
  obtain ⟨rest,path,_⟩ := Program.pathUpTo path mem
  obtain ⟨row',found',_⟩ := pathRow found path
  exact ⟨row',found'⟩

theorem openNotRefused (start : Open k d) {j : Nat} {e : ApiError}
    (sent : requests j = some (.cancelReservation k)) :
    let s := (begin (settled d x t) requests).run moves
    s.world.history.countP (fun m => cancels k m.writes) = 0 →
      s.pool j ≠ some (.finished (.error e)) := by
  intro s none failed
  obtain ⟨path,_⟩ : PoolPath requests d t s.world.history ∧ _ := poolPath d x t moves
  refine poolRaises (I := Open k) (R := fun _ => False)
    (cancelRule fun d ⟨row,found,active⟩ => ⟨row,found,fun away => away active⟩) sent start
    (fun m mem => ?_) failed
  obtain ⟨rest,path,sub⟩ := Program.pathUpTo path mem
  refine (openUntil start path).mpr (List.countP_eq_zero.mpr fun c inside => ?_)
  exact List.countP_eq_zero.mp none c (sub c inside)

theorem cancelledBy {admits : Answer → Prop} {G : Database → Database → Prop} {s : State}
    (good : PoolGood requests admits G d t s) {j : Nat} (sent : requests j = some (.cancelReservation k))
    (done : succeeded s j = true) : ∃ n m, mine j s.world.history = [n,m] ∧ m ∈ s.world.history ∧
      m.client = j ∧ cancels k m.writes = true ∧ tells k m.writes = false ∧ tells k n.writes = true := by
  obtain ⟨_,completed⟩ := succeededCompleted good sent done
  obtain ⟨n,m,own⟩ := List.length_eq_two.mp completed.length
  exact ⟨n,m,own,cancellerTells good.path sent own⟩

theorem toldOnce {seen : Log → Int → Seen} {h : Log} (path : Path (allowed seen requests) d t h)
    (once : h.countP (fun m => cancels k m.writes) ≤ 1) {j : Nat} {n m : Commit}
    (own : mine j h = [n,m]) (inside : m ∈ h) (client : m.client = j)
    (closing : cancels k m.writes = true) (quiet : tells k m.writes = false)
    (telling : tells k n.writes = true) : h.countP (fun c => tells k c.writes) = 1 := by
  have counted : (mine j h).countP (fun c => tells k c.writes) = 1 := by
    rw [own]; simp [quiet,telling]
  rw [mine,List.countP_filter] at counted
  rw [← counted]
  refine List.countP_congr fun c mem => ?_
  simp only [Bool.and_eq_true,beq_iff_eq]
  refine ⟨fun tell => ⟨tell,?_⟩,fun tell => tell.1⟩
  obtain ⟨_,m',mem',client',closing'⟩ := tellerCancels path mem tell
  rw [← client',countedSame once mem' inside closing' closing,client]

theorem someSucceeds (start : Open k d) :
    let s := (begin (settled d x t) requests).run moves
    (∃ j, requests j = some (.cancelReservation k)) →
    (∀ j, requests j = some (.cancelReservation k) → finished s j) →
    ∃ j, requests j = some (.cancelReservation k) ∧ succeeded s j = true := by
  intro s ⟨j,sent⟩ ended
  have good : PoolGood requests (fun _ => True) (fun _ _ => True) d t s := poolGood d x t moves fun _ _ => trivial
  have answered {i : Nat} (sent : requests i = some (.cancelReservation k))
      (never : ∀ e, s.pool i ≠ some (.finished (.error e))) : succeeded s i = true := by
    obtain ⟨result,found⟩ := ended i sent
    cases result with
    | ok a => unfold succeeded; rw [found]
    | error e => exact absurd found (never e)
  rcases Nat.eq_zero_or_pos (s.world.history.countP fun m => cancels k m.writes) with none | some
  · exact ⟨j,sent,answered sent fun e => openNotRefused start sent none⟩
  · obtain ⟨c,mem,closing⟩ := List.countP_pos_iff.mp some
    have own : c ∈ mine c.client s.world.history := List.mem_filter.mpr ⟨mem,by simp⟩
    obtain ⟨rest,path,_⟩ := Program.pathUpTo good.path mem
    cases path with
    | commit _ _ _ _ effect =>
      obtain ⟨r,sent',e⟩ := effect
      obtain ⟨rfl,_⟩ := cancelling e closing
      refine ⟨c.client,sent',answered sent' fun e failed => ?_⟩
      obtain rfl := refusedWith start sent' failed
      rcases good.threads c.client _ failed with nothing | ⟨down,_⟩
      · replace nothing : mine c.client s.world.history = [] := nothing
        rw [nothing] at own; contradiction
      · contradiction

end Pools

/-- Whatever else is running, the reservation is cancelled once, by one request, and
told once exactly if every cancellation is committed on an ACTIVE row. -/
theorem cancelsOnceIffActive (d : Database) (x : Cache) (t : Int) (requests : Nat → Option Request)
    (moves : Moves) (k : String) (start : Open k d) (untold : told d k = 0) :
    let s := (begin (settled d x t) requests).run moves
    CancelsOnce requests k s ↔ ActiveAtCommit k s.world.history := by
  intro s
  have good : PoolGood requests (fun _ => True) (fun _ _ => True) d t s := poolGood d x t moves fun _ _ => trivial
  have path : PoolPath requests d t s.world.history := good.path
  rw [← onceIffActive start path]
  refine ⟨fun h => h.once,fun once => ⟨fun i j sentI sentJ doneI doneJ => ?_,
    fun j e sent failed => refusedWith start sent failed,once,fun later m earlier grown closing => ?_,
    fun some ended => ?_⟩⟩
  · obtain ⟨_,a,_,memA,clientA,closesA,_⟩ := cancelledBy good sentI doneI
    obtain ⟨_,b,_,memB,clientB,closesB,_⟩ := cancelledBy good sentJ doneJ
    rw [← clientA,← clientB,countedSame once memA memB closesA closesB]
  · exact (cancelledForGood start (grown ▸ path) (grown ▸ once) closing).1
  · obtain ⟨j,sent,done⟩ := someSucceeds start some ended
    obtain ⟨n,m,own,inside,client,closing,quiet,telling⟩ := cancelledBy good sent done
    refine ⟨⟨j,sent,done⟩,?_⟩
    rw [good.root.db,toldPath path,untold,toldOnce path once own inside client closing quiet telling]

instance (k : String) (d : Database) : Decidable (Open k d) :=
  decidable_of_iff ((d.reservations.find k).any (fun row => row.status == .active) = true) (by
    unfold Open
    cases d.reservations.find k <;> simp)

instance (k : String) (h : Log) : Decidable (ActiveAtCommit k h) := by
  unfold ActiveAtCommit; infer_instance

def reservedOnce : Database :=
  (serve 0 (.createReservation (sampleId 3).text (sampleId 2).text) (settled (sampleShelf 0) [] 0)
    fun _ => tick 4).2.db

def twoCancel (j : Nat) : Option Request :=
  if j < 2 then some (.cancelReservation (sampleId 4).text) else none

def later (n : Nat) : Program.Env Answer := {tick n with elapsed := 1000000}

def cancelledInOrder : Moves := List.replicate 20 (0,later 5) ++ List.replicate 20 (1,later 6)

def cancelledInTurns : Moves := (List.replicate 20 [(0,later 5),(1,later 6)]).flatten

theorem cancelledInOrderOnce :
    CancelsOnce twoCancel (sampleId 4).text
      ((begin (settled reservedOnce [] 0) twoCancel).run cancelledInOrder) :=
  (cancelsOnceIffActive reservedOnce [] 0 twoCancel cancelledInOrder (sampleId 4).text
    (by decide +kernel) (by decide +kernel)).mpr (by decide +kernel)

theorem cancelledTwice : let s := (begin (settled reservedOnce [] 0) twoCancel).run cancelledInTurns
    Open (sampleId 4).text reservedOnce ∧ told reservedOnce (sampleId 4).text = 0 ∧
      (∀ j < 2, succeeded s j = true) ∧ told s.world.db (sampleId 4).text = 2 ∧
      (s.world.history.map fun m => (m.after.reservations.find (sampleId 4).text).bind fun row =>
        row.cancelledAt).dedup.length = 2 ∧
      ¬ CancelsOnce twoCancel (sampleId 4).text s := by
  refine ⟨by decide +kernel,by decide +kernel,by decide +kernel,by decide +kernel,by decide +kernel,
    fun once => ?_⟩
  exact absurd once.once (by decide +kernel)

end LibraryApi.ReservationCancelling
