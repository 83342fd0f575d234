import LibraryApi.RelyRules
import LibraryApi.ReservationHistory
import LibraryApi.ServiceExits

/-! One ACTIVE reservation for each user and book, under concurrent requests.
`create_reservation` looks for one in a plain SELECT before it inserts its own,
and no constraint of the table repeats the check: the bound holds exactly as long
as every reservation is committed while there is none. -/
namespace LibraryApi.ReservationRaces
open Models CacheService KeyedTable Repositories Requests Effects Runs CommittedRows ReservationHistory
open ReservationRepository (findActiveByUserAndBook)
open ServiceExits ServiceRules
open Program (execAll Path stateAfter Raises wp wpBind wpMono seeing)

def Single (d : Database) : Prop := ∀ user book, (findActiveByUserAndBook d user book).length ≤ 1

def reserves (user book : String) (writes : List Write) : Bool := writes.any fun
  | .insertReservation r => r.userId.text == user && r.bookId.text == book
  | _ => false

/-- Every reservation is committed while its user has no ACTIVE one for its book. -/
def UnreservedAtCommit (h : Log) : Prop := ∀ m ∈ h, ∀ user book, reserves user book m.writes = true →
  findActiveByUserAndBook m.before user book = []

def unreserved (d : Database) : Write → Bool
  | .insertReservation r => (findActiveByUserAndBook d r.userId.text r.bookId.text).isEmpty
  | _ => true

instance (h : Log) : Decidable (UnreservedAtCommit h) :=
  decidable_of_iff (∀ m ∈ h, ∀ x ∈ m.writes, unreserved m.before x = true) (by
    refine forall₂_congr fun m _ => ⟨fun each user book new => ?_,fun each x mem => ?_⟩
    · obtain ⟨x,mem,hit⟩ := List.any_eq_true.mp new
      have free := each x mem
      cases x <;> simp at hit
      obtain ⟨rfl,rfl⟩ := hit
      exact List.isEmpty_iff.mp free
    · cases x with
      | insertReservation r =>
        exact List.isEmpty_iff.mpr (each _ _ (List.any_eq_true.mpr ⟨_,mem,by simp⟩))
      | _ => rfl)

section Steps
variable {seen : Seen} {own : Log} {before after : Database} {r : Request} {writes : List Write}

theorem storedCount {rows : Reservations} {l c : ReservationModel} {p : ReservationModel → Bool}
    (gone : ∀ stored, p (l.flush c stored) = false) : (storeReservation rows l c).count p ≤ rows.count p := by
  unfold storeReservation
  cases found : rows.find l.id.text with
  | none =>
    have same : (rows.modify l.id.text (l.flush c) (reservationKey l c)).count p = rows.count p :=
      Table.countModifyAbsent found p
    exact Nat.le_of_eq same
  | some stored =>
    have changed := Table.countModify (f := l.flush c) (g := reservationKey l c) found p
    rw [gone stored] at changed
    simp only [Bool.false_eq_true,if_false] at changed
    omega

theorem activeStep (user book : String) (e : Effect seen own before r writes)
    (ran : execAll writes before = .ok after) :
    (reserves user book writes = true → (findActiveByUserAndBook after user book).length =
      (findActiveByUserAndBook before user book).length + 1) ∧
    (reserves user book writes = false → (findActiveByUserAndBook after user book).length ≤
      (findActiveByUserAndBook before user book).length) := by
  have change := reservationsChanged e ran
  unfold findActiveByUserAndBook
  simp only [← List.countP_eq_length_filter]
  let p (r : ReservationModel) : Bool :=
    r.userId.text == user && r.bookId.text == book && r.status == .active
  show (_ → after.reservations.count p = before.reservations.count p + 1) ∧
    (_ → after.reservations.count p ≤ before.reservations.count p)
  generalize after.reservations = rows' at change ⊢
  cases change with
  | same others =>
    refine ⟨fun new => ?_,fun _ => Nat.le_refl _⟩
    obtain ⟨x,mem,hit⟩ := List.any_eq_true.mp new
    have away := others x mem
    cases x <;> simp [aside] at away hit
  | @opened bookId userId u b id createdAt _ _ added =>
    have counted := Table.countInsert added p
    have mine : p (ReservationService.newReservation id u b createdAt) =
        (u.id.text == user && b.id.text == book) := by
      simp [p,ReservationService.newReservation]
    rw [mine] at counted
    simp only [reserves,ReservationService.newReservation,List.any_cons,List.any_nil,Bool.or_false]
    constructor <;> intro hit <;> simp only [hit] at counted <;> simp [counted]
  | @closed k loaded now _ _ _ active =>
    refine ⟨fun new => by simp [reserves] at new,fun _ => ?_⟩
    exact storedCount fun stored => by simp [p,closedStatus active]

theorem lookedUp (real : ∀ P, seen P → ∃ d t, P d t) {user book : String} (e : Effect seen own before r writes)
    (new : reserves user book writes = true) : own = [] ∧ seen fun d _ => findActiveByUserAndBook d user book = [] := by
  cases e with
  | @createReservation bookId userId u b author id createdAt first reader visible _ single =>
    obtain ⟨_,_,row⟩ := real _ reader
    obtain ⟨_,_,shown⟩ := real _ visible
    have reading : u.id.text = userId := (Table.findSound (Option.filter_eq_some_iff.mp row).1).2
    have shelved : b.id.text = bookId := (Table.findSound (visibleBook shown).1).2
    obtain ⟨rfl,rfl⟩ : u.id.text = user ∧ b.id.text = book := by simpa [reserves,ReservationService.newReservation] using new
    rw [reading,shelved]
    exact ⟨first,single⟩
  | deleteAuthor => simp [reserves,AuthorRepository.deactivate] at new
  | _ => simp [reserves] at new

end Steps

section Paths
variable {seen : Log → Int → Seen} {requests : Nat → Option Request} {d : Database} {t : Int} {h : Log}

theorem pathSingle (start : Single d) (path : Path (allowed seen requests) d t h) :
    ((∀ m ∈ h, Single m.after) ↔ UnreservedAtCommit h) ∧ (UnreservedAtCommit h → Single (stateAfter d h)) := by
  refine Program.pathIff start (fun {h m} path single => ?_) path
  cases path with
  | commit rest before ran clock effect =>
    obtain ⟨r,_,e⟩ := effect
    have step (user book : String) := activeStep user book e ran
    refine ⟨fun now user book new => ?_,fun free user book => ?_⟩
    · have := now user book
      have := (step user book).1 new
      exact List.length_eq_zero_iff.mp (by omega)
    · cases new : reserves user book m.writes with
      | true =>
        have grown := (step user book).1 new
        rw [free user book new] at grown
        exact Nat.le_of_eq grown
      | false => exact Nat.le_trans ((step user book).2 new) (single user book)

theorem unreservedSince {m : Commit} {later : Log} (path : PoolPath requests d t (later ++ m :: h)) {user book : String}
    (new : reserves user book m.writes = true) : ∃ since looked, h = since ++ looked ∧
      (∀ c ∈ since, c.client ≠ m.client) ∧ findActiveByUserAndBook (stateAfter d looked) user book = [] ∧
      ((∀ c ∈ since, reserves user book c.writes = false) → findActiveByUserAndBook m.before user book = []) := by
  cases path.suffix with
  | commit rest before ran clock allowed =>
    obtain ⟨r,sent,e⟩ := allowed
    obtain ⟨first,none⟩ := lookedUp (fun P ⟨_,_,_,_,_,_,held⟩ => ⟨_,_,held⟩) e new
    obtain ⟨since,looked,_,rfl,others,free⟩ := Program.seenSince first none
    refine ⟨since,looked,rfl,others,free,fun calm => ?_⟩
    have fewer := Program.pathSince
      (R := fun d d' => (findActiveByUserAndBook d' user book).length ≤ (findActiveByUserAndBook d user book).length)
      (fun _ => Nat.le_refl _) (fun left right => Nat.le_trans right left)
      (fun path calm => by
        cases path with
        | commit _ _ ran _ allowed =>
          obtain ⟨_,_,e⟩ := allowed
          exact (activeStep user book e ran).2 calm) rest calm
    rw [free] at fewer
    rw [before]
    exact List.length_eq_zero_iff.mp (Nat.le_zero.mp fewer)

end Paths

section Lookup
variable {j : Nat} {A : Answer → Prop} {w : World}

def ofReservations : Request → Bool
  | .createReservation _ _ => true
  | .cancelReservation _ => true
  | _ => false

theorem findsSingle {r : Request} (reserving : ofReservations r = true) :
    wp (seeing j Single A) (fun _ _ _ => True) (fun e _ => e ≠ .multipleResultsFound) (handle r) [] w := by
  cases r with
  | createReservation bookId userId =>
    unfold handle answer ReservationService.createReservation
    simp only [Program.bindBind]
    refine findRule (fun _ _ _ => by simp) fun w₁ user _ _ => ?_
    refine findRule (fun _ _ _ => by simp) fun w₂ shown _ _ => ?_
    obtain ⟨book,author⟩ := shown
    refine refuseRule (fun _ => by simp) fun _ => wpBind.mpr fun w₃ single => ?_
    rw [Program.viewNil]
    refine Program.wpRaises (fun _ _ => trivial) (n := 0) (raisesUnique (single userId bookId) fun existing => ?_)
    simp [raisesPublish]
  | cancelReservation reservationId =>
    refine Program.wpRaises (fun _ _ => trivial) (n := 0) ?_
    unfold handle answer ReservationService.cancelReservation ReservationService.cancelLoaded ReservationRepository.update
    simp [raisesPublish]
  | _ => contradiction

end Lookup

/-- Whatever else is running, nobody has two ACTIVE reservations for a book in any
committed state exactly if every reservation is committed while there is none;
then no request of the reservation service finds two. -/
theorem singleIffUnreserved (d : Database) (x : Cache) (t : Int) (requests : Nat → Option Request)
    (moves : Moves) (start : Single d) :
    let s := (begin (settled d x t) requests).run moves
    ((Single s.world.db ∧ ∀ m ∈ s.world.history, Single m.after) ↔ UnreservedAtCommit s.world.history) ∧
      (UnreservedAtCommit s.world.history → ∀ j r, requests j = some r → ofReservations r = true →
        s.pool j ≠ some (.finished (.error .multipleResultsFound))) := by
  intro s
  obtain ⟨path,last⟩ : PoolPath requests d t s.world.history ∧ _ := poolPath d x t moves
  obtain ⟨every,final⟩ := pathSingle start path
  refine ⟨?_,fun free j r sent reserving failed => ?_⟩
  · rw [last]
    exact ⟨fun h => every.mp h.2,fun h => ⟨final h,every.mpr h⟩⟩
  · have other : ApiError.multipleResultsFound ≠ .multipleResultsFound :=
      poolRaises (R := fun e => e ≠ .multipleResultsFound) (fun w => findsSingle reserving) sent
        start (every.mpr free) failed
    exact other rfl

def waiting (j : Nat) : Option Request :=
  if j < 3 then some (.createReservation (sampleId 3).text (sampleId 2).text) else none

def reservedInTurns : Moves :=
  (List.replicate 20 [(0,tick 4),(1,tick 5)]).flatten ++ List.replicate 20 (2,tick 6)

def reservedInOrder : Moves :=
  List.replicate 20 (0,tick 4) ++ List.replicate 20 (1,tick 5) ++ List.replicate 20 (2,tick 6)

theorem shelfSingle (copies : Int) : Single (sampleShelf copies) := fun _ _ => Nat.zero_le 1

theorem waitingInOrder :
    UnreservedAtCommit ((begin (settled (sampleShelf 0) [] 0) waiting).run reservedInOrder).world.history ∧
      Single ((begin (settled (sampleShelf 0) [] 0) waiting).run reservedInOrder).world.db := by
  have free : UnreservedAtCommit
      ((begin (settled (sampleShelf 0) [] 0) waiting).run reservedInOrder).world.history := by decide +kernel
  have kept := (singleIffUnreserved (sampleShelf 0) [] 0 waiting reservedInOrder (shelfSingle 0)).1
  exact ⟨free,(kept.mpr free).1⟩

def failedWith (s : State) (j : Nat) : Option ApiError := match s.pool j with
  | some (.finished (.error e)) => some e
  | _ => none

theorem twoReservationsAtOnce :
    let s := (begin (settled (sampleShelf 0) [] 0) waiting).run reservedInTurns
    Single (sampleShelf 0) ∧ succeeded s 0 = true ∧ succeeded s 1 = true ∧ ¬ Single s.world.db ∧
      failedWith s 2 = some .multipleResultsFound :=
  ⟨shelfSingle 0,by decide +kernel,by decide +kernel,
    fun h => absurd (h (sampleId 2).text (sampleId 3).text) (by decide +kernel),by decide +kernel⟩

end LibraryApi.ReservationRaces
