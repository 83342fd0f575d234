import LibraryApi.CommittedRows

/-! The quota of ACTIVE loans under concurrent requests. `create_loan` counts the
loans of its user before it locks anything, and then locks only the book: the
quota holds exactly as long as every loan is committed on a count still below it. -/
namespace LibraryApi.QuotaRaces
open Models CacheService KeyedTable Repositories Requests Effects Runs CommittedRows
open LoanRepository (countActiveByUser)
open LoanService (maxActiveLoans)
open Program (execAll Path stateAfter)

def WithinQuota (d : Database) : Prop := ∀ user, countActiveByUser d user ≤ maxActiveLoans

def borrows (user : String) (writes : List Write) : Bool := writes.any fun
  | .insertLoan l => l.userId.text == user
  | _ => false

/-- Every loan is committed while its user is still below the limit. -/
def CountedAtCommit (h : Log) : Prop := ∀ m ∈ h, ∀ user, borrows user m.writes = true →
  countActiveByUser m.before user < maxActiveLoans

def below (d : Database) : Write → Bool
  | .insertLoan l => decide (countActiveByUser d l.userId.text < maxActiveLoans)
  | _ => true

instance (h : Log) : Decidable (CountedAtCommit h) :=
  decidable_of_iff (∀ m ∈ h, ∀ x ∈ m.writes, below m.before x = true) (by
    refine forall₂_congr fun m _ => ⟨fun each user opened => ?_,fun each x mem => ?_⟩
    · obtain ⟨x,mem,hit⟩ := List.any_eq_true.mp opened
      have under := each x mem
      cases x <;> simp at hit
      obtain rfl := hit
      exact of_decide_eq_true under
    · cases x with
      | insertLoan l => exact decide_eq_true (each _ (List.any_eq_true.mpr ⟨_,mem,by simp⟩))
      | _ => rfl)

section Steps
variable {seen : Seen} {own : Log} {before after : Database} {r : Request} {writes : List Write}
  {user : String}

theorem closedQuota {d : Database} {l c : LoanModel} (found : d.loans.find l.id.text = some l)
    (same : c.id = l.id) (closed : c.status ≠ .active) :
    (storeLoan d.loans l c).count (fun l => l.userId.text == user && l.status == .active) ≤
      countActiveByUser d user := by
  have changed := storedCount found same fun l => l.userId.text == user && l.status == .active
  have none : (c.userId.text == user && c.status == .active) = false := by simp [closed]
  unfold countActiveByUser
  simp only [none,Bool.false_eq_true,if_false] at changed
  omega

theorem quotaStep (user : String) (e : Effect seen own before r writes) (ran : execAll writes before = .ok after)
    (desk : atDesk r = true) :
    (borrows user writes = true → countActiveByUser after user = countActiveByUser before user + 1) ∧
      (borrows user writes = false → countActiveByUser after user ≤ countActiveByUser before user) := by
  cases e with
  | @createLoan data reader book id now createdAt =>
    obtain ⟨loans,added,rfl⟩ := ranLend ran
    have counted := Table.countInsert added fun l => l.userId.text == user && l.status == .active
    simp only [LoanService.newLoan,beq_self_eq_true,Bool.and_true] at counted
    unfold countActiveByUser
    simp only [borrows,LoanService.newLoan,List.any_cons,List.any_nil,Bool.or_false,Bool.false_or]
    constructor <;> intro mine <;> simp only [mine] at counted <;> simp [counted]
  | @returnLoan loanId loan book now _ found =>
    obtain rfl := (Table.findSound found).2
    obtain rfl := ranClose ran
    exact ⟨fun own => by simp [borrows] at own,
      fun _ => closedQuota found (c := LoanService.returned loan now) rfl nofun⟩
  | @cancelLoan loanId loan book now _ found =>
    obtain rfl := (Table.findSound found).2
    obtain rfl := ranClose ran
    exact ⟨fun own => by simp [borrows] at own,
      fun _ => closedQuota found (c := LoanService.cancelled loan now) rfl nofun⟩
  | notify =>
    unfold countActiveByUser
    rw [(elsewhereRan rfl (ranOne ran)).2]
    exact ⟨fun own => by simp [borrows] at own,fun _ => Nat.le_refl _⟩
  | _ => contradiction

theorem countedLoan (real : ∀ P, seen P → ∃ d t, P d t) (e : Effect seen own before r writes)
    (opened : borrows user writes = true) : own = [] ∧ seen fun d _ => countActiveByUser d user < maxActiveLoans := by
  cases e with
  | @createLoan data reader book id now createdAt first found counted =>
    obtain ⟨d,_,row⟩ := real _ found
    have key : reader.id.text = data.userId := (Table.findSound (Option.filter_eq_some_iff.mp row).1).2
    have same : reader.id.text = user := by simpa [borrows,LoanService.newLoan] using opened
    rw [← same,key]
    exact ⟨first,counted⟩
  | deleteAuthor => simp [borrows,AuthorRepository.deactivate] at opened
  | _ => simp [borrows] at opened

end Steps

section Paths
variable {seen : Log → Int → Seen} {requests : Nat → Option Request} {d : Database} {t : Int} {h : Log}

theorem pathQuota (only : ∀ j r, requests j = some r → atDesk r = true)
    (start : WithinQuota d) (path : Path (allowed seen requests) d t h) :
    ((∀ m ∈ h, WithinQuota m.after) ↔ CountedAtCommit h) ∧
      (CountedAtCommit h → WithinQuota (stateAfter d h)) := by
  refine Program.pathIff start (fun {h m} path within => ?_) path
  cases path with
  | commit rest before ran clock effect =>
    obtain ⟨r,sent,e⟩ := effect
    have step (user : String) := quotaStep user e ran (only _ r sent)
    refine ⟨fun now user opened => ?_,fun counted user => ?_⟩
    · have := now user
      have := (step user).1 opened
      omega
    · have := within user
      cases opened : borrows user m.writes with
      | true =>
        have := (step user).1 opened
        have := counted user opened
        omega
      | false =>
        have := (step user).2 opened
        omega

theorem countedSince (only : ∀ j r, requests j = some r → atDesk r = true) {m : Commit} {later : Log}
    (path : PoolPath requests d t (later ++ m :: h)) {user : String} (opened : borrows user m.writes = true) :
    ∃ since looked, h = since ++ looked ∧ (∀ c ∈ since, c.client ≠ m.client) ∧
      countActiveByUser (stateAfter d looked) user < maxActiveLoans ∧
      ((∀ c ∈ since, borrows user c.writes = false) → countActiveByUser m.before user < maxActiveLoans) := by
  cases path.suffix with
  | commit rest before ran clock allowed =>
    obtain ⟨r,sent,e⟩ := allowed
    obtain ⟨first,counted⟩ := countedLoan (fun P ⟨_,_,_,_,_,_,held⟩ => ⟨_,_,held⟩) e opened
    obtain ⟨since,looked,_,rfl,others,below⟩ := Program.seenSince first counted
    refine ⟨since,looked,rfl,others,below,fun none => ?_⟩
    have fewer := Program.pathSince (R := fun d d' => countActiveByUser d' user ≤ countActiveByUser d user)
      (fun _ => Nat.le_refl _) (fun left right => Nat.le_trans right left)
      (fun path calm => by
        cases path with
        | commit _ _ ran _ allowed =>
          obtain ⟨r,sent,e⟩ := allowed
          exact (quotaStep user e ran (only _ r sent)).2 calm) rest none
    rw [before]
    exact Nat.lt_of_le_of_lt fewer below

end Paths

/-- The quota holds in every committed state of a pool exactly if every loan was
committed on a count below it. -/
theorem quotaKeptIffCounted (d : Database) (x : Cache) (t : Int) (requests : Nat → Option Request)
    (moves : Moves) (only : ∀ j r, requests j = some r → atDesk r = true)
    (start : WithinQuota d) :
    let s := (begin (settled d x t) requests).run moves
    (WithinQuota s.world.db ∧ ∀ m ∈ s.world.history, WithinQuota m.after) ↔
      CountedAtCommit s.world.history := by
  intro s
  obtain ⟨path,last⟩ : PoolPath requests d t s.world.history ∧ _ := poolPath d x t moves
  obtain ⟨every,final⟩ := pathQuota only start path
  rw [last]
  exact ⟨fun h => every.mp h.2,fun h => ⟨final h,every.mpr h⟩⟩

def fourAtOnce (j : Nat) : Option Request :=
  if j < 4 then some (.createLoan ⟨(sampleId 2).text,(sampleId 3).text⟩) else none

def countedFirst : Moves :=
  [(0,tick 4),(0,tick 4),(1,tick 5),(1,tick 5),(2,tick 6),(2,tick 6),(3,tick 7),(3,tick 7)] ++
    List.replicate 40 (0,tick 4) ++ List.replicate 40 (1,tick 5) ++
    List.replicate 40 (2,tick 6) ++ List.replicate 40 (3,tick 7)

theorem shelfWithin (copies : Int) : WithinQuota (sampleShelf copies) := fun _ => Nat.zero_le _

theorem fourAtDesk : ∀ j r, fourAtOnce j = some r → atDesk r = true := by
  intro j r sent
  unfold fourAtOnce at sent
  split at sent <;> cases sent
  rfl

def twoCountedFirst : Moves :=
  [(0,tick 4),(0,tick 4),(1,tick 5),(1,tick 5)] ++ List.replicate 40 (0,tick 4) ++ List.replicate 40 (1,tick 5) ++
    List.replicate 40 (2,tick 6) ++ List.replicate 40 (3,tick 7)

theorem fourInTurnsWithin :
    let s := (begin (settled (sampleShelf 4) [] 0) fourAtOnce).run twoCountedFirst
    CountedAtCommit s.world.history ∧ WithinQuota s.world.db ∧ (∀ j < 3, succeeded s j = true) ∧ succeeded s 3 = false := by
  have counted : CountedAtCommit ((begin (settled (sampleShelf 4) [] 0) fourAtOnce).run twoCountedFirst).world.history := by
    decide +kernel
  have within := (quotaKeptIffCounted (sampleShelf 4) [] 0 fourAtOnce twoCountedFirst fourAtDesk (shelfWithin 4)).mpr counted
  exact ⟨counted,within.1,by decide +kernel,by decide +kernel⟩

theorem fourLoansAtOnce :
    let s := (begin (settled (sampleShelf 4) [] 0) fourAtOnce).run countedFirst
    WithinQuota (sampleShelf 4) ∧ (∀ j < 4, succeeded s j = true) ∧ ¬ WithinQuota s.world.db :=
  ⟨shelfWithin 4,by decide +kernel,fun h => absurd (h (sampleId 2).text) (by decide +kernel)⟩

end LibraryApi.QuotaRaces
