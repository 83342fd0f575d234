import LibraryApi.Listings
import LibraryApi.ServiceExits
import LibraryApi.StockInvariant

/-! The availability filter of the book listing. It asks for more than no copy or for
exactly none, the loan desk for more than none: the three agree as long as the counter of no
visible book is negative, and only a book entered with a negative number of copies makes it so. -/
namespace LibraryApi.AvailabilityFilter
open Models CacheService KeyedTable Repositories Requests Effects Runs CommittedRows StockInvariant
open Repositories.BookRepository (Filters selects withAuthors)
open Listings.BookRepository (shown)
open ServiceRules (findRule refuseRule)
open Program (wpBind lone loneEnded stateAfter execAll)

def unavailable : ApiError := .businessRule "Livro indisponível"

structure Splits (lower : Char → Char) (d : Database) : Prop where
  disjoint : ∀ (f : Filters) row, row ∈ shown lower {f with available := some true} d →
    row ∉ shown lower {f with available := some false} d
  together : ∀ f : Filters, (shown lower {f with available := some true} d ++ shown lower {f with available := some false} d).Perm
    (shown lower {f with available := none} d)
  totals : ∀ f : Filters, (shown lower {f with available := some true} d).length +
    (shown lower {f with available := some false} d).length = (shown lower {f with available := none} d).length
  refused : ∀ row ∈ shown lower ⟨none,none,none,none⟩ d, ∀ k w data env, w.db = d → data.bookId = row.1.id.text →
    (serve k (.createLoan data) w env).1 = .error unavailable → row ∈ shown lower ⟨none,none,none,some false⟩ d

section Desk
variable {w : World} {data : LoanService.CreateLoanSchema} {env : Oracle} {k : Nat}

theorem unavailableRow (refused : (serve k (.createLoan data) w env).1 = .error unavailable) :
    ∃ b, w.db.books.find data.bookId = some b ∧ b.availableCopies ≤ 0 := by
  have rule : Program.wp (lone k fun _ => True) (fun _ _ _ => True)
      (fun e _ => e = unavailable → ∃ b, w.db.books.find data.bookId = some b ∧ b.availableCopies ≤ 0)
      (LoanService.createLoan data) [] w := by
    refine findRule (fun _ _ _ => nofun) fun w₁ user same reader => ?_
    cases same
    refine wpBind.mpr fun w₂ same => refuseRule (fun _ => nofun) fun below => ?_
    cases same
    refine wpBind.mpr fun w₃ same => ?_
    cases same
    split
    · exact nofun
    · rename_i book found
      have stock : w.db.books.find data.bookId = some book := (Option.filter_eq_some_iff.mp found).1
      refine refuseRule (fun low _ => ⟨book,stock,low⟩) fun available => ?_
      refine Program.wpMono (fun _ _ _ h => h) (fun e _ other same => absurd same other)
        (Program.wpRaises (R := fun e => e ≠ unavailable) (n := 0) (fun _ _ => trivial) ?_)
      simp only [LoanRepository.refresh,BookService.forgetBook,LoanService.invalidateLoanCache,unavailable,
        Program.bindBind,Program.raisesNow,Program.raisesSelect,ServiceExits.raisesStatement,ServiceExits.raisesStored,
        ServiceExits.raisesDelete,ServiceExits.raisesDeletePattern,ServiceExits.raisesUuid,ne_eq,reduceCtorEq,not_false_eq_true,or_true]
      intro t id createdAt loan created occurredAt
      refine ServiceExits.raisesPublish (Program.bindPure (LoanService.serializeLoan created) ▸ ?_)
      exact ServiceExits.raisesSerialize fun _ => trivial
  have ended : Program.Ended (lone k fun _ => True) _ _ (Program.alone k (LoanService.createLoan data) [] w env) :=
    loneEnded (fun _ => trivial) rule
  have failed : (Program.alone k (LoanService.createLoan data) [] w env).1.map Response.loan = .error unavailable := by
    have mapped := Program.aloneMap Response.loan k (LoanService.createLoan data) [] w env
    exact (congrArg Prod.fst mapped).symm.trans refused
  cases outcome : Program.alone k (LoanService.createLoan data) [] w env with
  | mk result last =>
    rw [outcome] at ended failed
    cases result with
    | ok view => contradiction
    | error e =>
      cases failed
      obtain ⟨w',found,_⟩ := ended
      exact found rfl

end Desk

section Filter
variable {lower : Char → Char} {d : Database}

theorem visibleShown {row : BookModel × AuthorModel} : row ∈ shown lower ⟨none,none,none,none⟩ d ↔
    row ∈ withAuthors d ∧ row.1.isActive = true ∧ row.2.isActive = true := by
  rw [shown,List.mem_filter]
  simp [selects,given]

/- Each branch of the filter takes some of the rows selected without it. -/
theorem shownBranch (f : Filters) : shown lower {f with available := some true} d =
      (shown lower {f with available := none} d).filter (fun row => decide (0 < row.1.availableCopies)) ∧
    shown lower {f with available := some false} d =
      (shown lower {f with available := none} d).filter (fun row => decide (row.1.availableCopies = 0)) := by
  constructor
  · rw [shown,shown,List.filter_filter]
    exact List.filter_congr fun row _ => by simp [selects,Bool.and_comm]
  · rw [shown,shown,List.filter_filter]
    exact List.filter_congr fun row _ => by simp [selects,Bool.and_comm]

def Unnegative (d : Database) : Prop := ∀ row ∈ withAuthors d, row.1.isActive = true → row.2.isActive = true →
  0 ≤ row.1.availableCopies

theorem shownVisible {f : Filters} {row : BookModel × AuthorModel} (mem : row ∈ shown lower f d) :
    row ∈ withAuthors d ∧ row.1.isActive = true ∧ row.2.isActive = true := by
  obtain ⟨stored,selected⟩ := List.mem_filter.mp mem
  simp only [selects,Bool.and_eq_true] at selected
  exact ⟨stored,selected.1.1.1.1.1,selected.1.1.1.1.2⟩

theorem splitTogether (low : Unnegative d) (f : Filters) :
    (shown lower {f with available := some true} d ++ shown lower {f with available := some false} d).Perm
      (shown lower {f with available := none} d) := by
  rw [(shownBranch f).1,(shownBranch f).2]
  have other : (shown lower {f with available := none} d).filter (fun row => decide (row.1.availableCopies = 0)) =
      (shown lower {f with available := none} d).filter (fun row => !decide (0 < row.1.availableCopies)) := by
    refine List.filter_congr fun row mem => ?_
    obtain ⟨stored,shelved,author⟩ := shownVisible mem
    have := low row stored shelved author
    rw [← decide_not,decide_eq_decide]
    omega
  rw [other]
  exact List.filter_append_perm _ _

theorem splitsIff : Splits lower d ↔ Unnegative d := by
  constructor
  · intro splits row stored shelved author
    have whole : row ∈ shown lower ⟨none,none,none,none⟩ d := visibleShown.mpr ⟨stored,shelved,author⟩
    rcases List.mem_append.mp ((splits.together ⟨none,none,none,none⟩).mem_iff.mpr whole) with left | right
    · rw [(shownBranch _).1] at left
      have := of_decide_eq_true (List.mem_filter.mp left).2
      omega
    · rw [(shownBranch _).2] at right
      have := of_decide_eq_true (List.mem_filter.mp right).2
      omega
  · intro low
    refine ⟨fun f row left right => ?_,splitTogether low,fun f => ?_,fun row mem k w data env same id refused => ?_⟩
    · rw [(shownBranch f).1] at left
      rw [(shownBranch f).2] at right
      have more := of_decide_eq_true (List.mem_filter.mp left).2
      have none := of_decide_eq_true (List.mem_filter.mp right).2
      omega
    · rw [← List.length_append]
      exact (splitTogether low f).length_eq
    · subst same
      obtain ⟨b,found,out⟩ := unavailableRow refused
      obtain ⟨stored,shelved,author⟩ := visibleShown.mp mem
      obtain ⟨book,inside,named⟩ := List.mem_filterMap.mp stored
      obtain ⟨a,_,rfl⟩ := Option.map_eq_some_iff.mp named
      have here : some book = some b := (Table.findComplete inside).symm.trans (id ▸ found)
      cases here
      have enough : 0 ≤ b.availableCopies := low _ stored shelved author
      have branch : shown lower ⟨none,none,none,some false⟩ w.db = (shown lower ⟨none,none,none,none⟩ w.db).filter _ :=
        (shownBranch ⟨none,none,none,none⟩).2
      rw [branch]
      exact List.mem_filter.mpr ⟨mem,decide_eq_true (show b.availableCopies = 0 by omega)⟩

end Filter

section Runs
variable {requests : Nat → Option Request} {t : Int} {h : Log}

theorem addedLow {seen : Seen} {own : Log} {before after : Database} {data : BookService.CreateBookSchema} {writes : List Write}
    (e : Effect seen own before (.createBook data) writes) (ran : execAll writes before = .ok after)
    (total : 0 ≤ data.totalCopies) (low : ∀ b ∈ before.books.rows, 0 ≤ b.availableCopies) :
    ∀ b ∈ after.books.rows, 0 ≤ b.availableCopies := by
  cases e with
  | createBook =>
    obtain ⟨books,added,rfl⟩ := ranInsertBook ran
    intro b mem
    rcases (Table.memInsert added b).mp mem with old | rfl
    · exact low b old
    · exact total
  | notify _ about => exact about.elim

theorem pathLow (path : SequentialPath requests .empty t h)
    (totals : ∀ k data, requests k = some (.createBook data) → 0 ≤ data.totalCopies) :
    ∀ b ∈ (stateAfter .empty h).books.rows, 0 ≤ b.availableCopies := by
  induction path with
  | start => exact fun b mem => absurd mem List.not_mem_nil
  | @commit m h rest before ran clock effect ih =>
    rw [← before] at ih
    obtain ⟨r,sent,e⟩ := effect
    by_cases new : ∃ data, r = .createBook data
    · obtain ⟨data,rfl⟩ := new
      exact addedLow e ran (totals _ data sent) ih
    · have exchange := effectExchange (fun _ _ _ => newestRead before) e ran fun data same => new ⟨data,same⟩
      intro b mem
      have stored : m.after.books.find b.id.text = some b := Table.findComplete mem
      cases found : m.before.books.find b.id.text with
      | none =>
        have absent := exchange.none _ found
        rw [absent] at stored
        contradiction
      | some old =>
        obtain ⟨b',found',_,low⟩ := exchange.kept b.id old found
        cases found'.symm.trans stored
        exact low (ih old (Table.findSound found).1)

/-- After requests served one after another the filter splits the catalogue exactly when no
visible book has a negative counter; so it does if no book was entered with a negative
number of copies. -/
theorem filterSplits (lower : Char → Char) (t : Int) (calls : List (Request × Oracle)) :
    (Splits lower (serveAll 0 (opening t) calls).2.db ↔ Unnegative (serveAll 0 (opening t) calls).2.db) ∧
    ((∀ data env, (Request.createBook data,env) ∈ calls → 0 ≤ data.totalCopies) →
      Splits lower (serveAll 0 (opening t) calls).2.db) := by
  refine ⟨splitsIff,fun totals => splitsIff.mpr fun row stored _ _ => ?_⟩
  have reached : Reached (requestsOf calls) .empty t calls.length (serveAll 0 (opening t) calls).2 :=
    reachedAll fun _ _ sent => sent
  have low := pathLow reached.path fun k data sent => by
    obtain ⟨call,here,same⟩ := Option.map_eq_some_iff.mp sent
    exact totals data call.2 (same ▸ List.mem_of_getElem? here)
  rw [← reached.root.db] at low
  obtain ⟨book,inside,named⟩ := List.mem_filterMap.mp stored
  obtain ⟨a,_,rfl⟩ := Option.map_eq_some_iff.mp named
  exact low book inside

end Runs

section Samples

theorem twoCopiesSplit : Splits id (serveAll 0 (opening 0) (borrowing 2)).2.db := by
  have totals : ∀ data env, (Request.createBook data,env) ∈ borrowing 2 → 0 ≤ data.totalCopies := by
    intro data env mem
    simp only [borrowing,List.mem_cons,Prod.mk.injEq,reduceCtorEq,false_and,false_or,Request.createBook.injEq,
      List.not_mem_nil,or_false] at mem
    rw [mem.1]
    decide
  exact (filterSplits id 0 (borrowing 2)).2 totals

def negativeShelf : World := (serveAll 0 (opening 0) (borrowing (-1))).2

theorem listedUnderNeither :
    (∃ row ∈ shown id ⟨none,none,none,none⟩ negativeShelf.db, row ∉ shown id ⟨none,none,none,some true⟩ negativeShelf.db ∧
      row ∉ shown id ⟨none,none,none,some false⟩ negativeShelf.db ∧
      (serve 4 (.createLoan ⟨(sampleId 2).text,row.1.id.text⟩) negativeShelf fun _ => tick 5).1 = .error unavailable) ∧
    ¬ Splits id negativeShelf.db := by
  have neither : ∃ row ∈ shown id ⟨none,none,none,none⟩ negativeShelf.db,
      row ∉ shown id ⟨none,none,none,some true⟩ negativeShelf.db ∧
      row ∉ shown id ⟨none,none,none,some false⟩ negativeShelf.db ∧
      (serve 4 (.createLoan ⟨(sampleId 2).text,row.1.id.text⟩) negativeShelf fun _ => tick 5).1 = .error unavailable := by
    decide +kernel
  refine ⟨neither,fun splits => ?_⟩
  obtain ⟨row,mem,_,missing,refused⟩ := neither
  exact missing (splits.refused row mem 4 negativeShelf _ _ rfl rfl refused)

end Samples
end LibraryApi.AvailabilityFilter
