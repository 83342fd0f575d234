import LibraryApi.Paging
import LibraryApi.Runs

/-! The listings of users, books and loans, page after page. None of the three queries has
an ORDER BY, so a page is cut out of whatever order its own SELECT happens to return. -/
namespace LibraryApi.Listings
open Models CacheService KeyedTable Repositories Requests Runs Paging
open Program (alone select now)

theorem arrangedAny {α : Type} {rows rows' : List α} (same : rows'.Perm rows) : ∃ order, arranged order rows = rows' := by
  induction rows' generalizing rows with
  | nil =>
    have none : rows = [] := same.symm.eq_nil
    subst none
    exact ⟨[],rfl⟩
  | cons row rest ih =>
    obtain ⟨n,bound,found⟩ := List.mem_iff_getElem.mp (same.mem_iff.mp (List.mem_cons_self (a := row)))
    have others : rest.Perm (rows.eraseIdx n) := by
      have front := List.getElem_cons_eraseIdx_perm bound
      rw [found] at front
      exact (same.trans front.symm).cons_inv
    obtain ⟨order,arrangedRest⟩ := ih others
    refine ⟨n :: order,?_⟩
    rw [arranged,List.getElem?_eq_getElem bound,found]
    simp only [arrangedRest]

namespace UserRepository

def listUsersPaginated (page size : Nat) : Service (List UserModel × Nat) := do
  let order ← rowOrder
  let users ← select fun d : Database => window page size (arranged order (d.users.rows.filter fun u => u.isActive))
  let total ← select fun d : Database => (d.users.rows.filter fun u => u.isActive).length
  return (users,total)

end UserRepository

namespace BookRepository
open Repositories.BookRepository (Filters selects withAuthors)

def shown (lower : Char → Char) (f : Filters) (d : Database) : List (BookModel × AuthorModel) :=
  (withAuthors d).filter (selects lower f)

def listPage (page size : Nat) (f : Filters) : Service (List (BookModel × AuthorModel) × Nat) := do
  let order ← rowOrder
  let lower ← lowering
  let books ← select fun d => window page size (arranged order (shown lower f d))
  let total ← select fun d => (shown lower f d).length
  return (books,total)

theorem listBooksPaginatedPage (p : Pagination) (f : Filters) :
    Repositories.BookRepository.listBooksPaginated p f = listPage p.page p.size f := rfl

theorem listPageShown {lower : Char → Char} {env : Oracle} (same : ∀ n, (env n).answer.lower = lower) (page size : Nat)
    (f : Filters) (w : World) : (alone 0 (listPage page size f) [] w env).1 =
      .ok (window page size (arranged (env 0).answer.order (shown lower f w.db)),(shown lower f w.db).length) := by
  rw [← same 1]
  rfl

theorem withAuthorsUnique (d : Database) : (withAuthors d).Nodup := by
  refine List.Nodup.filterMap (fun a b row left right => ?_) (List.Nodup.of_map _ d.books.unique)
  obtain ⟨_,_,rfl⟩ := Option.map_eq_some_iff.mp left
  obtain ⟨_,_,same⟩ := Option.map_eq_some_iff.mp right
  exact (Prod.mk.inj same).1.symm

end BookRepository

namespace LoanRepository
open Repositories.LoanRepository (Filters selects)

def listPage (page size : Nat) (f : Filters) : Service (List LoanModel × Nat) := do
  let now ← now
  let order ← rowOrder
  let loans ← select fun d : Database => window page size (arranged order (d.loans.rows.filter (selects now f)))
  let total ← select fun d : Database => (d.loans.rows.filter (selects now f)).length
  return (loans,total)

theorem listPaginatedPage (p : Pagination) (f : Filters) :
    Repositories.LoanRepository.listPaginated p f = listPage p.page p.size f := rfl

end LoanRepository

section Pages
variable {α : Type} {d : Database} {admits : World → Oracle → Prop} {query : Nat → Service (List α × Nat)} {size : Nat}
  {rows : List α}

/-- Every page is requested, each in its own session with the tables as they are: together
they hold every matching row exactly once, and each tells how many rows match. -/
def Fully (d : Database) (admits : World → Oracle → Prop) (query : Nat → Service (List α × Nat)) (size : Nat)
    (rows : List α) : Prop :=
  ∀ asked : Nat → World × Oracle, (∀ page, (asked page).1.db = d ∧ admits (asked page).1 (asked page).2) →
    ∃ pages : Nat → List α, (∀ page, (alone 0 (query page) [] (asked page).1 (asked page).2).1 = .ok (pages page,rows.length)) ∧
      (collected (pageCount rows.length size) pages).Perm rows

theorem fullyIff (positive : 1 ≤ size) (unique : rows.Nodup) (ord : World → Oracle → List Nat)
    (answers : ∀ page w env, w.db = d → admits w env →
      (alone 0 (query page) [] w env).1 = .ok (window page size (arranged (ord w env) rows),rows.length))
    (any : ∀ order, ∃ asked : World × Oracle, asked.1.db = d ∧ admits asked.1 asked.2 ∧ ord asked.1 asked.2 = order) :
    Fully d admits query size rows ↔ rows.length ≤ size := by
  constructor
  · intro full
    by_contra more
    let wanted (page : Nat) : List α := if page = 2 then moved size rows else rows
    have reorder (page : Nat) : (wanted page).Perm rows := by
      unfold wanted
      split
      · exact movedPerm size rows
      · exact List.Perm.refl _
    choose order arrangedSo using fun page => arrangedAny (reorder page)
    choose asked stored admitted ordered using fun page => any (order page)
    obtain ⟨pages,answered,whole⟩ := full asked fun page => ⟨stored page,admitted page⟩
    have cut : pages = fun page => window page size (wanted page) := by
      funext page
      have here := (answered page).symm.trans (answers page _ _ (stored page) (admitted page))
      rw [ordered,arrangedSo] at here
      exact (Prod.mk.inj (Except.ok.inj here)).1
    rw [cut] at whole
    exact shownTwice positive (Nat.lt_of_not_le more) unique whole
  · intro fits asked met
    refine ⟨fun page => window page size (arranged (ord (asked page).1 (asked page).2) rows),fun page => ?_,
      fittingPage positive fits fun page => arrangedPerm _ _⟩
    exact answers page _ _ (met page).1 (met page).2

end Pages

section Tables

def ordered (order : List Nat) (lower : Char → Char) : Oracle :=
  fun _ => ⟨0,⟨sampleId 9,some,true,[],order,lower⟩⟩

theorem rowsUnique {ρ : Type} {key : ρ → String} (t : Table key) (p : ρ → Bool) : (t.rows.filter p).Nodup :=
  (List.Nodup.of_map _ t.unique).filter p

variable {d : Database} {size : Nat}

theorem usersIff (positive : 1 ≤ size) : Fully d (fun _ _ => True) (fun page => UserRepository.listUsersPaginated page size)
      size (d.users.rows.filter fun u => u.isActive) ↔ (d.users.rows.filter fun u => u.isActive).length ≤ size := by
  refine fullyIff positive (rowsUnique d.users _) (fun _ env => (env 0).answer.order) (fun page w env stored _ => ?_)
    fun order => ⟨(settled d [] 0,ordered order id),rfl,trivial,rfl⟩
  subst stored
  rfl

theorem booksIff (positive : 1 ≤ size) (lower : Char → Char) (f : Repositories.BookRepository.Filters) :
    Fully d (fun _ env => ∀ n, (env n).answer.lower = lower) (fun page => BookRepository.listPage page size f) size
        (BookRepository.shown lower f d) ↔ (BookRepository.shown lower f d).length ≤ size := by
  refine fullyIff positive ((BookRepository.withAuthorsUnique d).filter _) (fun _ env => (env 0).answer.order)
    (fun page w env stored same => ?_) fun order => ⟨(settled d [] 0,ordered order lower),rfl,fun _ => rfl,rfl⟩
  subst stored
  exact BookRepository.listPageShown same page size f w

/- Whether a loan is overdue depends on the instant: every page is requested at one at
which the same loans match. -/
theorem loansIff (positive : 1 ≤ size) (t : Int) (f : Repositories.LoanRepository.Filters) :
    Fully d (fun w env => d.loans.rows.filter (Repositories.LoanRepository.selects (w.clock + (env 0).elapsed) f) =
          d.loans.rows.filter (Repositories.LoanRepository.selects t f))
        (fun page => LoanRepository.listPage page size f) size
        (d.loans.rows.filter (Repositories.LoanRepository.selects t f)) ↔
      (d.loans.rows.filter (Repositories.LoanRepository.selects t f)).length ≤ size := by
  refine fullyIff positive (rowsUnique d.loans _) (fun _ env => (env 1).answer.order) (fun page w env stored same => ?_)
    fun order => ⟨(settled d [] t,ordered order id),rfl,?_,rfl⟩
  · subst stored
    rw [← same]
    rfl
  · show List.filter (Repositories.LoanRepository.selects (t + ((0 : Nat) : Int)) f) _ = _
    rw [Int.natCast_zero,Int.add_zero]

/-- Over all orders in which a query may return its rows, the pages of each listing hold
every matching row exactly once if and only if one page holds them all. -/
theorem pagesCompleteIff (d : Database) (size : Nat) (positive : 1 ≤ size) :
    (Fully d (fun _ _ => True) (fun page => UserRepository.listUsersPaginated page size) size
        (d.users.rows.filter fun u => u.isActive) ↔ (d.users.rows.filter fun u => u.isActive).length ≤ size) ∧
    (∀ lower f, Fully d (fun _ env => ∀ n, (env n).answer.lower = lower) (fun page => BookRepository.listPage page size f) size
        (BookRepository.shown lower f d) ↔ (BookRepository.shown lower f d).length ≤ size) ∧
    ∀ t f, Fully d (fun w env => d.loans.rows.filter (Repositories.LoanRepository.selects (w.clock + (env 0).elapsed) f) =
          d.loans.rows.filter (Repositories.LoanRepository.selects t f))
        (fun page => LoanRepository.listPage page size f) size
        (d.loans.rows.filter (Repositories.LoanRepository.selects t f)) ↔
      (d.loans.rows.filter (Repositories.LoanRepository.selects t f)).length ≤ size :=
  ⟨usersIff positive,booksIff positive,loansIff positive⟩

def twoUsers : World := (serveAll 0 (opening 0)
  [(.createUser ⟨"Ana","ana@example.com","segredo"⟩,fun _ => tick 1),
    (.createUser ⟨"Bia","bia@example.com","segredo"⟩,fun _ => tick 2)]).2

theorem twoUsersListed : Fully twoUsers.db (fun _ _ => True) (fun page => UserRepository.listUsersPaginated page 2) 2
    (twoUsers.db.users.rows.filter fun u => u.isActive) := by
  have two : (twoUsers.db.users.rows.filter fun u => u.isActive).length ≤ 2 := by decide +kernel
  exact (pagesCompleteIff twoUsers.db 2 (by decide)).1.mpr two

theorem anaListedTwice :
    (∃ ana bia, twoUsers.db.users.rows.filter (fun u => u.isActive) = [ana,bia] ∧
      (alone 0 (UserRepository.listUsersPaginated 1 1) [] twoUsers (ordered [] id)).1 = .ok ([ana],2) ∧
      (alone 0 (UserRepository.listUsersPaginated 2 1) [] twoUsers (ordered [1] id)).1 = .ok ([ana],2)) ∧
    ¬ Fully twoUsers.db (fun _ _ => True) (fun page => UserRepository.listUsersPaginated page 1) 1
      (twoUsers.db.users.rows.filter fun u => u.isActive) := by
  refine ⟨⟨⟨sampleId 1,"Ana","ana@example.com","segredo",0,true,.user⟩,
    ⟨sampleId 2,"Bia","bia@example.com","segredo",0,true,.user⟩,by decide +kernel,by decide +kernel,by decide +kernel⟩,
    fun full => ?_⟩
  have more : ¬ (twoUsers.db.users.rows.filter fun u => u.isActive).length ≤ 1 := by decide +kernel
  exact more ((usersIff (by decide)).mp full)

end Tables
end LibraryApi.Listings
