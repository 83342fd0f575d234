import LibraryApi.Listings
import LibraryApi.TiedPaging

/-! The listings with an ORDER BY: authors and reservations from the oldest on, notifications
from the newest. The instant of creation is all they are ordered by, so rows of one instant
may stand either way round, another way for each page. -/
namespace LibraryApi.OrderedListings
open Models CacheService Repositories Requests Runs Paging Listings
open Program (alone select)

section Queries

def AuthorRepository.listPage (page size : Nat) : Service (List AuthorModel × Nat) := do
  let order ← rowOrder
  let authors ← select fun d : Database => window page size
    ((arranged order (d.authors.rows.filter fun a => a.isActive)).insertionSort fun a b => a.createdAt ≤ b.createdAt)
  let total ← select fun d : Database => (d.authors.rows.filter fun a => a.isActive).length
  return (authors,total)

theorem listAuthorsPaginatedPage (p : Pagination) :
    Repositories.AuthorRepository.listAuthorsPaginated p = AuthorRepository.listPage p.page p.size := rfl

def ReservationRepository.listPage (page size : Nat) (f : ReservationRepository.Filters) :
    Service (List ReservationModel × Nat) := do
  let order ← rowOrder
  let reservations ← select fun d : Database => window page size
    ((arranged order (d.reservations.rows.filter (ReservationRepository.selects f))).insertionSort
      fun a b => a.createdAt ≤ b.createdAt)
  let total ← select fun d : Database => (d.reservations.rows.filter (ReservationRepository.selects f)).length
  return (reservations,total)

theorem reservationsPage (p : Pagination) (f : ReservationRepository.Filters) :
    Repositories.ReservationRepository.listPaginated p f = ReservationRepository.listPage p.page p.size f := rfl

def NotificationRepository.selected (userId : Option String) (d : Database) : List NotificationModel :=
  d.notifications.filter fun n => given userId fun s => n.userId.text == s

def NotificationRepository.listPage (page size : Nat) (userId : Option String) : Service (List NotificationModel × Nat) := do
  let order ← rowOrder
  let notifications ← select fun d : Database => window page size
    ((arranged order (NotificationRepository.selected userId d)).insertionSort fun a b => b.createdAt ≤ a.createdAt)
  let total ← select fun d : Database => (NotificationRepository.selected userId d).length
  return (notifications,total)

theorem notificationsPage (p : Pagination) (userId : Option String) :
    Repositories.NotificationRepository.listPaginated p userId = NotificationRepository.listPage p.page p.size userId := rfl

end Queries

section Pages
variable {α κ : Type} [LinearOrder κ] {key : α → κ} {r : α → α → Prop} [DecidableRel r] {d : Database}
  {query : Nat → Service (List α × Nat)} {size : Nat} {rows : List α}

theorem sortedSort (rel : ∀ a b, r a b ↔ key a ≤ key b) (l : List α) : Ordered key (l.insertionSort r) := by
  have : Std.Total r := ⟨fun a b => by rw [rel,rel]; exact le_total _ _⟩
  have : IsTrans α r := ⟨fun a b c left right => (rel a c).mpr (((rel a b).mp left).trans ((rel b c).mp right))⟩
  exact (List.pairwise_insertionSort r l).imp fun {a b} le => (rel a b).mp le

theorem sortSame (rel : ∀ a b, r a b ↔ key a ≤ key b) {l : List α} (sorted : Ordered key l) : l.insertionSort r = l :=
  List.Pairwise.insertionSort_eq (sorted.imp fun {a b} le => (rel a b).mpr le)

theorem orderedIff (rel : ∀ a b, r a b ↔ key a ≤ key b) (positive : 1 ≤ size) (unique : rows.Nodup)
    (answers : ∀ page (w : World) (env : Oracle), w.db = d → (alone 0 (query page) [] w env).1 =
      .ok (window page size ((arranged (env 0).answer.order rows).insertionSort r),rows.length)) :
    Fully d (fun _ _ => True) query size rows ↔ ¬ Torn key size rows := by
  constructor
  · intro full torn
    obtain ⟨wanted,same,sorted,less⟩ := tornPages positive unique (List.perm_insertionSort r rows) (sortedSort rel rows) torn
    choose order arrangedSo using fun page => arrangedAny (same page)
    obtain ⟨pages,answered,whole⟩ := full (fun page => (settled d [] 0,ordered (order page) id)) fun page => ⟨rfl,trivial⟩
    have cut : pages = fun page => window page size (wanted page) := by
      funext page
      have here := (answered page).symm.trans (answers page _ _ rfl)
      have given : (ordered (order page) id 0).answer.order = order page := rfl
      rw [given,arrangedSo,sortSame rel (sorted page)] at here
      exact (Prod.mk.inj (Except.ok.inj here)).1
    exact less (cut ▸ whole)
  · intro fine asked met
    let shown (page : Nat) : List α := (arranged ((asked page).2 0).answer.order rows).insertionSort r
    have same (page : Nat) : (shown page).Perm rows := (List.perm_insertionSort r _).trans (arrangedPerm _ _)
    refine ⟨fun page => window page size (shown page),fun page => answers page _ _ (met page).1,?_⟩
    have all := tidyPages fine same (fun page => sortedSort rel _) (pageCount rows.length size)
    rw [List.take_of_length_le (by rw [(same 0).length_eq]; exact pageCountEnough positive)] at all
    exact all.trans (same 0)

end Pages

section Tables
variable {d : Database} {size : Nat}

theorem authorsIff (positive : 1 ≤ size) :
    Fully d (fun _ _ => True) (fun page => AuthorRepository.listPage page size) size (d.authors.rows.filter fun a => a.isActive) ↔
      ¬ Torn (fun a : AuthorModel => a.createdAt) size (d.authors.rows.filter fun a => a.isActive) := by
  refine orderedIff (r := fun a b : AuthorModel => a.createdAt ≤ b.createdAt) (fun _ _ => Iff.rfl) positive
    (rowsUnique d.authors _) fun page w env stored => ?_
  subst stored
  rfl

theorem reservationsIff (positive : 1 ≤ size) (f : ReservationRepository.Filters) :
    Fully d (fun _ _ => True) (fun page => ReservationRepository.listPage page size f) size
        (d.reservations.rows.filter (ReservationRepository.selects f)) ↔
      ¬ Torn (fun r : ReservationModel => r.createdAt) size (d.reservations.rows.filter (ReservationRepository.selects f)) := by
  refine orderedIff (r := fun a b : ReservationModel => a.createdAt ≤ b.createdAt) (fun _ _ => Iff.rfl) positive
    (rowsUnique d.reservations _) fun page w env stored => ?_
  subst stored
  rfl

theorem notificationsIff (positive : 1 ≤ size) (unique : d.notifications.Nodup) (userId : Option String) :
    Fully d (fun _ _ => True) (fun page => NotificationRepository.listPage page size userId) size
        (NotificationRepository.selected userId d) ↔
      ¬ Torn (fun n : NotificationModel => -n.createdAt) size (NotificationRepository.selected userId d) := by
  refine orderedIff (r := fun a b : NotificationModel => b.createdAt ≤ a.createdAt) (fun a b => ?_) positive
    (unique.filter _) fun page w env stored => ?_
  · show b.createdAt ≤ a.createdAt ↔ -a.createdAt ≤ -b.createdAt
    omega
  · subst stored
    rfl

/-- Over all orders of rows of one instant, the pages of each ordered listing hold every
matching row exactly once if and only if no page ends amid the rows of one instant. -/
theorem orderedPagesIff (d : Database) (size : Nat) (positive : 1 ≤ size) (unique : d.notifications.Nodup) :
    (Fully d (fun _ _ => True) (fun page => AuthorRepository.listPage page size) size (d.authors.rows.filter fun a => a.isActive) ↔
      ¬ Torn (fun a : AuthorModel => a.createdAt) size (d.authors.rows.filter fun a => a.isActive)) ∧
    (∀ f, Fully d (fun _ _ => True) (fun page => ReservationRepository.listPage page size f) size
        (d.reservations.rows.filter (ReservationRepository.selects f)) ↔
      ¬ Torn (fun r : ReservationModel => r.createdAt) size (d.reservations.rows.filter (ReservationRepository.selects f))) ∧
    ∀ userId, Fully d (fun _ _ => True) (fun page => NotificationRepository.listPage page size userId) size
        (NotificationRepository.selected userId d) ↔
      ¬ Torn (fun n : NotificationModel => -n.createdAt) size (NotificationRepository.selected userId d) :=
  ⟨authorsIff positive,reservationsIff positive,notificationsIff positive unique⟩

def threeAuthors : Database := {sampleShelf 1 with
  authors := ⟨[sampleAuthor,⟨sampleId 4,"Clarice Lispector",none,0,true⟩,⟨sampleId 5,"Lima Barreto",none,7,true⟩],by decide⟩}

theorem threeAuthorsPaged : Fully threeAuthors (fun _ _ => True) (fun page => AuthorRepository.listPage page 2) 2
    (threeAuthors.authors.rows.filter fun a => a.isActive) := by
  refine (orderedPagesIff threeAuthors 2 (by decide) (by decide +kernel)).1.mpr fun torn => ?_
  obtain ⟨k,c,low,high⟩ := torn
  simp only [threeAuthors,sampleAuthor,List.filter,List.countP_cons,List.countP_nil,below,upTo,decide_eq_true_eq] at low high
  split_ifs at low high <;> omega

end Tables
end LibraryApi.OrderedListings
