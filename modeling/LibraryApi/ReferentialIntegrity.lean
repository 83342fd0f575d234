import LibraryApi.Particulars
import LibraryApi.References

/-! The foreign keys of the tables. The services look up what a new row will point to, and
no request takes a row away, so no commit has anything for the database to refuse, however
the lookups and the commits of other sessions fall between. -/
namespace LibraryApi.ReferentialIntegrity
open Models CacheService KeyedTable Repositories Requests Effects Runs Security Api Application Permanence Particulars
open KeyedTable.Table (carriedFound Refers refersCarried refersInsert refersModify)
open Program (execAll stateAfter)

structure Points (d target : Database) : Prop where
  authors : Refers (fun b : BookModel => b.authorId.text) d.books target.authors
  borrowers : Refers (fun l : LoanModel => l.userId.text) d.loans target.users
  borrowed : Refers (fun l : LoanModel => l.bookId.text) d.loans target.books
  readers : Refers (fun r : ReservationModel => r.userId.text) d.reservations target.users
  reserved : Refers (fun r : ReservationModel => r.bookId.text) d.reservations target.books
  recipients : ∀ n ∈ d.notifications, ∃ u, target.users.find n.userId.text = some u
  addressed : ∀ n ∈ d.notifications, Addressed target n

abbrev Referenced (d : Database) : Prop := Points d d

def Secured (target : Database) : Write → Prop
  | .insertBook b => ∃ a, target.authors.find b.authorId.text = some a
  | .insertLoan l => (∃ u, target.users.find l.userId.text = some u) ∧ ∃ b, target.books.find l.bookId.text = some b
  | .insertReservation r => (∃ u, target.users.find r.userId.text = some u) ∧ ∃ b, target.books.find r.bookId.text = some b
  | .insertNotification n => (∃ u, target.users.find n.userId.text = some u) ∧ Addressed target n
  | .updateBook l c => c.authorId = l.authorId
  | .updateLoan l c => c.userId = l.userId ∧ c.bookId = l.bookId
  | .updateReservation l c => c.userId = l.userId ∧ c.bookId = l.bookId
  | _ => True

section Statements
variable {d d' target target' : Database}

theorem pointsKept (kept : Kept target target') (h : Points d target) : Points d target' :=
  ⟨refersCarried kept.authors h.authors,refersCarried kept.users h.borrowers,refersCarried kept.books h.borrowed,
    refersCarried kept.users h.readers,refersCarried kept.books h.reserved,
    fun n mem => carriedFound kept.users (h.recipients n mem),fun n mem => addressedKept kept (h.addressed n mem)⟩

theorem pointsRan {x : Write} (secured : Secured target x) (ran : x.exec d = .ok d') (h : Points d target) : Points d' target := by
  cases x with
  | insertUser row => obtain ⟨_,_,_,rfl⟩ := Database.insertUserRan ran; exact {h with}
  | insertAuthor row => obtain ⟨_,_,rfl⟩ := Database.insertAuthorRan ran; exact {h with}
  | insertBook row =>
    obtain ⟨_,_,added,rfl⟩ := Database.insertBookRan ran
    exact {h with authors := refersInsert added secured h.authors}
  | insertLoan row =>
    obtain ⟨_,added,rfl⟩ := Database.insertLoanRan ran
    exact {h with borrowers := refersInsert added secured.1 h.borrowers,borrowed := refersInsert added secured.2 h.borrowed}
  | insertReservation row =>
    obtain ⟨_,added,rfl⟩ := Database.insertReservationRan ran
    exact {h with readers := refersInsert added secured.1 h.readers,reserved := refersInsert added secured.2 h.reserved}
  | insertNotification row =>
    cases ran
    refine {h with recipients := fun n mem => ?_,addressed := fun n mem => ?_} <;> rcases List.mem_append.mp mem with old | new
    · exact h.recipients n old
    · exact List.mem_singleton.mp new ▸ secured.1
    · exact h.addressed n old
    · exact List.mem_singleton.mp new ▸ secured.2
  | updateUser l c => obtain rfl := Database.updateUserRan ran; exact {h with}
  | updateAuthor l c => obtain rfl := Database.updateAuthorRan ran; exact {h with}
  | updateBook l c =>
    obtain rfl := Database.updateBookRan ran
    have same (stored : BookModel) : (l.flush c stored).authorId.text = stored.authorId.text := by
      simp [BookModel.flush,show c.authorId = l.authorId from secured]
    exact {h with authors := refersModify (l.flush c) (fun _ => rfl) same h.authors}
  | updateLoan l c =>
    cases ran
    have user (stored : LoanModel) : (l.flush c stored).userId.text = stored.userId.text := by simp [LoanModel.flush,secured.1]
    have book (stored : LoanModel) : (l.flush c stored).bookId.text = stored.bookId.text := by simp [LoanModel.flush,secured.2]
    exact {h with
      borrowers := refersModify (l.flush c) (fun _ => rfl) user h.borrowers
      borrowed := refersModify (l.flush c) (fun _ => rfl) book h.borrowed}
  | updateReservation l c =>
    cases ran
    have user (stored : ReservationModel) : (l.flush c stored).userId.text = stored.userId.text := by
      simp [ReservationModel.flush,secured.1]
    have book (stored : ReservationModel) : (l.flush c stored).bookId.text = stored.bookId.text := by
      simp [ReservationModel.flush,secured.2]
    exact {h with
      readers := refersModify (l.flush c) (fun _ => rfl) user h.readers
      reserved := refersModify (l.flush c) (fun _ => rfl) book h.reserved}

theorem pointsAll {xs : List Write} (secured : ∀ x ∈ xs, Secured target x) (ran : execAll xs d = .ok d') (h : Points d target) :
    Points d' target :=
  Program.execAllKeeps (R := fun d d' => Points d target → Points d' target) (fun _ => id) (fun left right => right ∘ left)
    (fun x mem _ _ ran => pointsRan (secured x mem) ran) ran h

end Statements

section Commits
variable {seen : Seen} {own : Log} {before : Database} {r : Request} {writes : List Write}

theorem announcesRow {main : List Write} {note : NotificationModel} (about : Announces r main note) :
    (∃ k, note.loanId = some k) ∨ ∃ k, note.reservationId = some k := by
  cases r with
  | createLoan => obtain ⟨_,_,l,_,_,id⟩ := about; exact .inl ⟨_,id⟩
  | returnLoan => obtain ⟨_,_,l,_,_,_,id⟩ := about; exact .inl ⟨_,id⟩
  | cancelLoan => obtain ⟨_,_,l,_,_,_,id⟩ := about; exact .inl ⟨_,id⟩
  | createReservation => obtain ⟨_,_,_,id⟩ := about; exact .inr ⟨_,id⟩
  | cancelReservation => obtain ⟨_,_,_,_,id⟩ := about; exact .inr ⟨_,id⟩
  | _ => exact about.elim

theorem noteSecured (referenced : Referenced before) {note : NotificationModel} (addressed : Addressed before note)
    (row : (∃ k, note.loanId = some k) ∨ ∃ k, note.reservationId = some k) : Secured before (.insertNotification note) := by
  refine ⟨?_,addressed⟩
  rcases row with ⟨k,about⟩ | ⟨k,about⟩
  · obtain ⟨l,found,same⟩ := addressed.loan k about
    exact same ▸ referenced.borrowers l (Table.findSound found).1
  · obtain ⟨x,found,same⟩ := addressed.reservation k about
    exact same ▸ referenced.readers x (Table.findSound found).1

theorem seenUser {target : Database} (real : ∀ P, seen P → ∃ d t, P d t ∧ Kept d target) {k : String} {user : UserModel}
    (reader : seen fun d _ => UserRepository.findById d k = some user) : ∃ u, target.users.find user.id.text = some u := by
  obtain ⟨d,_,found,kept⟩ := real _ reader
  obtain ⟨row,_⟩ := Option.filter_eq_some_iff.mp found
  rw [(Table.findSound row).2]
  exact carriedFound kept.users ⟨user,row⟩

theorem effectSecured (real : ∀ P, seen P → ∃ d t, P d t ∧ Kept d before) (referenced : Referenced before)
    (particular : Particular before writes) (e : Effect seen own before r writes) : ∀ x ∈ writes, Secured before x := by
  cases e with
  | createBook _ _ writer =>
    refine List.forall_mem_singleton.mpr ?_
    obtain ⟨d,_,found,kept⟩ := real _ writer
    obtain ⟨row,_⟩ := Option.filter_eq_some_iff.mp found
    exact carriedFound kept.authors ⟨_,(Table.findSound row).2 ▸ row⟩
  | updateBook =>
    refine List.forall_mem_singleton.mpr ?_
    unfold BookService.updated
    split <;> exact rfl
  | deleteBook => exact List.forall_mem_singleton.mpr rfl
  | deleteAuthor =>
    refine List.forall_mem_cons.mpr ⟨trivial,fun x mem => ?_⟩
    obtain ⟨b,_,rfl⟩ := List.mem_map.mp mem
    rfl
  | createReservation _ reader visible =>
    refine List.forall_mem_singleton.mpr ⟨seenUser real reader,?_⟩
    obtain ⟨d,_,found,kept⟩ := real _ visible
    obtain ⟨book,_⟩ := CatalogueHistory.findByIdRow.mp found
    exact carriedFound kept.books ⟨_,(Table.findSound book).2 ▸ book⟩
  | cancelReservation => exact List.forall_mem_singleton.mpr ⟨rfl,rfl⟩
  | createLoan _ reader _ stock =>
    refine List.forall_mem_cons.mpr ⟨rfl,List.forall_mem_singleton.mpr ⟨seenUser real reader,?_⟩⟩
    exact ⟨_,(Table.findSound stock).2 ▸ stock⟩
  | returnLoan => exact List.forall_mem_cons.mpr ⟨rfl,List.forall_mem_singleton.mpr ⟨rfl,rfl⟩⟩
  | cancelLoan => exact List.forall_mem_cons.mpr ⟨rfl,List.forall_mem_singleton.mpr ⟨rfl,rfl⟩⟩
  | renewLoan => exact List.forall_mem_singleton.mpr ⟨rfl,rfl⟩
  | payFine => exact List.forall_mem_singleton.mpr ⟨rfl,rfl⟩
  | updateLoan _ _ _ _ checked =>
    refine List.forall_mem_singleton.mpr ?_
    rcases checked with ⟨_,rfl⟩ | ⟨_,_,_,rfl⟩ <;> exact ⟨rfl,rfl⟩
  | notify _ about =>
    exact List.forall_mem_singleton.mpr (noteSecured referenced (particular.notifications _ (by simp)) (announcesRow about))
  | _ => exact List.forall_mem_singleton.mpr trivial

theorem remindsSecured (referenced : Referenced before) (particular : Particular before writes) (reminds : Reminds seen writes) :
    ∀ x ∈ writes, Secured before x := by
  cases reminds with
  | @sent l => exact List.forall_mem_singleton.mpr (noteSecured referenced (particular.notifications _ (by simp)) (.inl ⟨l.id,rfl⟩))

end Commits

section Runs
variable {s : Deployment} {clients : Nat → Option Client} {d : Database} {t : Int} {h : Log} {m : Commit}

theorem commitSecured (path : DetailedPath s clients d t (m :: h)) (referenced : Referenced m.before) :
    ∀ x ∈ m.writes, Secured m.before x := by
  have particular := commitParticular path
  cases path with
  | commit rest before ran clock known =>
    obtain ⟨⟨client,task,sent,done⟩,_⟩ := known
    cases task with
    | reminders => exact remindsSecured referenced particular done.deed
    | request r =>
      exact effectSecured (fun P seen => before ▸ seenKept (plainPath rest) seen) referenced particular done.deed

theorem commitReferenced (path : DetailedPath s clients d t (m :: h)) (referenced : Referenced m.before) : Referenced m.after := by
  have secured := commitSecured path referenced
  have kept := commitKept (plainPath path)
  cases path with
  | commit _ _ ran => exact pointsKept kept (pointsAll secured ran referenced)

theorem pathReferenced (start : Referenced d) (path : DetailedPath s clients d t h) : Referenced (stateAfter d h) := by
  induction path with
  | start => exact start
  | @commit m h rest before ran clock known ih =>
    exact commitReferenced (.commit rest before ran clock known) (before ▸ ih)

theorem secured (start : Referenced d) {a b : Log} (path : DetailedPath s clients d t (a ++ m :: b)) :
    ∀ x ∈ m.writes, Secured m.before x := by
  have here := path.suffix
  refine commitSecured here ?_
  cases here with
  | commit rest before => exact before ▸ pathReferenced start rest

/-- Nothing ever points nowhere: in every state of every run each row points to rows that are
there, and no commit on the way had a statement for a foreign key to refuse. -/
theorem nothingDangles (s : Deployment) (clients : Nat → Option Client) {d : Database} (x : Cache) (t : Int) (moves : Moves)
    (start : Referenced d) :
    let final := ((receive s (settled d x t) clients).run moves).world
    Referenced final.db ∧ ∀ m ∈ final.history, ∀ x ∈ m.writes, Secured m.before x := by
  obtain ⟨path,last⟩ := detailedPath s clients (w := settled d x t) rfl moves
  refine ⟨last ▸ pathReferenced start path,fun m mem => ?_⟩
  obtain ⟨a,b,split⟩ := List.append_of_mem mem
  rw [split] at path
  exact secured start path

def reservingTwice (j : Nat) : Option Client :=
  if j < 2 then some (.bearer (sampleId 2).text (.createReservation (sampleId 3).text)) else none

theorem shelfReferenced (copies : Int) : Referenced (sampleShelf copies) where
  authors b mem := ⟨sampleAuthor,by cases List.mem_singleton.mp mem; rfl⟩
  borrowers _ mem := absurd mem List.not_mem_nil
  borrowed _ mem := absurd mem List.not_mem_nil
  readers _ mem := absurd mem List.not_mem_nil
  reserved _ mem := absurd mem List.not_mem_nil
  recipients _ mem := absurd mem List.not_mem_nil
  addressed _ mem := absurd mem List.not_mem_nil

theorem reservingTwiceSecured :
    let final := ((receive plainTokens (settled (sampleShelf 0) [] 0) reservingTwice).run (inTurn 80)).world
    Referenced final.db ∧ ∀ m ∈ final.history, ∀ x ∈ m.writes, Secured m.before x :=
  nothingDangles plainTokens reservingTwice [] 0 (inTurn 80) (shelfReferenced 0)

end Runs
end LibraryApi.ReferentialIntegrity
