import LibraryApi.CarriedRows
import LibraryApi.Application

/-! Nothing stored is lost. Whatever the sessions do, every row stays, and the columns that
identify it, date it or tie it to other rows stay as they were; what was deactivated, closed
or cancelled is so for good, and a notification is never taken back. -/
namespace LibraryApi.Permanence
open Models CacheService Requests Effects Runs LoanHistory Security Api Application
open KeyedTable.Table (Carried carriedRefl carriedTrans carriedInsert carriedModify)
open Program (execAll stateAfter pathRelated)

section Rows

structure UserKept (u u' : UserModel) : Prop where
  email : u'.email = u.email
  password : u'.password = u.password
  createdAt : u'.createdAt = u.createdAt
  gone : u.isActive = false → u'.isActive = false

structure AuthorKept (a a' : AuthorModel) : Prop where
  createdAt : a'.createdAt = a.createdAt
  gone : a.isActive = false → a'.isActive = false

structure BookKept (b b' : BookModel) : Prop where
  isbn : b'.isbn = b.isbn
  authorId : b'.authorId = b.authorId
  createdAt : b'.createdAt = b.createdAt
  gone : b.isActive = false → b'.isActive = false

structure LoanKept (l l' : LoanModel) : Prop where
  userId : l'.userId = l.userId
  bookId : l'.bookId = l.bookId
  loanDate : l'.loanDate = l.loanDate
  createdAt : l'.createdAt = l.createdAt
  renewals : l.renewalCount ≤ l'.renewalCount
  payments : l.finePaidAmount ≤ l'.finePaidAmount
  closed : l.status ≠ .active → l' = {l with dueDate := l'.dueDate}

structure ReservationKept (r r' : ReservationModel) : Prop where
  userId : r'.userId = r.userId
  bookId : r'.bookId = r.bookId
  createdAt : r'.createdAt = r.createdAt
  fulfilledAt : r'.fulfilledAt = r.fulfilledAt
  cancelled : r.status = .cancelled → r'.status = .cancelled
  moves : r'.status = r.status ∨ r'.status = .cancelled

structure Kept (d d' : Database) : Prop where
  users : Carried UserKept d.users d'.users
  authors : Carried AuthorKept d.authors d'.authors
  books : Carried BookKept d.books d'.books
  loans : Carried LoanKept d.loans d'.loans
  reservations : Carried ReservationKept d.reservations d'.reservations
  notifications : d.notifications <+: d'.notifications

theorem userRefl (u : UserModel) : UserKept u u := ⟨rfl,rfl,rfl,id⟩
theorem authorRefl (a : AuthorModel) : AuthorKept a a := ⟨rfl,id⟩
theorem bookRefl (b : BookModel) : BookKept b b := ⟨rfl,rfl,rfl,id⟩
theorem loanRefl (l : LoanModel) : LoanKept l l := ⟨rfl,rfl,rfl,rfl,Int.le_refl _,Int.le_refl _,fun _ => rfl⟩
theorem reservationRefl (r : ReservationModel) : ReservationKept r r := ⟨rfl,rfl,rfl,rfl,id,.inl rfl⟩

theorem userTrans {a b c : UserModel} (left : UserKept a b) (right : UserKept b c) : UserKept a c :=
  ⟨right.email.trans left.email,right.password.trans left.password,right.createdAt.trans left.createdAt,right.gone ∘ left.gone⟩

theorem authorTrans {a b c : AuthorModel} (left : AuthorKept a b) (right : AuthorKept b c) : AuthorKept a c :=
  ⟨right.createdAt.trans left.createdAt,right.gone ∘ left.gone⟩

theorem bookTrans {a b c : BookModel} (left : BookKept a b) (right : BookKept b c) : BookKept a c :=
  ⟨right.isbn.trans left.isbn,right.authorId.trans left.authorId,right.createdAt.trans left.createdAt,right.gone ∘ left.gone⟩

theorem loanTrans {a b c : LoanModel} (left : LoanKept a b) (right : LoanKept b c) : LoanKept a c := by
  refine ⟨right.userId.trans left.userId,right.bookId.trans left.bookId,right.loanDate.trans left.loanDate,
    right.createdAt.trans left.createdAt,Int.le_trans left.renewals right.renewals,Int.le_trans left.payments right.payments,
    fun closed => ?_⟩
  have same := left.closed closed
  have still : b.status ≠ .active := by rw [same]; exact closed
  rw [right.closed still,same]

theorem reservationTrans {a b c : ReservationModel} (left : ReservationKept a b) (right : ReservationKept b c) :
    ReservationKept a c := by
  refine ⟨right.userId.trans left.userId,right.bookId.trans left.bookId,right.createdAt.trans left.createdAt,
    right.fulfilledAt.trans left.fulfilledAt,right.cancelled ∘ left.cancelled,?_⟩
  rcases right.moves with same | off
  · rw [same]; exact left.moves
  · exact .inr off

theorem keptRefl (d : Database) : Kept d d :=
  ⟨carriedRefl userRefl _,carriedRefl authorRefl _,carriedRefl bookRefl _,carriedRefl loanRefl _,
    carriedRefl reservationRefl _,List.prefix_rfl⟩

theorem keptTrans {a b c : Database} (left : Kept a b) (right : Kept b c) : Kept a c :=
  ⟨carriedTrans (R := UserKept) userTrans left.users right.users,carriedTrans (R := AuthorKept) authorTrans left.authors right.authors,
    carriedTrans (R := BookKept) bookTrans left.books right.books,carriedTrans (R := LoanKept) loanTrans left.loans right.loans,
    carriedTrans (R := ReservationKept) reservationTrans left.reservations right.reservations,left.notifications.trans right.notifications⟩

end Rows

section Writes
variable {d d' : Database} {x : Write}

def mild : Write → Prop
  | .updateUser l c => c.email = l.email ∧ c.password = l.password ∧ c.createdAt = l.createdAt ∧
      (c.isActive = l.isActive ∨ c.isActive = false)
  | .updateAuthor l c => c.createdAt = l.createdAt ∧ (c.isActive = l.isActive ∨ c.isActive = false)
  | .updateBook l c => c.isbn = l.isbn ∧ c.authorId = l.authorId ∧ c.createdAt = l.createdAt ∧
      (c.isActive = l.isActive ∨ c.isActive = false)
  | .updateReservation l c => c.userId = l.userId ∧ c.bookId = l.bookId ∧ c.createdAt = l.createdAt ∧
      c.fulfilledAt = l.fulfilledAt ∧ (c.status = l.status ∨ c.status = .cancelled)
  | _ => True

theorem flushedDown {l c stored : Bool} (down : c = l ∨ c = false) (gone : stored = false) : flushed l c stored = false := by
  unfold flushed
  split
  · exact gone
  · rename_i other; exact down.resolve_left other

structure Others (d d' : Database) : Prop where
  users : Carried UserKept d.users d'.users
  authors : Carried AuthorKept d.authors d'.authors
  books : Carried BookKept d.books d'.books
  reservations : Carried ReservationKept d.reservations d'.reservations
  notifications : d.notifications <+: d'.notifications

theorem othersRefl (d : Database) : Others d d :=
  ⟨carriedRefl userRefl _,carriedRefl authorRefl _,carriedRefl bookRefl _,carriedRefl reservationRefl _,List.prefix_rfl⟩

theorem othersTrans {a b c : Database} (left : Others a b) (right : Others b c) : Others a c :=
  ⟨carriedTrans (R := UserKept) userTrans left.users right.users,
    carriedTrans (R := AuthorKept) authorTrans left.authors right.authors,
    carriedTrans (R := BookKept) bookTrans left.books right.books,
    carriedTrans (R := ReservationKept) reservationTrans left.reservations right.reservations,
    left.notifications.trans right.notifications⟩

theorem mildUser {l c : UserModel} (h : mild (.updateUser l c)) (stored : UserModel) : UserKept stored (l.flush c stored) := by
  obtain ⟨email,password,createdAt,down⟩ := h
  exact ⟨by simp [UserModel.flush,email],by simp [UserModel.flush,password],by simp [UserModel.flush,createdAt],flushedDown down⟩

theorem mildAuthor {l c : AuthorModel} (h : mild (.updateAuthor l c)) (stored : AuthorModel) :
    AuthorKept stored (l.flush c stored) :=
  ⟨by simp [AuthorModel.flush,h.1],flushedDown h.2⟩

theorem mildBook {l c : BookModel} (h : mild (.updateBook l c)) (stored : BookModel) : BookKept stored (l.flush c stored) := by
  obtain ⟨isbn,authorId,createdAt,down⟩ := h
  exact ⟨by simp [BookModel.flush,isbn],by simp [BookModel.flush,authorId],by simp [BookModel.flush,createdAt],flushedDown down⟩

theorem mildReservation {l c : ReservationModel} (h : mild (.updateReservation l c)) (stored : ReservationModel) :
    ReservationKept stored (l.flush c stored) := by
  obtain ⟨userId,bookId,createdAt,fulfilledAt,down⟩ := h
  have moves : (l.flush c stored).status = stored.status ∨ (l.flush c stored).status = .cancelled := by
    simp only [ReservationModel.flush,flushed]
    split
    · exact .inl rfl
    · rename_i other; exact .inr (down.resolve_left other)
  refine ⟨by simp [ReservationModel.flush,userId],by simp [ReservationModel.flush,bookId],
    by simp [ReservationModel.flush,createdAt],by simp [ReservationModel.flush,fulfilledAt],fun off => ?_,moves⟩
  rcases moves with same | off'
  · exact same.trans off
  · exact off'

theorem mildOthers (h : mild x) (ran : x.exec d = .ok d') : Others d d' := by
  have plain := othersRefl d
  cases x with
  | insertUser row =>
    obtain ⟨_,_,added,rfl⟩ := Database.insertUserRan ran
    exact {plain with users := carriedInsert userRefl added}
  | insertAuthor row =>
    obtain ⟨_,added,rfl⟩ := Database.insertAuthorRan ran
    exact {plain with authors := carriedInsert authorRefl added}
  | insertBook row =>
    obtain ⟨_,_,added,rfl⟩ := Database.insertBookRan ran
    exact {plain with books := carriedInsert bookRefl added}
  | insertLoan row =>
    obtain ⟨_,added,rfl⟩ := Database.insertLoanRan ran
    exact {plain with}
  | insertReservation row =>
    obtain ⟨_,added,rfl⟩ := Database.insertReservationRan ran
    exact {plain with reservations := carriedInsert reservationRefl added}
  | insertNotification row => cases ran; exact {plain with notifications := List.prefix_append _ _}
  | updateUser l c => obtain rfl := Database.updateUserRan ran; exact {plain with users := carriedModify userRefl (l.flush c) (fun _ => rfl) (mildUser h)}
  | updateAuthor l c => obtain rfl := Database.updateAuthorRan ran; exact {plain with authors := carriedModify authorRefl (l.flush c) (fun _ => rfl) (mildAuthor h)}
  | updateBook l c => obtain rfl := Database.updateBookRan ran; exact {plain with books := carriedModify bookRefl (l.flush c) (fun _ => rfl) (mildBook h)}
  | updateLoan l c => cases ran; exact {plain with}
  | updateReservation l c =>
    cases ran; exact {plain with reservations := carriedModify reservationRefl (l.flush c) (fun _ => rfl) (mildReservation h)}

end Writes

section Commits
variable {seen : Seen} {own : Log} {before after : Database} {r : Request} {writes : List Write}

theorem effectMild (e : Effect seen own before r writes) : ∀ x ∈ writes, mild x := by
  cases e with
  | updateBook =>
    refine List.forall_mem_singleton.mpr ?_
    unfold BookService.updated
    split <;> exact ⟨rfl,rfl,rfl,.inl rfl⟩
  | deleteBook => exact List.forall_mem_singleton.mpr ⟨rfl,rfl,rfl,.inr rfl⟩
  | updateAuthor => exact List.forall_mem_singleton.mpr ⟨rfl,.inl rfl⟩
  | deleteAuthor =>
    refine List.forall_mem_cons.mpr ⟨⟨rfl,.inr rfl⟩,fun x mem => ?_⟩
    obtain ⟨b,_,rfl⟩ := List.mem_map.mp mem
    exact ⟨rfl,rfl,rfl,.inr rfl⟩
  | updateUser =>
    refine List.forall_mem_singleton.mpr ?_
    unfold UserService.renamed
    split
    · exact ⟨rfl,rfl,rfl,.inl rfl⟩
    · split <;> exact ⟨rfl,rfl,rfl,.inl rfl⟩
  | updateRole => exact List.forall_mem_singleton.mpr ⟨rfl,rfl,rfl,.inl rfl⟩
  | deleteUser => exact List.forall_mem_singleton.mpr ⟨rfl,rfl,rfl,.inr rfl⟩
  | cancelReservation => exact List.forall_mem_singleton.mpr ⟨rfl,rfl,rfl,rfl,.inr rfl⟩
  | createLoan => exact List.forall_mem_cons.mpr ⟨⟨rfl,rfl,rfl,.inl rfl⟩,List.forall_mem_singleton.mpr trivial⟩
  | returnLoan => exact List.forall_mem_cons.mpr ⟨⟨rfl,rfl,rfl,.inl rfl⟩,List.forall_mem_singleton.mpr trivial⟩
  | cancelLoan => exact List.forall_mem_cons.mpr ⟨⟨rfl,rfl,rfl,.inl rfl⟩,List.forall_mem_singleton.mpr trivial⟩
  | _ => exact List.forall_mem_singleton.mpr trivial

theorem stepKept {k : String} {l l' : LoanModel} (step : LoanStep seen k l r l') : LoanKept l l' := by
  have plain := loanRefl l
  have open_ {c : LoanModel} (active : l.status = .active) (closed : l.status ≠ .active) : c = {l with dueDate := c.dueDate} :=
    absurd active closed
  cases step with
  | kept => exact plain
  | returned active => exact {plain with closed := open_ active}
  | cancelled active => exact {plain with closed := open_ active}
  | renewed active => exact {plain with renewals := by simp [LoanService.renewed], closed := open_ active}
  | paid active _ owed => exact {plain with payments := Int.le_of_lt owed, closed := open_ active}
  | rescheduled => exact {plain with closed := fun _ => rfl}

theorem effectKept (e : Effect seen own before r writes) (ran : execAll writes before = .ok after) : Kept before after := by
  have others : Others before after := Program.execAllKeeps (R := Others) othersRefl othersTrans
    (fun x mem _ _ => mildOthers (effectMild e x mem)) ran
  refine ⟨others.users,others.authors,others.books,fun k l found => ?_,others.reservations,others.notifications⟩
  obtain ⟨l',found',step⟩ := loanStep e ran found
  exact ⟨l',found',stepKept step⟩

theorem deedKept {task : Task} (e : Deed seen own before task writes) (ran : execAll writes before = .ok after) :
    Kept before after := by
  cases task with
  | request r => exact effectKept e ran
  | reminders =>
    obtain ⟨_,_,_⟩ := e
    cases ran
    exact {keptRefl before with notifications := List.prefix_append _ _}

end Commits

section Runs
variable {s : Deployment} {clients : Nat → Option Client} {d : Database} {t : Int} {h later : Log}

theorem commitKept {m : Commit} (path : SystemPath s clients d t (m :: h)) : Kept m.before m.after := by
  cases path with
  | commit _ _ ran _ allowed =>
    obtain ⟨_,_,_,done⟩ := allowed
    exact deedKept done.deed ran

theorem pathKept (path : SystemPath s clients d t (later ++ h)) : Kept (stateAfter d h) (stateAfter d (later ++ h)) :=
  pathRelated keptRefl keptTrans commitKept path

theorem seenKept (path : SystemPath s clients d t h) {clock : Int} {P : Database → Int → Prop} (seen : Program.seenIn d t h clock P) :
    ∃ d₀ t₀, P d₀ t₀ ∧ Kept d₀ (stateAfter d h) := Program.seenRelated (R := Kept) keptRefl keptTrans commitKept path seen

/-- Whatever any sessions do, and in whatever order, between two points of a run nothing is
lost: every row is carried on, and every notification stays. -/
theorem nothingLost (s : Deployment) (clients : Nat → Option Client) (d : Database) (x : Cache) (t : Int) (a b : Moves) :
    Kept ((receive s (settled d x t) clients).run a).world.db ((receive s (settled d x t) clients).run (a ++ b)).world.db := by
  obtain ⟨_,last⟩ := systemPath s clients (w := settled d x t) rfl a
  obtain ⟨path,last'⟩ := systemPath s clients (w := settled d x t) rfl (a ++ b)
  obtain ⟨later,grown⟩ := Program.runGrows ((receive s (settled d x t) clients).run a) b
  rw [← Program.State.runAppend] at grown
  rw [last,last',← grown]
  rw [← grown] at path
  exact pathKept path

end Runs
end LibraryApi.Permanence
