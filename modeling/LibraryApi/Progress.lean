import LibraryApi.FairSchedules
import LibraryApi.LockOrder
import LibraryApi.Permanence
import LibraryApi.ServiceTexts

/-! No session waits for ever. A loan is locked before its book, and nothing after a book; only
the deletion of an author locks several books, all of them under the lock of their author, to
whom they belong for good. So no circle of sessions wait for one another, and a server that
gives every session its turn answers all of them. -/
namespace LibraryApi.Progress
open Models CacheService Repositories Requests Runs Controllers Security Api Application Permanence ServiceTexts
open Program (Uses Looks Climbs Hierarchy keyless climbsBind climbsLooks climbsKeyless usesBind usesPure usesSelect usesNow
  usesCall usesMono looksUses)

def lockOrder : Hierarchy Database RowKey where
  rank
    | .book _ => 1
    | _ => 0
  guard d
    | .book id => (d.books.find id.text).map fun b => .author b.authorId
    | _ => none
  top := 1
  bounded κ := by cases κ <;> simp

def Orderly {α : Type} (p : Service α) : Prop := ∀ d, Climbs lockOrder Kept (fun _ _ _ _ => True) p [] [] d

section Rules
variable {α β : Type} {ok : α → List RowKey → List Write → Database → Prop} {held : List RowKey} {pending : List Write} {d : Database}

theorem notesKeyless {p : Service α} (h : Uses notes p) : Uses (keyless Database) p := by
  refine usesMono (fun x noted => ?_) h
  cases x with
  | lock => exact noted
  | commit => trivial
  | write x =>
    cases x with
    | insertNotification n => rfl
    | _ => exact noted.elim

theorem tailClimbs {p : Service α} (h : Uses (keyless Database) p) : Climbs lockOrder Kept (fun _ _ _ _ => True) p held pending d :=
  climbsKeyless h fun _ _ _ _ => trivial

theorem orderlyThen {p : Service α} {f : α → Service β} (looks : Looks p) (rest : ∀ a, Orderly (f a)) : Orderly (p >>= f) :=
  fun _ => climbsBind (climbsLooks (R := Kept) keptRefl keptTrans looks fun a d' _ => rest a d')

theorem orderlyLooks {p : Service α} (looks : Looks p) : Orderly p := fun _ => tailClimbs (looksUses looks)

theorem orderlyFound {query : Database → Option α} {e : ApiError} {f : α → Service β}
    (rest : ∀ d row, query d = some row → Climbs lockOrder Kept (fun _ _ _ _ => True) (f row) [] [] d) :
    Orderly (do let row ← require e (← Program.select query); f row) := by
  intro _ d _
  rw [Program.viewNil]
  cases found : query d with
  | none => trivial
  | some row => exact rest d row found

theorem orderlyFind {query : Database → Option α} {e : ApiError} {f : α → Service β} (rest : ∀ row, Orderly (f row)) :
    Orderly (do let row ← require e (← Program.select query); f row) := orderlyFound fun d row _ => rest row d

theorem orderlyRender {body : α → β} {p : Service α} (h : Orderly p) : Orderly (do return body (← p)) :=
  fun d => climbsBind (Program.climbsMono (fun _ _ _ _ _ => trivial) (h d))

theorem orderlyWrite {x : Write} {f : Unit → Service α} (tail : Uses (keyless Database) (f ())) :
    Orderly (Program.write x >>= fun _ => Program.commit >>= f) :=
  fun _ _ _ => ⟨fun _ _ => .inr (.inl nofun),fun _ _ _ _ => tailClimbs tail⟩

theorem orderlyUpdate {x : Write} {query : Database → α} {f : α → Service β} (tail : ∀ a, Uses (keyless Database) (f a)) :
    Orderly ((do Program.write x; Program.commit; Program.select query) >>= f) :=
  orderlyWrite (f := fun _ => Program.select query >>= f) (usesBind (usesSelect query) tail)

theorem lockedClimbs {query : Database → Option β} {key : β → RowKey} {e : ApiError} {f : β → Service α}
    (order : ∀ d row, lockOrder.inOrder d held (key row))
    (rest : ∀ row d, Climbs lockOrder Kept ok (f row) (key row :: held) pending d) :
    Climbs lockOrder Kept ok (do let row ← require e (← Program.lock query key); f row) held pending d := by
  intro d' _
  split
  · trivial
  · rename_i row _
    exact ⟨order d' row,rest row d'⟩

theorem refusedClimbs {bad : Prop} [Decidable bad] {e : ApiError} {f : Unit → Service α}
    (rest : Climbs lockOrder Kept ok (f ()) held pending d) : Climbs lockOrder Kept ok (refuse bad e >>= f) held pending d := by
  unfold refuse
  split
  · trivial
  · exact rest

theorem lookedClimbs {p : Service β} {f : β → Service α} (looks : Looks p)
    (rest : ∀ b d, Climbs lockOrder Kept ok (f b) held pending d) : Climbs lockOrder Kept ok (p >>= f) held pending d :=
  climbsBind (climbsLooks (R := Kept) keptRefl keptTrans looks fun b d' _ => rest b d')

theorem ownClimbs {x : Write} {f : Unit → Service α} (own : ∀ κ ∈ x.keys, κ ∈ held)
    (rest : ∀ d, Climbs lockOrder Kept ok (f ()) (x.keys ++ held) (pending ++ [x]) d) :
    Climbs lockOrder Kept ok (Program.write x >>= f) held pending d :=
  fun d' _ => ⟨fun κ mem => .inl (own κ mem),rest d'⟩

theorem committedClimbs {f : Unit → Service α} (tail : Uses (keyless Database) (f ())) :
    Climbs lockOrder Kept (fun _ _ _ _ => True) (Program.commit >>= f) held pending d :=
  fun _ _ _ _ => tailClimbs tail

theorem bookKeys {l c : BookModel} {κ : RowKey} (mem : κ ∈ (Write.updateBook l c).keys) : κ = .book l.id := by
  simp only [Write.keys] at mem
  split at mem
  · contradiction
  · exact List.mem_singleton.mp mem

theorem loanKeys {l c : LoanModel} {κ : RowKey} (mem : κ ∈ (Write.updateLoan l c).keys) : κ = .loan l.id := by
  simp only [Write.keys] at mem
  split at mem
  · contradiction
  · exact List.mem_singleton.mp mem

end Rules

section Authors
variable {α : Type} {author : AuthorModel} {held : List RowKey} {pending : List Write} {d d' : Database}

theorem guardKept (kept : Kept d d') {κ g : RowKey} (guard : lockOrder.guard d κ = some g) : lockOrder.guard d' κ = some g := by
  cases κ with
  | book id =>
    obtain ⟨b,found,rfl⟩ := Option.map_eq_some_iff.mp guard
    obtain ⟨b',found',same⟩ := kept.books _ b found
    exact Option.map_eq_some_iff.mpr ⟨b',found',by rw [same.authorId]⟩
  | _ => contradiction

theorem guardRank {κ g : RowKey} (guard : lockOrder.guard d κ = some g) : lockOrder.rank κ = 1 := by
  cases κ with
  | book id => rfl
  | _ => contradiction

structure Guarding (author : AuthorModel) (d : Database) (held : List RowKey) : Prop where
  own : .author author.id ∈ held
  others : ∀ κ ∈ held, κ = .author author.id ∨ lockOrder.guard d κ = some (.author author.id)

theorem guardingKept (kept : Kept d d') (h : Guarding author d held) : Guarding author d' held :=
  ⟨h.own,fun κ mem => (h.others κ mem).imp_right (guardKept kept)⟩

theorem guardedOrder (h : Guarding author d held) {κ : RowKey} (guard : lockOrder.guard d κ = some (.author author.id)) :
    lockOrder.inOrder d held κ := by
  refine .inr (.inr ⟨_,h.own,guard,fun κ' mem => ?_⟩)
  have high := guardRank guard
  rcases h.others κ' mem with rfl | guard'
  · left
    rw [high]
    exact Nat.zero_lt_one
  · right
    exact ⟨by rw [guardRank guard',high],guard'⟩

theorem booksClimb {books : List Write} {f : Unit → Service α} (tail : Uses (keyless Database) (f ()))
    (each : ∀ x ∈ books, ∀ κ ∈ x.keys, lockOrder.guard d κ = some (.author author.id)) (h : Guarding author d held) :
    Climbs lockOrder Kept (fun _ _ _ _ => True) (AuthorRepository.writeAll books >>= fun _ => Program.commit >>= f) held pending d := by
  induction books generalizing held pending d with
  | nil => exact committedClimbs tail
  | cons x rest ih =>
    intro d' kept
    have here := guardingKept kept h
    have guards (κ) (mem : κ ∈ x.keys) : lockOrder.guard d' κ = some (.author author.id) :=
      guardKept kept (each x List.mem_cons_self κ mem)
    refine ⟨fun κ mem => guardedOrder here (guards κ mem),ih (fun y mem κ locked => ?_) ⟨?_,fun κ mem => ?_⟩⟩
    · exact guardKept kept (each y (List.mem_cons_of_mem _ mem) κ locked)
    · exact List.mem_append_right _ here.own
    · rcases List.mem_append.mp mem with new | old
      · exact .inr (guards κ new)
      · exact here.others κ old

theorem deleteAuthorOrderly (authorId : String) : Orderly (AuthorService.deleteAuthor authorId) := by
  refine orderlyFound fun d ⟨author,books⟩ row => ?_
  obtain ⟨_,found,same⟩ := Option.map_eq_some_iff.mp row
  cases same
  obtain ⟨_,active⟩ := Option.filter_eq_some_iff.mp found
  have changes : {author with isActive := false} ≠ author := fun same => by
    have off := congrArg AuthorModel.isActive same
    rw [active] at off
    contradiction
  have own : (Write.updateAuthor author {author with isActive := false}).keys ++ [] = [.author author.id] := by
    rw [List.append_nil]
    exact if_neg changes
  have guarding (d' : Database) : Guarding author d' ((Write.updateAuthor author {author with isActive := false}).keys ++ []) := by
    rw [own]
    exact ⟨List.mem_singleton_self _,fun κ mem => .inl (List.mem_singleton.mp mem)⟩
  show Climbs lockOrder Kept _ (AuthorRepository.softDelete author _ >>= fun _ => AuthorService.forgetBooks) [] [] d
  unfold AuthorRepository.softDelete
  rw [Program.bindBind]
  refine fun d' kept => ⟨fun _ _ => .inr (.inl nofun),booksClimb (f := fun _ => AuthorService.forgetBooks)
    (looksUses forgetBooksLooks) (fun x mem κ locked => ?_) (guarding d')⟩
  obtain ⟨b,inside,rfl⟩ := List.mem_map.mp mem
  obtain ⟨inside,_⟩ := List.mem_filter.mp inside
  obtain ⟨stored,written⟩ := List.mem_filter.mp inside
  rw [bookKeys locked]
  refine guardKept kept (Option.map_eq_some_iff.mpr ⟨b,KeyedTable.Table.findComplete stored,?_⟩)
  rw [eq_of_beq written]

end Authors

section Requests

theorem returnLoanOrderly (loanId : String) : Orderly (LoanService.returnLoan loanId) := by
  intro d
  refine lockedClimbs (fun _ _ => .inr (.inl nofun)) fun loan d => ?_
  refine lookedClimbs usesNow fun now d => refusedClimbs ?_
  refine lockedClimbs (fun _ _ => .inr (.inl ?_)) fun book d => ?_
  · exact List.forall_mem_singleton.mpr Nat.zero_lt_one
  refine ownClimbs (fun κ mem => by simp [bookKeys mem]) fun d => ownClimbs (fun κ mem => by simp [loanKeys mem]) fun d => ?_
  exact committedClimbs (usesBind (usesSelect _) fun _ => notesKeyless (loanTailNotes (usesPure _)))

theorem cancelLoanOrderly (loanId : String) : Orderly (LoanService.cancelLoan loanId) := by
  intro d
  refine lockedClimbs (fun _ _ => .inr (.inl nofun)) fun loan d => ?_
  refine lockedClimbs (fun _ _ => .inr (.inl ?_)) fun book d => lookedClimbs usesNow fun now d => ?_
  · exact List.forall_mem_singleton.mpr Nat.zero_lt_one
  refine ownClimbs (fun κ mem => by simp [bookKeys mem]) fun d => ownClimbs (fun κ mem => by simp [loanKeys mem]) fun d => ?_
  exact committedClimbs (usesBind (usesSelect _) fun _ => notesKeyless (loanTailNotes (usesPure _)))

theorem createLoanOrderly (data : LoanService.CreateLoanSchema) : Orderly (LoanService.createLoan data) := by
  refine orderlyFind fun user => orderlyThen (usesSelect _) fun active => orderlyThen (refuseLooks _ _) fun _ d => ?_
  refine lockedClimbs (fun _ _ => .inr (.inl nofun)) fun book d => refusedClimbs (lookedClimbs usesNow fun now d => ?_)
  refine ownClimbs (fun κ mem => by simp [bookKeys mem]) fun d => ?_
  refine lookedClimbs (usesCall _) fun id d => lookedClimbs usesNow fun createdAt d => ?_
  refine ownClimbs nofun fun d => lookedClimbs (usesSelect _) fun created d => ?_
  exact committedClimbs (usesBind (usesSelect _) fun _ => notesKeyless (loanTailNotes (serializeLooks _)))

theorem lockedUpdateClimbs {α : Type} {loan changed : LoanModel} {f : LoanModel → Service α} {d : Database}
    (tail : ∀ l, Uses (keyless Database) (f l)) :
    Climbs lockOrder Kept (fun _ _ _ _ => True) (LoanRepository.update loan changed >>= f) [.loan loan.id] [] d :=
  ownClimbs (f := fun _ => (do Program.commit; LoanRepository.refresh changed) >>= f) (fun κ mem => by simp [loanKeys mem])
    fun _ => committedClimbs (f := fun _ => LoanRepository.refresh changed >>= f) (usesBind (usesSelect _) tail)

theorem payFineOrderly (loanId : String) : Orderly (LoanService.payFine loanId) := by
  intro d
  refine lockedClimbs (fun _ _ => .inr (.inl nofun)) fun loan d => lookedClimbs usesNow fun now d => ?_
  refine refusedClimbs (refusedClimbs (lockedUpdateClimbs fun _ => ?_))
  exact usesBind (looksUses (invalidateLooks _ _)) fun _ => usesPure _

theorem renewLoanOrderly (loanId : String) : Orderly (LoanService.renewLoan loanId) := by
  intro d
  refine lockedClimbs (fun _ _ => .inr (.inl nofun)) fun loan d => lookedClimbs usesNow fun now d => ?_
  refine refusedClimbs (refusedClimbs (lookedClimbs (usesSelect _) fun reserved d => refusedClimbs ?_))
  exact lockedUpdateClimbs fun _ => usesPure _

theorem updateLoanOrderly (loanId : String) (data : LoanService.UpdateLoanSchema) : Orderly (LoanService.updateLoan loanId data) := by
  have checked (loan : LoanModel) : Looks (LoanService.dueDateChecked loan data.dueDate) := by
    unfold LoanService.dueDateChecked
    split
    · exact usesPure _
    · exact Program.usesRaise _
    · exact usesBind (refuseLooks _ _) fun _ => usesPure _
  refine orderlyFind fun loan => orderlyThen (refuseLooks _ _) fun _ => orderlyThen (checked loan) fun changed => ?_
  exact orderlyUpdate fun _ => usesBind (looksUses (invalidateLooks _ _)) fun _ => looksUses (serializeLooks _)

theorem createReservationOrderly (bookId userId : String) : Orderly (ReservationService.createReservation bookId userId) := by
  refine orderlyFind fun _ => orderlyFind fun ⟨_,_⟩ => orderlyThen (refuseLooks _ _) fun _ => ?_
  refine orderlyThen (usesSelect _) fun _ => orderlyThen (uniqueLooks _) fun _ => orderlyThen (refuseLooks _ _) fun _ => ?_
  refine orderlyThen (usesCall _) fun _ => orderlyThen usesNow fun _ => orderlyWrite (usesBind (usesSelect _) fun _ => ?_)
  exact usesBind usesNow fun _ => usesBind (notesKeyless (publishNotes _)) fun _ => usesPure _

theorem cancelLoadedOrderly (row : ReservationModel) : Orderly (ReservationService.cancelLoaded row) := by
  refine orderlyThen (refuseLooks _ _) fun _ => orderlyThen usesNow fun _ => ?_
  exact orderlyUpdate fun _ => usesBind usesNow fun _ => usesBind (notesKeyless (publishNotes _)) fun _ => usesPure _

theorem userStoreOrderly (loaded current : UserModel) : Orderly (UserRepository.update loaded current) :=
  orderlyWrite (f := fun _ => Program.select _) (usesSelect _)

theorem handleOrderly (r : Request) : Orderly (handle r) := by
  cases r with
  | createBook data =>
    refine orderlyRender (orderlyThen (usesSelect _) fun _ => orderlyThen (uniqueLooks _) fun _ => ?_)
    refine orderlyThen (refuseLooks _ _) fun _ => orderlyFind fun _ => orderlyThen (usesCall _) fun _ => ?_
    refine orderlyThen usesNow fun _ => orderlyWrite (usesBind (usesSelect _) fun _ => ?_)
    exact usesBind (looksUses (deletePatternLooks _)) fun _ => usesPure _
  | updateBook bookId data =>
    refine orderlyRender (orderlyFind fun ⟨_,_⟩ => orderlyThen (refuseLooks _ _) fun _ => orderlyUpdate fun _ => ?_)
    exact usesBind (looksUses (forgetBookLooks _)) fun _ => usesPure _
  | deleteBook bookId => exact orderlyRender (orderlyFind fun ⟨_,_⟩ => orderlyWrite (f := fun _ => _) (looksUses (forgetBookLooks _)))
  | getBook bookId => exact orderlyRender (orderlyLooks (getBookLooks bookId))
  | listBooks page filters => exact orderlyRender (orderlyLooks (listBooksLooks page filters))
  | createAuthor data =>
    refine orderlyRender (orderlyThen (usesCall _) fun _ => orderlyThen usesNow fun _ => ?_)
    exact orderlyWrite (f := fun _ => Program.select _) (usesSelect _)
  | updateAuthor authorId data =>
    refine orderlyRender (orderlyFind fun _ => orderlyUpdate fun _ => ?_)
    exact usesBind (looksUses forgetBooksLooks) fun _ => usesPure _
  | deleteAuthor authorId => exact orderlyRender (deleteAuthorOrderly authorId)
  | createUser data =>
    refine orderlyRender (orderlyThen (usesSelect _) fun _ => orderlyThen (uniqueLooks _) fun _ => ?_)
    refine orderlyThen (refuseLooks _ _) fun _ => orderlyThen (usesCall _) fun _ => orderlyThen (usesCall _) fun _ => ?_
    exact orderlyThen usesNow fun _ => orderlyWrite (f := fun _ => Program.select _) (usesSelect _)
  | updateUser userId name => exact orderlyRender (orderlyThen (findLooks _ _) fun _ => userStoreOrderly _ _)
  | updateRole userId role => exact orderlyRender (orderlyThen (findLooks _ _) fun _ => userStoreOrderly _ _)
  | deleteUser userId => exact orderlyRender (orderlyThen (findLooks _ _) fun _ => orderlyRender (userStoreOrderly _ _))
  | createReservation bookId userId => exact orderlyRender (createReservationOrderly bookId userId)
  | cancelReservation reservationId => exact orderlyRender (orderlyFind fun _ => cancelLoadedOrderly _)
  | createLoan data => exact orderlyRender (createLoanOrderly data)
  | returnLoan loanId => exact orderlyRender (returnLoanOrderly loanId)
  | cancelLoan loanId => exact orderlyRender (cancelLoanOrderly loanId)
  | renewLoan loanId => exact orderlyRender (renewLoanOrderly loanId)
  | payFine loanId => exact orderlyRender (payFineOrderly loanId)
  | updateLoan loanId data => exact orderlyRender (updateLoanOrderly loanId data)
  | getLoan loanId => exact orderlyRender (orderlyLooks (getLoanLooks loanId))
  | listLoans page filters => exact orderlyRender (orderlyLooks (listLoansLooks page filters))
  | listLoansByUser userId page status => exact orderlyRender (orderlyLooks (listLoansByUserLooks userId page status))

theorem workOrderly (r : Request) : Orderly (work r) := orderlyRender (handleOrderly r)

end Requests

section Sessions
variable {α : Type} {token : Token}

theorem userOrderly {f : UserModel → Service α} (rest : ∀ user, Orderly (f user)) : Orderly (getCurrentUser token >>= f) :=
  orderlyThen (currentUserLooks token) rest

theorem adminOnlyOrderly {p : Service α} (rest : Orderly p) : Orderly (LoanController.adminOnly p token) :=
  orderlyThen (currentAdminLooks token) fun _ => rest

theorem namedUserOrderly {proceed : UserModel → Service α} {userId : String} (rest : ∀ user, Orderly (proceed user)) :
    Orderly (UserController.namedUser proceed userId token) :=
  orderlyThen (currentAdminLooks token) fun _ => orderlyThen (findLooks _ _) fun _ => rest _

theorem ownLoanOrderly {message loanId : String} {proceed : String → Service α} (rest : Orderly (proceed loanId)) :
    Orderly (LoanController.ownLoan message proceed loanId token) := by
  refine userOrderly fun _ => orderlyThen (getLoanLooks loanId) fun loan => ?_
  exact orderlyThen (ownerLooks loan) fun _ => orderlyThen (refuseLooks _ _) fun _ => rest

theorem ownReservationOrderly {message reservationId : String} {proceed : ReservationModel → Service α}
    (rest : ∀ row, Orderly (proceed row)) :
    Orderly (Controllers.ReservationController.ownReservation message proceed reservationId token) :=
  userOrderly fun _ => orderlyThen (findLooks _ _) fun row => orderlyThen (refuseLooks _ _) fun _ => rest row

theorem endpointOrderly (e : Endpoint) : Orderly (e.serve token) := by
  cases e with
  | listLoans p f => exact orderlyRender (adminOnlyOrderly (orderlyLooks (listLoansLooks _ _)))
  | listActiveLoans p => exact orderlyRender (adminOnlyOrderly (orderlyLooks (listLoansLooks _ _)))
  | listOverdueLoans p => exact orderlyRender (adminOnlyOrderly (orderlyLooks (listLoansLooks _ _)))
  | listLoansByUser userId p status =>
    exact orderlyRender (userOrderly fun _ => orderlyThen (refuseLooks _ _) fun _ => orderlyLooks (listLoansByUserLooks _ _ _))
  | getLoan loanId => exact orderlyRender (ownLoanOrderly (orderlyLooks (getLoanLooks _)))
  | updateLoan loanId data => exact orderlyRender (adminOnlyOrderly (updateLoanOrderly _ _))
  | createLoan data => exact orderlyRender (adminOnlyOrderly (createLoanOrderly _))
  | cancelLoan loanId => exact orderlyRender (ownLoanOrderly (cancelLoanOrderly _))
  | payLoanFine loanId => exact orderlyRender (ownLoanOrderly (payFineOrderly _))
  | returnLoan loanId => exact orderlyRender (ownLoanOrderly (returnLoanOrderly _))
  | renewLoan loanId => exact orderlyRender (ownLoanOrderly (renewLoanOrderly _))
  | listReservations p f =>
    exact orderlyRender (userOrderly fun _ => orderlyThen (refuseLooks _ _) fun _ => orderlyLooks (reservationsLooks _ _))
  | getReservation reservationId => exact orderlyRender (ownReservationOrderly fun _ => orderlyLooks (usesPure _))
  | cancelReservation reservationId => exact orderlyRender (ownReservationOrderly fun _ => orderlyFind fun _ => cancelLoadedOrderly _)

theorem routeOrderly (s : Deployment) (r : Route) : Orderly (r.serve s token) := by
  have works {a : Request} : Orderly (LoanController.adminOnly (work a) token) := adminOnlyOrderly (workOrderly a)
  cases r with
  | listUsers page => exact orderlyRender (adminOnlyOrderly (orderlyLooks (usersLooks page)))
  | me => exact orderlyRender (orderlyLooks (currentUserLooks token))
  | getUser userId => exact orderlyRender (namedUserOrderly fun _ => orderlyLooks (usesPure _))
  | updateUser userId name => exact orderlyRender (namedUserOrderly fun _ => userStoreOrderly _ _)
  | deleteUser userId => exact orderlyRender (namedUserOrderly fun _ => userStoreOrderly _ _)
  | updateUserRole userId role => exact orderlyRender (namedUserOrderly fun _ => userStoreOrderly _ _)
  | createAuthor data => exact works
  | updateAuthor authorId data => exact works
  | deleteAuthor authorId => exact works
  | createBook data => exact works
  | updateBook bookId data => exact works
  | deleteBook bookId => exact works
  | createReservation bookId => exact orderlyRender (userOrderly fun _ => createReservationOrderly _ _)
  | listNotifications page userId =>
    exact orderlyRender (adminOnlyOrderly (orderlyLooks (usesBind (rowsLooks _ _) fun _ => usesPure _)))
  | runDueLoansJob => exact orderlyRender (adminOnlyOrderly fun _ => tailClimbs (notesKeyless (executeNotes _)))
  | getStats startDate endDate => exact orderlyRender (adminOnlyOrderly (orderlyLooks (statsLooks _ _)))
  | exportLoansCsv status userId bookId startDate endDate =>
    exact orderlyRender (adminOnlyOrderly (orderlyLooks (usesBind (executeLooks _) fun _ => usesPure _)))
  | exportFinesPdf userId bookId minAmount startDate endDate =>
    exact orderlyRender (adminOnlyOrderly (orderlyLooks (usesBind (executeLooks _) fun _ => usesPure _)))
  | endpoint e => exact orderlyRender (endpointOrderly e)

theorem clientOrderly (s : Deployment) (client : Client) : Orderly (client.serve s) := by
  cases client with
  | scheduler => exact orderlyRender fun _ => tailClimbs (notesKeyless (executeNotes _))
  | bearer credentials r => exact orderlyThen (decodeLooks s credentials) fun token => routeOrderly s r
  | anonymous r =>
    cases r with
    | createUser data => exact workOrderly _
    | login data => exact orderlyRender (orderlyLooks (loginLooks s data))
    | listAuthors page => exact orderlyRender (orderlyLooks (authorsLooks page))
    | getAuthor authorId => exact orderlyRender (orderlyLooks (findLooks _ _))
    | listBooks page filters => exact workOrderly _
    | getBook bookId => exact workOrderly _

end Sessions

section Runs
variable {s : Deployment} {clients : Nat → Option Client} {d : Database} {x : Cache} {t : Int}

theorem startClimbing (s : Deployment) (clients : Nat → Option Client) (d : Database) (x : Cache) (t : Int) :
    Program.Climbing lockOrder Kept (receive s (settled d x t) clients) := by
  refine ⟨fun j thread found => ?_,fun _ _ _ => nofun⟩
  obtain ⟨p,made,rfl⟩ := Option.map_eq_some_iff.mp found
  obtain ⟨client,_,rfl⟩ := Option.map_eq_some_iff.mp made
  exact ⟨[],fun _ => iff_of_false nofun List.not_mem_nil,clientOrderly s client d⟩

theorem climbing (s : Deployment) (clients : Nat → Option Client) (d : Database) (x : Cache) (t : Int) (moves : Moves) :
    Program.Climbing lockOrder Kept ((receive s (settled d x t) clients).run moves) := by
  refine Program.runClimbing (R := Kept) keptRefl keptTrans (Program.withinRun fun a m => ?_) (startClimbing s clients d x t)
  exact nothingLost s clients d x t a [m]

/-- In every state that any sessions can reach, whoever has no answer yet can make its next
step, or waits in a chain of sessions for one that can. -/
theorem noDeadlock (s : Deployment) (clients : Nat → Option Client) (d : Database) (x : Cache) (t : Int) (moves : Moves) (i : Nat) :
    let pool := (receive s (settled d x t) clients).run moves
    (∀ p pending, pool.pool i ≠ some (.running p pending)) ∨
      ∃ j, Relation.ReflTransGen (Program.WaitsFor pool) i j ∧ Program.Movable pool j := by
  by_cases busy : ∃ p pending, ((receive s (settled d x t) clients).run moves).pool i = some (.running p pending)
  · obtain ⟨p,pending,here⟩ := busy
    exact .inr (Program.someMovable (R := Kept) keptRefl (climbing s clients d x t moves) here)
  · exact .inl fun p pending here => busy ⟨p,pending,here⟩

/-- Finitely many sessions that get their turns again and again have all ended at some time. -/
theorem allAnswered {n : Nat} (s : Deployment) {clients : Nat → Option Client} (d : Database) (x : Cache) (t : Int)
    (few : ∀ j, n ≤ j → clients j = none) {schedule : Nat → Nat × Program.Env Answer}
    (fair : Program.Fairly (receive s (settled d x t) clients) schedule) :
    ∃ k, ∀ l, k ≤ l → ((receive s (settled d x t) clients).after schedule l).done := by
  refine Program.fairlyDone (n := n) (fun j high => ?_) fair fun k => ?_
  · show ((clients j).map (Client.serve s)).map _ = none
    rw [few j high]
    rfl
  · by_cases done : ((receive s (settled d x t) clients).after schedule k).done
    · exact .inl done
    · simp only [Program.State.done,not_forall,not_not] at done
      obtain ⟨i,p,pending,here⟩ := done
      obtain ⟨j,_,moves⟩ := Program.someMovable (R := Kept) keptRefl (climbing s clients d x t _) here
      exact .inr ⟨j,moves⟩

theorem returningTwiceAnswered : ∃ k, ∀ l, k ≤ l →
    ((receive plainTokens (settled lentOnce.db lentOnce.ext lentOnce.clock) returningTwice).after (fun n => (n % 2,tick 5)) l).done := by
  refine allAnswered plainTokens lentOnce.db lentOnce.ext lentOnce.clock (n := 2) (fun j high => ?_) fun j there n => ?_
  · exact if_neg (by omega)
  · have low : j < 2 := by
      by_contra high
      have absent : returningTwice j = none := if_neg high
      simp [receive,Program.start,absent] at there
    exact ⟨2 * n + j,by omega,by simp only; omega⟩

end Runs
end LibraryApi.Progress
