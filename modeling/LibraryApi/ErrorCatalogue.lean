import LibraryApi.JointRules
import LibraryApi.OwnerRules
import LibraryApi.Permanence
import LibraryApi.ServiceExits

/-! The errors of the routes. Whatever sessions run at once, the exceptions that a handler answers
are those the text of the route names, and no lookup of an e-mail or an ISBN meets two rows: only
those of active reservations and of reminders can. What Redis, the database or a library refuses
is a 500 of any route. -/
namespace LibraryApi.ErrorCatalogue
open Models CacheService KeyedTable Repositories Requests Runs CacheRules OwnerRules ServiceExits Controllers Security Api
  Application Permanence
open LoanService (itemKey)
open Program (Raises Calls upholds upholdsBind upholdsMono upholdsRaises execAll stateAfter raisesWrite raisesCommit)

section Handlers

structure ErrorResponse where
  statusCode : Nat
  code : String
  message : String
  deriving DecidableEq

def businessExceptionHandler (code message : String) : ErrorResponse := ⟨400,code,message⟩
def notFoundExceptionHandler (message : String) : ErrorResponse := ⟨404,"NOT_FOUND",message⟩
def unauthorizedExceptionHandler (message : String) : ErrorResponse := ⟨401,"UNAUTHORIZED",message⟩

@[simp] def handled : ApiError → Option ErrorResponse
  | .businessRule message => some (businessExceptionHandler "BUSINESS_RULE_ERROR" message)
  | .finePaymentRequired => some (businessExceptionHandler "FINE_PAYMENT_REQUIRED"
      "A multa do empréstimo deve ser paga antes de devolver o livro")
  | .notFound message => some (notFoundExceptionHandler message)
  | .unauthorized message => some (unauthorizedExceptionHandler message)
  | _ => none

@[simp] def catalogued (e : ApiError) : Bool := (handled e).isSome || decide (e = .multipleResultsFound)

end Handlers

section Catalogue

def guardErrors : List ApiError :=
  [.unauthorized "Token expirado",.unauthorized "Token inválido",.notFound "Usuário não encontrado"]

def adminErrors : List ApiError := .unauthorized "Acesso de administrador obrigatório" :: guardErrors

def reservationErrors : List ApiError :=
  [.notFound "Usuário não encontrado",.notFound "Livro não encontrado",
    .businessRule "O livro está disponível e não precisa de reserva",.multipleResultsFound,
    .businessRule "O usuário já possui uma reserva ativa para este livro"]

/- A due date with an offset is not compared: it ends in a TypeError. -/
def dueDateErrors : Option LoanService.DateTime → List ApiError
  | some (.naive _) => [.businessRule "A data de vencimento deve ser maior que a data do empréstimo"]
  | _ => []

def requestErrors : Request → List ApiError
  | .createBook _ => [.businessRule "ISBN já cadastrado",.notFound "Autor não encontrado"]
  | .updateBook _ _ => [.notFound "Livro não encontrado",
      .businessRule "total_copies não pode ser menor que livros emprestados"]
  | .deleteBook _ => [.notFound "Livro não encontrado"]
  | .getBook _ => [.notFound "Livro não encontrado"]
  | .listBooks _ _ => []
  | .createAuthor _ => []
  | .updateAuthor _ _ => [.notFound "Autor não encontrado"]
  | .deleteAuthor _ => [.notFound "Autor não encontrado"]
  | .createUser _ => [.businessRule "E-mail já cadastrado"]
  | .updateUser _ _ => [.notFound "Usuário não encontrado"]
  | .updateRole _ _ => [.notFound "Usuário não encontrado"]
  | .deleteUser _ => [.notFound "Usuário não encontrado"]
  | .createReservation _ _ => reservationErrors
  | .cancelReservation _ => [.notFound "Reserva não encontrada",
      .businessRule "Apenas reservas ativas podem ser canceladas"]
  | .createLoan _ => [.notFound "Usuário não encontrado",
      .businessRule "Usuário atingiu o número máximo de empréstimos ativos",.notFound "Livro não encontrado",
      .businessRule "Livro indisponível"]
  | .returnLoan _ => [.notFound "Empréstimo ativo não encontrado",.finePaymentRequired,.notFound "Livro não encontrado"]
  | .cancelLoan _ => [.notFound "Empréstimo ativo não encontrado",.notFound "Livro não encontrado"]
  | .renewLoan _ => [.notFound "Empréstimo ativo não encontrado",
      .businessRule "Empréstimos em atraso não podem ser renovados",
      .businessRule "O empréstimo atingiu o número máximo de renovações",
      .businessRule "O empréstimo não pode ser renovado porque o livro possui reservas ativas"]
  | .payFine _ => [.notFound "Empréstimo ativo não encontrado",.businessRule "O empréstimo não possui multa a pagar",
      .businessRule "A multa do empréstimo já está paga"]
  | .updateLoan _ data => [.notFound "Empréstimo não encontrado",
      .businessRule "Apenas empréstimos ativos podem ser atualizados"] ++ dueDateErrors data.dueDate
  | .getLoan _ => [.notFound "Empréstimo não encontrado"]
  | .listLoans _ _ => []
  | .listLoansByUser _ _ _ => [.notFound "Usuário não encontrado"]

def ownLoanErrors (message : String) : List ApiError :=
  guardErrors ++ [.notFound "Empréstimo não encontrado",.unauthorized message]

def ownReservationErrors (message : String) : List ApiError :=
  guardErrors ++ [.notFound "Reserva não encontrada",.unauthorized message]

def endpointErrors : Endpoint → List ApiError
  | .listLoans page filters => adminErrors ++ requestErrors (.listLoans page filters)
  | .listLoansByUser userId page status => guardErrors ++
      (.unauthorized "Você só pode acessar seus próprios empréstimos" :: requestErrors (.listLoansByUser userId page status))
  | .updateLoan loanId data => adminErrors ++ requestErrors (.updateLoan loanId data)
  | .cancelLoan loanId => ownLoanErrors "Você só pode cancelar seus próprios empréstimos" ++ requestErrors (.cancelLoan loanId)
  | .payLoanFine loanId => ownLoanErrors "Você só pode pagar seus próprios empréstimos" ++ requestErrors (.payFine loanId)
  | .createLoan data => adminErrors ++ requestErrors (.createLoan data)
  | .listActiveLoans _ => adminErrors
  | .listOverdueLoans _ => adminErrors
  | .getLoan loanId => ownLoanErrors "Você só pode visualizar seus próprios empréstimos" ++ requestErrors (.getLoan loanId)
  | .returnLoan loanId => ownLoanErrors "Você só pode devolver seus próprios empréstimos" ++ requestErrors (.returnLoan loanId)
  | .renewLoan loanId => ownLoanErrors "Você só pode renovar seus próprios empréstimos" ++ requestErrors (.renewLoan loanId)
  | .listReservations _ _ => guardErrors ++ [.unauthorized "Você só pode listar suas reservas"]
  | .getReservation _ => ownReservationErrors "Você só pode listar suas reservas"
  | .cancelReservation reservationId =>
      ownReservationErrors "Você só pode cancelar suas reservas" ++ requestErrors (.cancelReservation reservationId)

def openErrors : OpenRoute → List ApiError
  | .createUser data => requestErrors (.createUser data)
  | .login _ => [.businessRule "Credenciais inválidas"]
  | .listAuthors _ => []
  | .getAuthor _ => [.notFound "Autor não encontrado"]
  | .listBooks page filters => requestErrors (.listBooks page filters)
  | .getBook bookId => requestErrors (.getBook bookId)

def routeErrors : Route → List ApiError
  | .me => guardErrors
  | .createAuthor data => adminErrors ++ requestErrors (.createAuthor data)
  | .updateAuthor authorId data => adminErrors ++ requestErrors (.updateAuthor authorId data)
  | .deleteAuthor authorId => adminErrors ++ requestErrors (.deleteAuthor authorId)
  | .createBook data => adminErrors ++ requestErrors (.createBook data)
  | .updateBook bookId data => adminErrors ++ requestErrors (.updateBook bookId data)
  | .deleteBook bookId => adminErrors ++ requestErrors (.deleteBook bookId)
  | .createReservation _ => guardErrors ++ reservationErrors
  | .runDueLoansJob => adminErrors ++ [.multipleResultsFound]
  | .endpoint e => endpointErrors e
  | _ => adminErrors

def errorsOf : Client → List ApiError
  | .anonymous r => openErrors r
  | .bearer _ r => routeErrors r
  | .scheduler => [.multipleResultsFound]

@[simp] def Listed (errors : List ApiError) (e : ApiError) : Prop := catalogued e = true → e ∈ errors

theorem listed {errors : List ApiError} {e : ApiError} (mem : e ∈ errors) : Listed errors e := fun _ => mem

theorem uncatalogued {errors : List ApiError} {e : ApiError} (foreign : catalogued e = false) : Listed errors e :=
  fun own => absurd (foreign.symm.trans own) Bool.false_ne_true

theorem listedLeft {xs ys : List ApiError} (e : ApiError) (mem : e ∈ xs) : Listed (xs ++ ys) e :=
  listed (List.mem_append_left ys mem)

theorem listedRight {xs ys : List ApiError} (e : ApiError) (h : Listed ys e) : Listed (xs ++ ys) e :=
  fun own => List.mem_append_right _ (h own)

end Catalogue
section Texts
variable {S : Nat → ApiError → Prop} {n : Nat} {pending : List Write} {α β : Type}

theorem raisesAnswer {g : Answer → α} {f : α → Service β} :
    Raises S n pending ((Program.call fun a x => .ok (g a,x) : Service α) >>= f) ↔ ∀ a, Raises S n pending (f a) :=
  Program.raisesCall.trans (and_iff_right fun _ _ _ failed => by cases failed)

@[simp] theorem raisesHash (refused : S n .valueError) {password : String} {f : String → Service β} :
    Raises S n pending (hashPassword password >>= f) ↔ ∀ hash, Raises S n pending (f hash) := by
  refine Program.raisesCall.trans ⟨fun h hash => ?_,fun h => ⟨fun a x e failed => ?_,fun hash => h hash⟩⟩
  · exact h.2 hash
  · split at failed <;> cases failed
    exact refused

@[simp] theorem raisesOrder {f : List Nat → Service β} :
    Raises S n pending (rowOrder >>= f) ↔ ∀ order, Raises S n pending (f order) := raisesAnswer

@[simp] theorem raisesLowering {f : (Char → Char) → Service β} :
    Raises S n pending (lowering >>= f) ↔ ∀ lower, Raises S n pending (f lower) := raisesAnswer

theorem raisesSerializeAll {loans : List LoanModel} {f : List LoanView → Service β} (h : ∀ a, Raises S n pending (f a)) :
    Raises S n pending (LoanService.serializeAll loans >>= f) := by
  induction loans generalizing f with
  | nil => exact h []
  | cons loan rest ih =>
    rw [LoanService.serializeAll,Program.bindBind]
    refine raisesSerialize fun view => ?_
    rw [Program.bindBind]
    exact ih fun views => h (view :: views)

theorem raisesDueDateChecked {loan : LoanModel} {due : Option LoanService.DateTime} {f : LoanModel → Service β}
    (unfit : S n .typeError) (early : ∀ e ∈ dueDateErrors due, S n e) (h : ∀ a, Raises S n pending (f a)) :
    Raises S n pending (LoanService.dueDateChecked loan due >>= f) := by
  unfold LoanService.dueDateChecked
  split
  · exact h _
  · exact unfit
  · rw [Program.bindBind]
    exact raisesRefuse.mpr ⟨fun _ => early _ List.mem_cons_self,fun _ => h _⟩

def looksForRow : Request → Bool
  | .createBook _ => true
  | .createUser _ => true
  | _ => false

theorem cachedRaises {key : String} {p : Service Payload} {f : Payload → Service β} (down : S n .redisError)
    (hit : ∀ payload, Raises S n pending (f payload)) (miss : Raises S n pending (p >>= f)) :
    Raises S n pending ((do
      match ← CacheService.get key with
      | some cached => return cached
      | none => p) >>= f) := by
  rw [Program.bindBind]
  refine (raisesRedis down).mpr fun cached => ?_
  cases cached with
  | none => exact miss
  | some payload => exact hit payload

theorem handleRaises {r : Request} (blind : looksForRow r = false) : Raises (fun _ e => Listed (requestErrors r) e) 0 [] (handle r) := by
  unfold handle answer
  cases r with
  | createBook => contradiction
  | createUser => contradiction
  | updateBook bookId data => simp [requestErrors,BookService.updateBook,BookRepository.update,BookService.forgetBook]
  | deleteBook bookId => simp [requestErrors,BookService.deleteBook,BookRepository.softDelete,BookService.forgetBook]
  | getBook bookId =>
    refine cachedRaises (by simp [requestErrors]) (fun _ => trivial) ?_
    simp [requestErrors,CacheService.set,raisesRedis]
  | listBooks page filters =>
    refine cachedRaises (by simp [requestErrors]) (fun _ => trivial) ?_
    simp [requestErrors,CacheService.set,raisesRedis,BookRepository.listBooksPaginated]
  | createAuthor data => simp [requestErrors,AuthorService.createAuthor]
  | updateAuthor authorId data =>
    simp [requestErrors,AuthorService.updateAuthor,AuthorRepository.update,AuthorService.forgetBooks]
  | deleteAuthor authorId =>
    simp [requestErrors,AuthorService.deleteAuthor,AuthorRepository.softDelete,AuthorService.forgetBooks,raisesWriteAll]
  | updateUser userId name => simp [requestErrors,UserService.updateUser,UserService.getById,UserRepository.update]
  | updateRole userId role => simp [requestErrors,UserService.updateRole,UserService.getById,UserRepository.update]
  | deleteUser userId => simp [requestErrors,UserService.deleteUser,UserService.getById,UserRepository.update]
  | createReservation bookId userId =>
    simp [requestErrors,reservationErrors,ReservationService.createReservation,raisesPublish,raisesScalar]
  | cancelReservation reservationId =>
    simp [requestErrors,ReservationService.cancelReservation,ReservationService.cancelLoaded,ReservationRepository.update,raisesPublish]
  | createLoan data =>
    simp [requestErrors,LoanService.createLoan,LoanRepository.getBookForUpdate,LoanRepository.refresh,
      BookService.forgetBook,LoanService.invalidateLoanCache,raisesSerialize,raisesPublish]
  | returnLoan loanId =>
    simp [requestErrors,LoanService.returnLoan,LoanRepository.findActiveByIdForUpdate,LoanRepository.getBookForUpdate,
      LoanRepository.refresh,BookService.forgetBook,LoanService.invalidateLoanCache,raisesPublish]
  | cancelLoan loanId =>
    simp [requestErrors,LoanService.cancelLoan,LoanRepository.findActiveByIdForUpdate,LoanRepository.getBookForUpdate,
      LoanRepository.refresh,BookService.forgetBook,LoanService.invalidateLoanCache,raisesPublish]
  | renewLoan loanId =>
    simp [requestErrors,LoanService.renewLoan,LoanRepository.findActiveByIdForUpdate,LoanRepository.update,
      LoanRepository.refresh]
  | payFine loanId =>
    simp [requestErrors,LoanService.payFine,LoanRepository.findActiveByIdForUpdate,LoanRepository.update,
      LoanRepository.refresh,LoanService.invalidateLoanCache]
  | updateLoan loanId data =>
    simp only [LoanService.updateLoan,Program.bindBind,Program.raisesSelect,raisesRequire,raisesRefuse]
    refine fun _ => ⟨fun _ => by simp [requestErrors],fun loan _ => ⟨fun _ => by simp [requestErrors],fun _ => ?_⟩⟩
    refine raisesDueDateChecked (uncatalogued rfl) (fun e mem => listed (List.mem_append_right _ mem)) fun changed => ?_
    simp [requestErrors,LoanRepository.update,LoanRepository.refresh,LoanService.invalidateLoanCache,raisesSerialize]
  | getLoan loanId =>
    refine cachedRaises (by simp [requestErrors]) (fun _ => trivial) ?_
    simp [requestErrors,CacheService.set,raisesRedis,raisesSerialize]
  | listLoans page filters =>
    refine cachedRaises (by simp [requestErrors]) (fun _ => trivial) ?_
    simp [requestErrors,CacheService.set,raisesRedis,raisesSerializeAll,LoanRepository.listPaginated]
  | listLoansByUser userId page status =>
    refine cachedRaises (by simp [requestErrors]) (fun _ => trivial) ?_
    simp [requestErrors,CacheService.set,raisesRedis,raisesSerializeAll,LoanRepository.listPaginated]

end Texts
section Sessions
variable {d : Database} {J : Cache → Prop} {duty : Program.Duty Write Answer} {I : Database → Prop} {α β : Type}
  {ok : β → List Write → Prop} {S : ApiError → Prop} {pending : List Write}

structure Distinct (d : Database) : Prop where
  emails : (d.users.rows.map fun u => u.email).Nodup
  isbns : (d.books.rows.map fun b => b.isbn).Nodup

def Kind (e : String × Payload) : Prop := ∀ k, e.1 = itemKey k → ∃ view, e.2 = .loan view

def Typed (x : Cache) : Prop := ∀ e ∈ x, Kind e

abbrev Fails (S : ApiError → Prop) (p : Service α) : Prop :=
  upholds Distinct Typed ⟨fun _ => True,fun _ => True⟩ (fun _ _ => True) S p []

theorem otherKind {e : String × Payload} (other : kind e.1 ≠ "loans:i".toList) : Kind e :=
  fun k same => absurd (same ▸ itemKind k) other

theorem filedKind {r : Request} {e : String × Payload} (filed : filedBy r e) : Kind e := by
  cases r with
  | getBook bookId =>
    obtain ⟨key,_⟩ := filed
    refine otherKind fun item => ?_
    have head := bookKind bookId
    rw [← key,item] at head
    exact absurd head (by decide)
  | listBooks page filters =>
    refine otherKind ?_
    rw [filed.1,booksKind]
    decide
  | getLoan loanId => exact fun _ _ => filed.2
  | listLoans page filters =>
    refine otherKind ?_
    rw [filed.1,listKind]
    decide
  | listLoansByUser userId page status =>
    refine otherKind ?_
    rw [filed.1,userKind]
    decide
  | _ => exact filed.elim

theorem textFails {P : String × Payload → Prop} {p : Service α} (kinds : ∀ e, P e → Kind e) (calls : Calls (Files P) p)
    (raises : Raises (fun _ => S) 0 [] p) : Fails S p := by
  refine upholdsRaises (fun _ => trivial) (fun x x' files typed e mem => ?_) calls raises
  rcases files e mem with old | new
  · exact typed e old
  · exact kinds e new

theorem failsMono {S' : ApiError → Prop} (sub : ∀ e, S e → S' e) {p : Service α} (h : Fails S p) : Fails S' p :=
  upholdsMono (fun _ h => h) (fun _ _ _ => trivial) sub h

theorem renderFails {body : α → β} {p : Service α} (h : Fails S p) : Fails S (do return body (← p)) :=
  upholdsBind.mpr (upholdsMono (fun _ h => h) (fun _ _ _ => trivial) (fun _ h => h) h)

theorem requireUpholds {e : ApiError} {row : Option α} {f : α → Service β} (missing : S e)
    (good : ∀ a, upholds I J duty ok S (f a) pending) : upholds I J duty ok S (require e row >>= f) pending := by
  cases row with
  | none => exact missing
  | some a => exact good a

theorem refuseUpholds {bad : Prop} [Decidable bad] {e : ApiError} {f : Unit → Service β} (refused : S e)
    (good : upholds I J duty ok S (f ()) pending) : upholds I J duty ok S (refuse bad e >>= f) pending := by
  unfold refuse
  split
  · exact refused
  · exact good

theorem uniqueUpholds {rows : List α} {f : Option α → Service β} (few : rows.length ≤ 1)
    (good : ∀ row, upholds I J duty ok S (f row) pending) : upholds I J duty ok S (scalarOneOrNone rows >>= f) pending := by
  match rows,few with
  | [],_ => exact good none
  | [row],_ => exact good (some row)

theorem userUpholds {token : Token} {f : UserModel → Service β} (listed : ∀ e ∈ guardErrors, S e)
    (good : ∀ user, upholds I J duty ok S (f user) pending) : upholds I J duty ok S (getCurrentUser token >>= f) pending := by
  cases token with
  | expired => exact listed _ (by simp [guardErrors])
  | invalid => exact listed _ (by simp [guardErrors])
  | payload sub role => exact fun d _ => requireUpholds (listed _ (by simp [guardErrors])) good

theorem adminUpholds {token : Token} {f : UserModel → Service β} (listed : ∀ e ∈ adminErrors, S e)
    (good : ∀ user, upholds I J duty ok S (f user) pending) : upholds I J duty ok S (getCurrentAdmin token >>= f) pending := by
  unfold getCurrentAdmin
  rw [Program.bindBind]
  refine userUpholds (fun e mem => listed e (List.mem_cons_of_mem _ mem)) fun user => ?_
  rw [Program.bindBind]
  exact refuseUpholds (listed _ List.mem_cons_self) (good user)

section Rows

theorem fewRows {ρ κ : Type} {rows : List ρ} {f : ρ → κ} (unique : (rows.map f).Nodup) {p : ρ → Bool} {k : κ}
    (same : ∀ r, p r = true → f r = k) : (rows.filter p).length ≤ 1 := by
  have alike : (rows.filter p).map f = List.replicate (rows.filter p).length k := by
    refine List.eq_replicate_iff.mpr ⟨List.length_map f,fun x mem => ?_⟩
    obtain ⟨r,inside,rfl⟩ := List.mem_map.mp mem
    exact same r (List.mem_filter.mp inside).2
  have once : ((rows.filter p).map f).Nodup := unique.sublist (List.filter_sublist.map f)
  rw [alike] at once
  exact List.nodup_replicate.mp once

theorem fewEmails (distinct : Distinct d) (email : String) : (UserRepository.findByEmail d email).length ≤ 1 :=
  fewRows distinct.emails (k := email) fun u hit => by simp_all

theorem fewIsbns (distinct : Distinct d) (isbn : String) : (BookRepository.findByIsbn d isbn).length ≤ 1 :=
  fewRows distinct.isbns (k := isbn) fun b hit => by simp_all

end Rows

theorem handleFails (r : Request) : Fails (Listed (requestErrors r)) (handle r) := by
  cases blind : looksForRow r with
  | false => exact textFails (fun _ => filedKind) (handleFiles r) (handleRaises blind)
  | true =>
    cases r with
    | createBook data =>
      refine fun d distinct => renderFails (uniqueUpholds (fewIsbns distinct _) fun existing => ?_)
      refine textFails (P := fun _ => False) (fun _ => False.elim) (by simp) ?_
      show Raises (fun _ e => Listed (requestErrors (.createBook data)) e) 0 [] _
      simp [requestErrors]
    | createUser data =>
      have stored (query : Database → UserModel) : Calls (Files fun _ => False) (Program.select query : Service UserModel) :=
        fun _ => trivial
      refine fun d distinct => renderFails (uniqueUpholds (fewEmails distinct _) fun existing => ?_)
      refine textFails (P := fun _ => False) (fun _ => False.elim) (by simp [stored]) (raisesRefuse.mpr ⟨fun _ => ?_,fun _ => ?_⟩)
      · exact listed List.mem_cons_self
      · refine (raisesHash (uncatalogued rfl)).mpr fun password => raisesUuid.mpr fun id => Program.raisesNow.mpr fun t => ?_
        refine (raisesStatement (uncatalogued rfl) (.inr (uncatalogued rfl))).mpr ?_
        exact (raisesStored (uncatalogued rfl) (.inr (uncatalogued rfl))).mpr fun _ => trivial
    | _ => contradiction

end Sessions

section Routes
variable {S : ApiError → Prop} {α β : Type} {token : Token}

theorem redisUpholds {act : Cache → β × Cache} {f : β → Service α} {duty : Program.Duty Write Answer} {I : Database → Prop}
    {ok : α → List Write → Prop} {pending : List Write} (down : S .redisError)
    (here : ∀ x, Typed x → Typed (act x).2 ∧ upholds I Typed duty ok S (f (act x).1) pending) :
    upholds I Typed duty ok S (redis act >>= f) pending := by
  refine upholdsBind.mpr fun a _ x typed => ?_
  split <;> rename_i done <;> beta_reduce at done
  · split at done
    · obtain ⟨rfl,rfl⟩ := Prod.mk.inj (Except.ok.inj done)
      exact here _ fun e mem => typed e (List.mem_of_mem_filter mem)
    · contradiction
  · split at done
    · contradiction
    · cases done; exact down

theorem getLoanFails {loanId : String} {f : Payload → Service α} (down : S .redisError)
    (missing : S (.notFound "Empréstimo não encontrado")) (here : ∀ view, Fails S (f (.loan view))) :
    Fails S (LoanService.getLoan loanId >>= f) := by
  unfold LoanService.getLoan
  rw [Program.bindBind]
  refine redisUpholds down fun x typed => ⟨typed,?_⟩
  cases found : x.lookup (itemKey loanId) with
  | some cached =>
    obtain ⟨l,r,same,_⟩ := List.lookup_eq_some_iff.mp found
    obtain ⟨view,rfl⟩ := typed (itemKey loanId,cached) (by simp [same]) loanId rfl
    exact here view
  | none =>
    have filed (view : LoanView) : Fails S (CacheService.set (itemKey loanId) (.loan view) >>= fun _ => f (.loan view)) := by
      refine redisUpholds down fun x typed => ⟨fun e mem => ?_,here view⟩
      rcases List.mem_cons.mp mem with rfl | old
      · exact fun _ _ => ⟨view,rfl⟩
      · exact typed e (List.mem_of_mem_filter old)
    show Fails S ((Program.select (fun d : Database => LoanRepository.findById d loanId) >>= fun row =>
      require (.notFound "Empréstimo não encontrado") row >>= fun loan => LoanService.serializeLoan loan >>= fun view =>
      CacheService.set (itemKey loanId) (.loan view) >>= fun _ => pure (.loan view)) >>= f)
    simp only [Program.bindBind]
    refine fun d _ => requireUpholds missing fun loan => ?_
    unfold LoanService.serializeLoan
    split
    · exact filed _
    · exact fun t => filed _

theorem ownLoanFails {message loanId : String} {proceed : String → Service α} (down : S .redisError)
    (listed : ∀ e ∈ ownLoanErrors message, S e) (here : Fails S (proceed loanId)) : Fails S (LoanController.ownLoan message proceed loanId token) := by
  refine userUpholds (fun e mem => listed e (List.mem_append_left _ mem)) fun user => ?_
  refine getLoanFails down (listed _ (by simp [ownLoanErrors])) fun view => ?_
  exact refuseUpholds (listed _ (by simp [ownLoanErrors])) here

theorem ownReservationFails {message reservationId : String} {proceed : ReservationModel → Service α}
    (listed : ∀ e ∈ ownReservationErrors message, S e) (here : ∀ row, Fails S (proceed row)) :
    Fails S (ReservationController.ownReservation message proceed reservationId token) := by
  refine userUpholds (fun e mem => listed e (List.mem_append_left _ mem)) fun user d _ => ?_
  refine requireUpholds (listed _ (by simp [ownReservationErrors])) fun row => ?_
  exact refuseUpholds (listed _ (by simp [ownReservationErrors])) (here row)

theorem adminOnlyFails {proceed : Service α} (listed : ∀ e ∈ adminErrors, S e) (here : Fails S proceed) :
    Fails S (LoanController.adminOnly proceed token) := adminUpholds listed fun _ => here

theorem namedUserFails {userId : String} {proceed : UserModel → Service α} (listed : ∀ e ∈ adminErrors, S e)
    (here : ∀ row, Fails S (proceed row)) : Fails S (UserController.namedUser proceed userId token) := by
  refine adminUpholds listed fun admin d _ => ?_
  exact requireUpholds (listed _ (by simp [adminErrors,guardErrors])) fun user => here _

theorem quietFails {p : Service α} (calls : Calls (Files fun _ => False) p) (raises : Raises (fun _ => S) 0 [] p) : Fails S p :=
  textFails (fun _ => False.elim) calls raises

theorem updateUserFails (taken : S .integrityError) (long : S .dataError) (loaded current : UserModel) :
    Fails S (UserRepository.update loaded current) := by
  refine quietFails (Program.callsLeft (f := pure) ?_) ?_
  · simp [UserRepository.update]
  · show Raises _ _ _ (Program.write _ >>= fun _ => Program.commit >>= fun _ => Program.select _)
    rw [raisesStatement taken (.inr long),raisesStored taken (.inr long)]
    exact fun _ => trivial

section Job
variable {n : Nat}

theorem remindAllRaises (zone : DueLoanNotificationJob.UtcOffset) (type : NotificationType) (message : String)
    (loans : List LoanModel) {f : Unit → Service β} (several : S .multipleResultsFound)
    (rest : ∀ n, Raises (fun _ => S) n [] (f ())) :
    Raises (fun _ => S) n [] (DueLoanNotificationJob.remindAll zone type message loans >>= f) := by
  induction loans generalizing n with
  | nil => exact rest n
  | cons loan loans ih =>
    simp only [DueLoanNotificationJob.remindAll,DueLoanNotificationJob.NotificationService.sendOncePerDay,
      DueLoanNotificationJob.NotificationRepository.existsForLoanToday,DueLoanNotificationJob.UtcOffset.today,
      Program.bindBind,Program.raisesNow,Program.pureThen,Program.raisesSelect]
    refine fun t rows => raisesScalar several fun row => ?_
    cases row with
    | some _ => exact ih
    | none => exact raisesSend fun _ => ih

theorem remindAllCalls (zone : DueLoanNotificationJob.UtcOffset) (type : NotificationType) (message : String)
    (loans : List LoanModel) : Calls (Files fun _ => False) (DueLoanNotificationJob.remindAll zone type message loans) := by
  induction loans with
  | nil => trivial
  | cons loan loans ih =>
    simp only [DueLoanNotificationJob.remindAll,DueLoanNotificationJob.NotificationService.sendOncePerDay,
      DueLoanNotificationJob.NotificationRepository.existsForLoanToday,DueLoanNotificationJob.UtcOffset.today,
      Program.bindBind,Program.callsNow,Program.pureThen,Program.callsSelect]
    refine fun t rows => callsScalar fun row => ?_
    cases row with
    | some _ => exact ih
    | none => exact callsSend fun _ => ih

theorem executeCalls (zone : DueLoanNotificationJob.UtcOffset) :
    Calls (Files fun _ => False) (DueLoanNotificationJob.execute zone) := by
  simp only [DueLoanNotificationJob.execute,DueLoanNotificationJob.UtcOffset.today,
    DueLoanNotificationJob.LoanRepository.listDueOnDate,DueLoanNotificationJob.LoanRepository.listOverdueForNotifications,
    Program.bindBind,Program.callsNow,Program.pureThen,callsOrder,Program.callsSelect]
  refine fun t order soon => Program.callsBind (remindAllCalls _ _ _ _) fun _ => ?_
  simp only [callsOrder,Program.callsSelect]
  refine fun order today => Program.callsBind (remindAllCalls _ _ _ _) fun _ => ?_
  simp only [Program.callsNow,callsOrder,Program.callsSelect]
  exact fun t order overdue => remindAllCalls _ _ _ _

theorem executeFails (zone : DueLoanNotificationJob.UtcOffset) (several : S .multipleResultsFound) :
    Fails S (DueLoanNotificationJob.execute zone) := by
  refine quietFails (executeCalls zone) ?_
  simp only [DueLoanNotificationJob.execute,DueLoanNotificationJob.UtcOffset.today,
    DueLoanNotificationJob.LoanRepository.listDueOnDate,DueLoanNotificationJob.LoanRepository.listOverdueForNotifications,
    Program.bindBind,Program.raisesNow,Program.pureThen,raisesOrder,Program.raisesSelect]
  refine fun t order soon => remindAllRaises _ _ _ _ several fun n => ?_
  simp only [raisesOrder,Program.raisesSelect]
  refine fun order today => remindAllRaises _ _ _ _ several fun n => ?_
  simp only [Program.raisesNow,raisesOrder,Program.raisesSelect]
  intro t order overdue
  rw [← Program.bindPure (DueLoanNotificationJob.remindAll _ _ _ _)]
  exact remindAllRaises _ _ _ _ several fun _ => trivial

end Job

theorem partFails {r : Request} {respond : α → Response} {p : Service α} (same : handle r = answer respond p)
    (h : ∀ e, Listed (requestErrors r) e → S e) : Fails S p := by
  have whole := handleFails r
  rw [same] at whole
  exact failsMono h (upholdsMono (fun _ h => h) (fun _ _ _ => trivial) (fun _ h => h) (upholdsBind.mp whole))

theorem endpointFails (e : Endpoint) : Fails (Listed (endpointErrors e)) (e.serve token) := by
  have all {xs : List ApiError} : ∀ e ∈ xs, Listed xs e := fun _ => listed
  have none {xs : List ApiError} : ∀ e, Listed [] e → Listed xs e := fun e empty own => absurd (empty own) List.not_mem_nil
  have down {xs : List ApiError} : Listed xs .redisError := uncatalogued rfl
  cases e with
  | listLoans page filters => exact renderFails (adminOnlyFails listedLeft (partFails (r := .listLoans page filters) rfl listedRight))
  | listActiveLoans page => exact renderFails (adminOnlyFails all (partFails (r := .listLoans page _) rfl none))
  | listOverdueLoans page => exact renderFails (adminOnlyFails all (partFails (r := .listLoans page _) rfl none))
  | listLoansByUser userId page status =>
    refine renderFails (userUpholds listedLeft fun user => refuseUpholds (listedRight _ (listed List.mem_cons_self)) ?_)
    exact partFails (r := .listLoansByUser userId page status) rfl fun e own => listedRight e fun here => List.mem_cons_of_mem _ (own here)
  | updateLoan loanId data => exact renderFails (adminOnlyFails listedLeft (partFails (r := .updateLoan loanId data) rfl listedRight))
  | createLoan data => exact renderFails (adminOnlyFails listedLeft (partFails (r := .createLoan data) rfl listedRight))
  | cancelLoan loanId => exact renderFails (ownLoanFails down listedLeft (partFails (r := .cancelLoan loanId) rfl listedRight))
  | payLoanFine loanId => exact renderFails (ownLoanFails down listedLeft (partFails (r := .payFine loanId) rfl listedRight))
  | getLoan loanId => exact renderFails (ownLoanFails down listedLeft (partFails (r := .getLoan loanId) rfl listedRight))
  | returnLoan loanId => exact renderFails (ownLoanFails down listedLeft (partFails (r := .returnLoan loanId) rfl listedRight))
  | renewLoan loanId => exact renderFails (ownLoanFails down listedLeft (partFails (r := .renewLoan loanId) rfl listedRight))
  | listReservations page filters =>
    refine renderFails (userUpholds listedLeft fun user => refuseUpholds (listedRight _ (listed List.mem_cons_self)) ?_)
    refine quietFails ?_ ?_ <;> simp [ReservationService.listPaginated,ReservationRepository.listPaginated]
  | getReservation => exact renderFails (ownReservationFails all fun _ => trivial)
  | cancelReservation reservationId =>
    refine renderFails (ownReservationFails listedLeft fun row => quietFails heldReservationFiles ?_)
    show Raises (fun _ e => Listed (endpointErrors (.cancelReservation reservationId)) e) 0 [] _
    simp [endpointErrors,requestErrors,ReservationService.getReservation,ReservationService.cancelLoaded,
      ReservationRepository.update,raisesPublish]

theorem routeFails (s : Deployment) (r : Route) : Fails (Listed (routeErrors r)) (r.serve s token) := by
  have all {xs : List ApiError} : ∀ e ∈ xs, Listed xs e := fun _ => listed
  have works {r : Request} {xs : List ApiError} : Fails (Listed (xs ++ requestErrors r)) (work r) :=
    renderFails (failsMono listedRight (handleFails r))
  cases r with
  | listUsers page =>
    refine renderFails (adminOnlyFails all (quietFails ?_ ?_)) <;>
      simp [UserService.listUsersPaginated,UserRepository.listUsersPaginated]
  | me =>
    show Fails _ (getCurrentUser token >>= fun user => pure (Body.user user))
    exact userUpholds all fun _ => trivial
  | getUser => exact renderFails (namedUserFails all fun _ => trivial)
  | updateUser => exact renderFails (namedUserFails all fun _ => updateUserFails (uncatalogued rfl) (uncatalogued rfl) _ _)
  | deleteUser => exact renderFails (namedUserFails all fun _ => updateUserFails (uncatalogued rfl) (uncatalogued rfl) _ _)
  | updateUserRole => exact renderFails (namedUserFails all fun _ => updateUserFails (uncatalogued rfl) (uncatalogued rfl) _ _)
  | createAuthor => exact adminOnlyFails listedLeft works
  | updateAuthor => exact adminOnlyFails listedLeft works
  | deleteAuthor => exact adminOnlyFails listedLeft works
  | createBook => exact adminOnlyFails listedLeft works
  | updateBook => exact adminOnlyFails listedLeft works
  | deleteBook => exact adminOnlyFails listedLeft works
  | createReservation bookId =>
    exact renderFails (userUpholds listedLeft fun user => partFails (r := .createReservation bookId user.id.text) rfl listedRight)
  | listNotifications page userId =>
    refine renderFails (adminOnlyFails all (quietFails ?_ ?_)) <;> simp [NotificationRepository.listPaginated]
  | runDueLoansJob => exact renderFails (adminOnlyFails listedLeft (executeFails s.zone (listedRight _ (listed List.mem_cons_self))))
  | getStats =>
    refine renderFails (adminOnlyFails all (quietFails ?_ ?_)) <;>
      simp [Reports.ReportService.getStats,Reports.ReportService.execute]
  | exportLoansCsv =>
    refine renderFails (adminOnlyFails all (quietFails ?_ ?_)) <;>
      simp [Reports.ReportService.generateLoansCsv,Reports.ReportService.execute]
  | exportFinesPdf =>
    refine renderFails (adminOnlyFails all (quietFails ?_ ?_)) <;>
      simp [Reports.ReportService.generateFinesPdf,Reports.ReportService.execute]
  | endpoint e => exact renderFails (endpointFails e)

theorem openFails (s : Deployment) (r : OpenRoute) : Fails (Listed (openErrors r)) (r.serve s) := by
  cases r with
  | createUser data => exact renderFails (handleFails (.createUser data))
  | login data =>
    refine renderFails fun d distinct => uniqueUpholds (fewEmails distinct _) fun row => ?_
    refine requireUpholds (listed List.mem_cons_self) fun user => refuseUpholds (listed List.mem_cons_self) ?_
    exact fun _ => trivial
  | listAuthors page =>
    refine renderFails (quietFails ?_ ?_) <;> simp [AuthorService.listAuthorsPaginated,AuthorRepository.listAuthorsPaginated]
  | getAuthor authorId =>
    refine renderFails fun d _ => ?_
    show upholds _ _ _ _ _ (require _ (AuthorRepository.findById d authorId)) []
    cases AuthorRepository.findById d authorId with
    | none => exact listed List.mem_cons_self
    | some author => trivial
  | listBooks page filters => exact renderFails (handleFails (.listBooks page filters))
  | getBook bookId => exact renderFails (handleFails (.getBook bookId))

theorem clientFails (s : Deployment) (client : Client) : Fails (Listed (errorsOf client)) (client.serve s) := by
  cases client with
  | anonymous r => exact openFails s r
  | scheduler => exact renderFails (executeFails s.zone (listed List.mem_cons_self))
  | bearer credentials r =>
    show Fails _ (decodeToken s credentials >>= fun token => r.serve s token)
    rw [decodeThen]
    split
    · exact routeFails s r
    · exact fun t => routeFails s r

end Routes

section Runs
variable {s : Deployment} {clients : Nat → Option Client} {d d' : Database} {t : Int} {h : Log}

theorem modifiedColumn {ρ κ : Type} {key : ρ → String} {t : Table key} {k : String} {column : ρ → κ} (f : ρ → ρ)
    (keep : ∀ r, key (f r) = key r) (same : ∀ r, column (f r) = column r) (once : (t.rows.map column).Nodup) :
    ((t.modify k f keep).rows.map column).Nodup := by
  have columns : (t.modify k f keep).rows.map column = t.rows.map column := by
    show (t.rows.map _).map column = _
    rw [List.map_map]
    refine List.map_congr_left fun r _ => ?_
    show column (if _ then f r else r) = column r
    split
    · exact same r
    · rfl
  rw [columns]
  exact once

theorem insertedColumn {ρ κ : Type} {key : ρ → String} {t t' : Table key} {row : ρ} {column : ρ → κ}
    (added : t.insert row = some t') (fresh : ∀ r ∈ t.rows, column r ≠ column row) (once : (t.rows.map column).Nodup) :
    (t'.rows.map column).Nodup := by
  rw [(Table.insertRows added).1,List.map_append]
  refine List.Nodup.append once (List.nodup_singleton _) (List.disjoint_singleton.mpr fun mem => ?_)
  obtain ⟨r,inside,same⟩ := List.mem_map.mp mem
  exact fresh r inside same

theorem distinctRan {x : Write} (calm : mild x) (ran : x.exec d = .ok d') (h : Distinct d) : Distinct d' := by
  cases x with
  | insertUser row =>
    obtain ⟨fresh,_,added,rfl⟩ := Database.insertUserRan ran
    exact {h with emails := insertedColumn added fresh h.emails}
  | insertBook row =>
    obtain ⟨fresh,_,added,rfl⟩ := Database.insertBookRan ran
    exact {h with isbns := insertedColumn added fresh h.isbns}
  | insertAuthor row => obtain ⟨_,_,rfl⟩ := Database.insertAuthorRan ran; exact {h with}
  | insertLoan row => obtain ⟨_,_,rfl⟩ := Database.insertLoanRan ran; exact {h with}
  | insertReservation row => obtain ⟨_,_,rfl⟩ := Database.insertReservationRan ran; exact {h with}
  | updateUser l c =>
    obtain rfl := Database.updateUserRan ran
    exact {h with emails := modifiedColumn (l.flush c) (fun _ => rfl) (fun stored => (mildUser calm stored).email) h.emails}
  | updateBook l c =>
    obtain rfl := Database.updateBookRan ran
    exact {h with isbns := modifiedColumn (l.flush c) (fun _ => rfl) (fun stored => (mildBook calm stored).isbn) h.isbns}
  | updateAuthor l c => obtain rfl := Database.updateAuthorRan ran; exact {h with}
  | _ => cases ran; exact {h with}

theorem commitDistinct {m : Commit} (path : SystemPath s clients d t (m :: h)) (distinct : Distinct m.before) : Distinct m.after := by
  cases path with
  | commit _ _ ran _ allowed =>
    obtain ⟨_,task,_,done⟩ := allowed
    have calm : ∀ x ∈ m.writes, mild x := by
      have deed := done.deed
      cases task with
      | request r => exact effectMild deed
      | reminders =>
        generalize m.writes = writes at deed
        cases deed
        exact List.forall_mem_singleton.mpr trivial
    exact Program.execAllKeeps (R := fun d d' => Distinct d → Distinct d') (fun _ => id) (fun left right => right ∘ left)
      (fun x mem _ _ ran => distinctRan (calm x mem) ran) ran distinct

theorem pathDistinct (start : Distinct d) (path : SystemPath s clients d t h) : Distinct (stateAfter d h) := by
  induction path with
  | start => exact start
  | @commit m h rest before ran clock allowed ih => exact commitDistinct (.commit rest before ran clock allowed) (before ▸ ih)

theorem startUpright (s : Deployment) (clients : Nat → Option Client) {w : World} (typed : Typed w.ext) :
    Program.Upright Distinct Typed (fun _ => ⟨fun _ => True,fun _ => True⟩) (fun _ _ _ => True)
      (fun j e => ∀ client, clients j = some client → Listed (errorsOf client) e) (receive s w clients) := by
  refine ⟨typed,fun j x found => ?_⟩
  obtain ⟨p,serving,rfl⟩ := Option.map_eq_some_iff.mp found
  obtain ⟨client,sent,rfl⟩ := Option.map_eq_some_iff.mp serving
  refine upholdsMono (fun _ h => h) (fun _ _ _ => trivial) (fun e mem client' sent' => ?_) (clientFails s client)
  obtain rfl := Option.some.inj (sent.symm.trans sent')
  exact mem

/-- In any run, a session that has failed with an error of the catalogue has failed with one
that its own route names. -/
theorem errorsListed (s : Deployment) (clients : Nat → Option Client) {d : Database} {x : Cache} (t : Int) (moves : Moves)
    (distinct : Distinct d) (typed : Typed x) {j : Nat} {client : Client} (sent : clients j = some client) {e : ApiError}
    (failed : ((receive s (settled d x t) clients).run moves).pool j = some (.finished (.error e)))
    (own : catalogued e = true) : e ∈ errorsOf client := by
  have reads (past : Moves) : Distinct ((receive s (settled d x t) clients).run past).world.db := by
    obtain ⟨path,last⟩ := systemPath s clients (w := settled d x t) rfl past
    rw [last]
    exact pathDistinct distinct path
  have upright := (Program.runUpright (fun past (_ : past <+: moves) => reads past)
    (startUpright s clients (w := settled d x t) typed) fun _ _ => trivial).1
  exact upright.threads j _ failed client sent own

def guessing (j : Nat) : Option Client := if j = 0 then some (.anonymous (.login ⟨"ana@example.com","senha"⟩)) else none

theorem guessingListed : .businessRule "Credenciais inválidas" ∈ errorsOf (.anonymous (.login ⟨"ana@example.com","senha"⟩)) :=
  errorsListed plainTokens guessing (d := sampleShelf 0) (x := []) 0 (List.replicate 3 (0,tick 5))
    ⟨by decide,by decide⟩ (fun e mem => absurd mem List.not_mem_nil) (j := 0) rfl rfl rfl

end Runs
end LibraryApi.ErrorCatalogue
