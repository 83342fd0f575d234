import LibraryApi.ErrorCatalogue
import LibraryApi.MomentRules
import LibraryApi.Permanence

/-! What the cache tells of the past. Sessions of any kind race on it, so that an entry may be
stale; but whatever is kept under a key, and whatever a session reads under it, is the answer
to a query of that key at moments of the run, with every row as it was committed. -/
namespace LibraryApi.CachedTruth
open Models CacheService Repositories Requests CacheRules Runs Controllers Security Api Application ErrorCatalogue
open BookService (serializeBook)
open LoanService (serializeAt)
open Program (Calls leaves leavesBind leavesMono leavesCalls Left moments)

abbrev Moments := Database → Int → Prop

def Serialized (I : Moments) (l : LoanModel) (view : LoanView) : Prop :=
  ∃ t, view = serializeAt l t ∧ (l.status = .returned ∧ l.returnedAt = some t ∨ ∃ d, I d t)

structure LoansListed (I : Moments) (p : Pagination) (f : LoanRepository.Filters) (page : Page LoanView) : Prop where
  rows : ∃ now order d t, (∃ d₀, I d₀ now) ∧ I d t ∧
    List.Forall₂ (Serialized I) (p.rows (arranged order (d.loans.rows.filter (LoanRepository.selects now f)))) page.items ∧
    ∃ d' t', I d' t' ∧ page.total = (d'.loans.rows.filter (LoanRepository.selects now f)).length
  number : page.page = p.page
  size : page.size = p.size

structure BooksListed (I : Moments) (p : Pagination) (f : BookRepository.Filters) (page : Page BookView) : Prop where
  rows : ∃ lower order d t, I d t ∧ page.items =
    (p.rows (arranged order ((BookRepository.withAuthors d).filter (BookRepository.selects lower f)))).map
      (fun b => serializeBook b.1 b.2) ∧
    ∃ d' t', I d' t' ∧ page.total = ((BookRepository.withAuthors d').filter (BookRepository.selects lower f)).length
  number : page.page = p.page
  size : page.size = p.size

inductive Shown (I : Moments) : String → Payload → Prop where
  | book {bookId d t b a} (here : I d t) (found : BookRepository.findById d bookId = some (b,a)) :
      Shown I (BookService.detailKey bookId) (.book (serializeBook b a))
  | books {p f page} (listed : BooksListed I p f page) : Shown I (BookService.listKey p f) (.books page)
  | loan {loanId d t l view} (here : I d t) (found : d.loans.find loanId = some l) (serialized : Serialized I l view) :
      Shown I (LoanService.itemKey loanId) (.loan view)
  | loans {p f page} (listed : LoansListed I p f page) : Shown I (LoanService.listKey p f) (.loans page)
  | userLoans {userId p status page} (listed : LoansListed I p ⟨some userId,none,status,none⟩ page) :
      Shown I (LoanService.userKey userId p status) (.loans page)

def Told (I : Moments) (x : Cache) : Prop := ∀ e ∈ x, Shown I e.1 e.2

section Texts
variable {I : Moments} {α β : Type} {key : String}

abbrev Leaves (I : Moments) (ok : α → Prop) (p : Service α) : Prop := leaves I (Told I) (fun a _ => ok a) p []

theorem quietLeaves {p : Service α} (calls : Calls (Files fun _ => False) p) : Leaves I (fun _ => True) p := by
  refine leavesCalls (fun x x' files told e mem => ?_) calls
  rcases files e mem with old | new
  · exact told e old
  · exact new.elim

theorem redisLeaves {act : Cache → β × Cache} {f : β → Service α} {ok : α → Prop}
    (here : ∀ x, Told I x → Told I (act x).2 ∧ Leaves I ok (f (act x).1)) : Leaves I ok (redis act >>= f) := by
  refine leavesBind.mpr fun a x told => ?_
  split <;> rename_i done <;> beta_reduce at done
  · split at done
    · obtain ⟨rfl,rfl⟩ := Prod.mk.inj (Except.ok.inj done)
      exact here _ fun e mem => told e (List.mem_of_mem_filter mem)
    · contradiction
  · trivial

theorem requireLeaves {e : ApiError} {row : Option α} {f : α → Service β} {ok : β → Prop}
    (good : ∀ a, row = some a → Leaves I ok (f a)) : Leaves I ok (require e row >>= f) := by
  cases row with
  | none => trivial
  | some a => exact good a rfl

theorem refuseLeaves {bad : Prop} [Decidable bad] {e : ApiError} {f : Unit → Service β} {ok : β → Prop}
    (good : Leaves I ok (f ())) : Leaves I ok (refuse bad e >>= f) := by
  unfold refuse
  split
  · trivial
  · exact good

theorem answersLeaves {g : Answer → α} {f : α → Service β} {ok : β → Prop} (here : ∀ a, Leaves I ok (f a)) :
    Leaves I ok ((Program.call fun a x => .ok (g a,x) : Service α) >>= f) := fun a _ told => ⟨told,here (g a)⟩

theorem cachedLeaves {p : Service Payload} {f : Payload → Service α} {ok : α → Prop}
    (hit : ∀ cached, Shown I key cached → Leaves I ok (f cached)) (fresh : Leaves I ok (p >>= f)) : Leaves I ok ((do
    match ← CacheService.get key with
    | some cached => return cached
    | none => p) >>= f) := by
  rw [Program.bindBind]
  refine redisLeaves fun x told => ⟨told,?_⟩
  cases found : x.lookup key with
  | some cached =>
    obtain ⟨l,r,same,_⟩ := List.lookup_eq_some_iff.mp found
    exact hit cached (told (key,cached) (by simp [same]))
  | none => exact fresh

theorem setLeaves {value : Payload} {f : Unit → Service α} {ok : α → Prop} (shown : Shown I key value) (here : Leaves I ok (f ())) :
    Leaves I ok (CacheService.set key value >>= f) := by
  refine redisLeaves fun x told => ⟨fun e mem => ?_,here⟩
  rcases List.mem_cons.mp mem with rfl | old
  · exact shown
  · exact told e (List.mem_of_mem_filter old)

theorem serializeLeaves {l : LoanModel} {f : LoanView → Service α} {ok : α → Prop}
    (here : ∀ view, Serialized I l view → Leaves I ok (f view)) : Leaves I ok (LoanService.serializeLoan l >>= f) := by
  unfold LoanService.serializeLoan
  split
  · rename_i t returned at_
    exact here _ ⟨t,rfl,.inl ⟨returned,at_⟩⟩
  · exact fun d t moment => here _ ⟨t,rfl,.inr ⟨d,moment⟩⟩

theorem serializeAllLeaves {loans : List LoanModel} {f : List LoanView → Service α} {ok : α → Prop}
    (here : ∀ views, List.Forall₂ (Serialized I) loans views → Leaves I ok (f views)) :
    Leaves I ok (LoanService.serializeAll loans >>= f) := by
  induction loans generalizing f with
  | nil => exact here [] .nil
  | cons loan rest ih =>
    rw [LoanService.serializeAll,Program.bindBind]
    refine serializeLeaves fun view serialized => ?_
    rw [Program.bindBind]
    exact ih fun views all => here (view :: views) (.cons serialized all)

section Reads
variable {f : Payload → Service α} {ok : α → Prop}

theorem getBookLeaves {bookId : String} (here : ∀ v, Shown I (BookService.detailKey bookId) v → Leaves I ok (f v)) :
    Leaves I ok (BookService.getBook bookId >>= f) := by
  refine cachedLeaves here ?_
  simp only [Program.bindBind]
  exact fun _ _ at_ => requireLeaves fun _ found => setLeaves (.book at_ found) (here _ (.book at_ found))

theorem listBooksLeaves {p : Pagination} {filters : BookRepository.Filters}
    (here : ∀ v, Shown I (BookService.listKey p filters) v → Leaves I ok (f v)) :
    Leaves I ok (BookService.listBooksPaginated p filters >>= f) := by
  refine cachedLeaves here ?_
  unfold BookRepository.listBooksPaginated
  simp only [Program.bindBind]
  refine answersLeaves fun order => answersLeaves fun lower d t listed d' t' counted => ?_
  have page : BooksListed I p filters ⟨_,_,p.page,p.size⟩ := ⟨⟨lower,order,d,t,listed,rfl,d',t',counted,rfl⟩,rfl,rfl⟩
  exact setLeaves (.books page) (here _ (.books page))

theorem getLoanLeaves {loanId : String} (here : ∀ v, Shown I (LoanService.itemKey loanId) v → Leaves I ok (f v)) :
    Leaves I ok (LoanService.getLoan loanId >>= f) := by
  refine cachedLeaves here ?_
  simp only [Program.bindBind]
  refine fun _ _ at_ => requireLeaves fun l found => serializeLeaves fun view serialized => ?_
  exact setLeaves (.loan at_ found serialized) (here _ (.loan at_ found serialized))

theorem loanPageLeaves {p : Pagination} {filters : LoanRepository.Filters}
    (shown : ∀ page, LoansListed I p filters page → Shown I key (.loans page))
    (here : ∀ v, Shown I key v → Leaves I ok (f v)) : Leaves I ok ((do
      let (loans,total) ← LoanRepository.listPaginated p filters
      let items ← LoanService.serializeAll loans
      let response := Payload.loans ⟨items,total,p.page,p.size⟩
      CacheService.set key response
      return response) >>= f) := by
  unfold LoanRepository.listPaginated
  simp only [Program.bindBind,Program.pureThen]
  refine fun d₀ now started => answersLeaves fun order d t listed d' t' counted => serializeAllLeaves fun views all => ?_
  have page : LoansListed I p filters ⟨views,_,p.page,p.size⟩ :=
    ⟨⟨now,order,d,t,⟨d₀,started⟩,listed,all,d',t',counted,rfl⟩,rfl,rfl⟩
  exact setLeaves (shown _ page) (here _ (shown _ page))

theorem listLoansLeaves {p : Pagination} {filters : LoanRepository.Filters}
    (here : ∀ v, Shown I (LoanService.listKey p filters) v → Leaves I ok (f v)) :
    Leaves I ok (LoanService.listPaginated p filters >>= f) :=
  cachedLeaves here (loanPageLeaves (fun _ => .loans) here)

theorem listLoansByUserLeaves {userId : String} {p : Pagination} {status : Option LoanStatus}
    (here : ∀ v, Shown I (LoanService.userKey userId p status) v → Leaves I ok (f v)) :
    Leaves I ok (LoanService.listByUserPaginated userId p status >>= f) := by
  refine cachedLeaves here ?_
  rw [Program.bindBind]
  intro d t _
  show Leaves I ok ((require _ (UserRepository.findById d userId) >>= _) >>= f)
  rw [Program.bindBind]
  exact requireLeaves fun _ _ => loanPageLeaves (fun _ => .userLoans) here

end Reads

end Texts

section Keys

def endpointKey : Endpoint → Option String
  | .listLoans page filters => some (LoanService.listKey page filters)
  | .listActiveLoans page => some (LoanService.listKey page ⟨none,none,some .active,none⟩)
  | .listOverdueLoans page => some (LoanService.listKey page ⟨none,none,none,some true⟩)
  | .listLoansByUser userId page status => some (LoanService.userKey userId page status)
  | .getLoan loanId => some (LoanService.itemKey loanId)
  | _ => none

def keyOf : Client → Option String
  | .anonymous (.listBooks page filters) => some (BookService.listKey page filters)
  | .anonymous (.getBook bookId) => some (BookService.detailKey bookId)
  | .bearer _ (.endpoint e) => endpointKey e
  | _ => none

def Tells (I : Moments) (client : Client) (body : Body) : Prop :=
  ∀ key ∈ keyOf client, ∃ payload, body = .reply (.response (.read payload)) ∧ Shown I key payload

end Keys

section Routes
variable {I : Moments} {α β : Type} {ok : β → Prop} {token : Token}

theorem userLeaves {f : UserModel → Service β} (good : ∀ user, Leaves I ok (f user)) : Leaves I ok (getCurrentUser token >>= f) := by
  cases token with
  | expired => trivial
  | invalid => trivial
  | payload sub role => exact fun _ _ _ => requireLeaves fun user _ => good user

theorem adminLeaves {f : UserModel → Service β} (good : ∀ user, Leaves I ok (f user)) : Leaves I ok (getCurrentAdmin token >>= f) := by
  unfold getCurrentAdmin
  rw [Program.bindBind]
  refine userLeaves fun user => ?_
  rw [Program.bindBind]
  exact refuseLeaves (good user)

theorem ownLoanLeaves {message loanId : String} {proceed : String → Service α} {f : α → Service β}
    (here : Leaves I ok (proceed loanId >>= f)) : Leaves I ok (LoanController.ownLoan message proceed loanId token >>= f) := by
  unfold LoanController.ownLoan
  simp only [Program.bindBind]
  refine userLeaves fun user => getLoanLeaves fun loan _ => ?_
  cases loan with
  | loan view => exact refuseLeaves here
  | _ => trivial

theorem ownReservationLeaves {message reservationId : String} {proceed : ReservationModel → Service α} {f : α → Service β}
    (here : ∀ row, Leaves I ok (proceed row >>= f)) :
    Leaves I ok (Controllers.ReservationController.ownReservation message proceed reservationId token >>= f) := by
  unfold Controllers.ReservationController.ownReservation ReservationService.getReservation
  simp only [Program.bindBind]
  exact userLeaves fun user d _ _ => requireLeaves fun row _ => refuseLeaves (here row)

theorem adminOnlyLeaves {proceed : Service α} {f : α → Service β} (here : Leaves I ok (proceed >>= f)) :
    Leaves I ok (LoanController.adminOnly proceed token >>= f) := by
  unfold LoanController.adminOnly
  rw [Program.bindBind]
  exact adminLeaves fun _ => here

def files : Request → Bool
  | .getBook _ => true
  | .listBooks _ _ => true
  | r => readsLoans r

theorem handleCalls {r : Request} (quiet : files r = false) : Calls (Files fun _ => False) (handle r) := by
  refine Program.callsMono (fun x x' filed e mem => ?_) (handleFiles r)
  rcases filed e mem with old | new
  · exact .inl old
  · cases r <;> contradiction

theorem partCalls {r : Request} {respond : α → Response} {p : Service α} (same : handle r = answer respond p)
    (quiet : files r = false) : Calls (Files fun _ => False) p := by
  have whole := handleCalls quiet
  rw [same] at whole
  exact Program.callsLeft whole

theorem freeLeaves {p : Service α} {f : α → β} (calls : Calls (Files fun _ => False) p) (any : ∀ b, ok b) :
    Leaves I ok (p >>= fun a => pure (f a)) :=
  leavesMono (fun b _ _ => any b) (quietLeaves (Program.callsBind calls fun _ => trivial))

def TellsReply (I : Moments) (e : Endpoint) (reply : Reply) : Prop :=
  ∀ key ∈ endpointKey e, ∃ payload, reply = .response (.read payload) ∧ Shown I key payload

theorem endpointLeaves (e : Endpoint) : Leaves I (TellsReply I e) (e.serve token) := by
  have told {key : String} (same : endpointKey e = some key) (v : Payload) (shown : Shown I key v) :
      TellsReply I e (.response (.read v)) := by
    intro key' mem
    rw [same] at mem
    cases mem
    exact ⟨v,rfl,shown⟩
  have silent (none : endpointKey e = none) (reply : Reply) : TellsReply I e reply := by
    intro key mem
    rw [none] at mem
    contradiction
  cases e with
  | listLoans page filters => exact adminOnlyLeaves (listLoansLeaves (told rfl))
  | listActiveLoans page => exact adminOnlyLeaves (listLoansLeaves (told rfl))
  | listOverdueLoans page => exact adminOnlyLeaves (listLoansLeaves (told rfl))
  | getLoan loanId => exact ownLoanLeaves (getLoanLeaves (told rfl))
  | listLoansByUser userId page status =>
    show Leaves I _ (LoanController.listLoansByUser userId page status token >>= _)
    unfold LoanController.listLoansByUser
    simp only [Program.bindBind]
    exact userLeaves fun user => refuseLeaves (listLoansByUserLeaves (told rfl))
  | updateLoan loanId data => exact adminOnlyLeaves (freeLeaves (partCalls (r := .updateLoan loanId data) rfl rfl) (silent rfl))
  | createLoan data => exact adminOnlyLeaves (freeLeaves (partCalls (r := .createLoan data) rfl rfl) (silent rfl))
  | cancelLoan loanId => exact ownLoanLeaves (freeLeaves (partCalls (r := .cancelLoan loanId) rfl rfl) (silent rfl))
  | payLoanFine loanId => exact ownLoanLeaves (freeLeaves (partCalls (r := .payFine loanId) rfl rfl) (silent rfl))
  | returnLoan loanId => exact ownLoanLeaves (freeLeaves (partCalls (r := .returnLoan loanId) rfl rfl) (silent rfl))
  | renewLoan loanId => exact ownLoanLeaves (freeLeaves (partCalls (r := .renewLoan loanId) rfl rfl) (silent rfl))
  | listReservations page filters =>
    show Leaves I _ (Controllers.ReservationController.listReservations page filters token >>= _)
    unfold Controllers.ReservationController.listReservations
    simp only [Program.bindBind]
    refine userLeaves fun user => refuseLeaves (freeLeaves ?_ (silent rfl))
    simp [ReservationService.listPaginated,ReservationRepository.listPaginated]
  | getReservation reservationId => exact ownReservationLeaves fun row => silent rfl _
  | cancelReservation reservationId =>
    exact ownReservationLeaves fun _ => freeLeaves heldReservationFiles (silent rfl)

theorem updateUserCalls (loaded current : UserModel) : Calls (Files fun _ => False) (UserRepository.update loaded current) := by
  refine Program.callsLeft (f := pure) ?_
  simp [UserRepository.update]

theorem namedUserLeaves {userId : String} {proceed : UserModel → Service α} {f : α → β}
    (calls : ∀ user, Calls (Files fun _ => False) (proceed user)) (any : ∀ b, ok b) :
    Leaves I ok (UserController.namedUser proceed userId token >>= fun a => pure (f a)) := by
  unfold UserController.namedUser UserService.getById
  simp only [Program.bindBind]
  exact adminLeaves fun admin d _ _ => requireLeaves fun user _ => freeLeaves (calls _) any

theorem routeLeaves (s : Deployment) (credentials : String) (r : Route) : Leaves I (Tells I (.bearer credentials r)) (r.serve s token) := by
  have silent (none : keyOf (.bearer credentials r) = none) (body : Body) : Tells I (.bearer credentials r) body := by
    intro key mem
    rw [none] at mem
    contradiction
  have works {a : Request} (quiet : files a = false) (none : keyOf (.bearer credentials r) = none) :
      Leaves I (Tells I (.bearer credentials r)) (work a) := freeLeaves (handleCalls quiet) (silent none)
  cases r with
  | listUsers page =>
    refine adminOnlyLeaves (freeLeaves ?_ (silent rfl))
    simp [UserService.listUsersPaginated,UserRepository.listUsersPaginated]
  | me => exact userLeaves fun _ => silent rfl _
  | getUser userId => exact namedUserLeaves (fun _ => trivial) (silent rfl)
  | updateUser userId name => exact namedUserLeaves (fun _ => updateUserCalls _ _) (silent rfl)
  | deleteUser userId => exact namedUserLeaves (fun _ => updateUserCalls _ _) (silent rfl)
  | updateUserRole userId role => exact namedUserLeaves (fun _ => updateUserCalls _ _) (silent rfl)
  | createAuthor data => exact adminLeaves fun _ => works rfl rfl
  | updateAuthor authorId data => exact adminLeaves fun _ => works rfl rfl
  | deleteAuthor authorId => exact adminLeaves fun _ => works rfl rfl
  | createBook data => exact adminLeaves fun _ => works rfl rfl
  | updateBook bookId data => exact adminLeaves fun _ => works rfl rfl
  | deleteBook bookId => exact adminLeaves fun _ => works rfl rfl
  | createReservation bookId =>
    show Leaves I _ (Api.ReservationController.createReservation bookId token >>= _)
    unfold Api.ReservationController.createReservation
    rw [Program.bindBind]
    exact userLeaves fun user => freeLeaves (partCalls (r := .createReservation bookId user.id.text) rfl rfl) (silent rfl)
  | listNotifications page userId =>
    refine adminOnlyLeaves (freeLeaves ?_ (silent rfl))
    simp [NotificationRepository.listPaginated]
  | runDueLoansJob => exact adminOnlyLeaves (freeLeaves (executeCalls s.zone) (silent rfl))
  | getStats startDate endDate =>
    refine adminOnlyLeaves (freeLeaves ?_ (silent rfl))
    simp [Reports.ReportService.getStats,Reports.ReportService.execute]
  | exportLoansCsv status userId bookId startDate endDate =>
    refine adminOnlyLeaves (freeLeaves ?_ (silent rfl))
    simp [Reports.ReportService.generateLoansCsv,Reports.ReportService.execute]
  | exportFinesPdf userId bookId minAmount startDate endDate =>
    refine adminOnlyLeaves (freeLeaves ?_ (silent rfl))
    simp [Reports.ReportService.generateFinesPdf,Reports.ReportService.execute]
  | endpoint e =>
    refine leavesBind.mpr (leavesMono (fun reply _ told key mem => ?_) (endpointLeaves e))
    obtain ⟨payload,rfl,shown⟩ := told key mem
    exact ⟨payload,rfl,shown⟩

theorem openLeaves (s : Deployment) (r : OpenRoute) : Leaves I (Tells I (.anonymous r)) (r.serve s) := by
  have silent (none : keyOf (.anonymous r) = none) (body : Body) : Tells I (.anonymous r) body := by
    intro key mem
    rw [none] at mem
    contradiction
  have told {key : String} (same : keyOf (.anonymous r) = some key) (v : Payload) (shown : Shown I key v) :
      Tells I (.anonymous r) (.reply (.response (.read v))) := by
    intro key' mem
    rw [same] at mem
    cases mem
    exact ⟨v,rfl,shown⟩
  cases r with
  | createUser data => exact freeLeaves (handleCalls rfl) (silent rfl)
  | login data =>
    refine freeLeaves (f := Body.accessToken) (fun rows => callsScalar fun row => ?_) (silent rfl)
    simp [createAccessToken]
  | listAuthors page =>
    refine freeLeaves ?_ (silent rfl)
    simp [AuthorService.listAuthorsPaginated,AuthorRepository.listAuthorsPaginated]
  | getAuthor authorId =>
    exact fun d _ _ => requireLeaves fun _ _ => silent rfl _
  | listBooks page filters =>
    show Leaves I _ ((BookService.listBooksPaginated page filters >>= _) >>= _)
    rw [Program.bindBind]
    exact listBooksLeaves (told rfl)
  | getBook bookId =>
    show Leaves I _ ((BookService.getBook bookId >>= _) >>= _)
    rw [Program.bindBind]
    exact getBookLeaves (told rfl)

theorem clientLeaves (s : Deployment) (client : Client) : Leaves I (Tells I client) (client.serve s) := by
  cases client with
  | anonymous r => exact openLeaves s r
  | scheduler => exact freeLeaves (executeCalls s.zone) fun _ => nofun
  | bearer credentials r =>
    show Leaves I _ (decodeToken s credentials >>= fun token => r.serve s token)
    rw [Application.decodeThen]
    split
    · exact routeLeaves s credentials r
    · exact fun _ _ _ => routeLeaves s credentials r

end Routes

section Runs
variable {s : Deployment} {clients : Nat → Option Client}

theorem runTold (s : Deployment) (clients : Nat → Option Client) (d : Database) (t : Int) (moves : Moves) :
    let began := receive s (settled d [] t) clients
    Left (moments began moves) (Told (moments began moves))
      (fun j body => ∀ client, clients j = some client → Tells (moments began moves) client body) (began.run moves) := by
  intro began
  refine Program.runLeft (fun seen before => ⟨seen,before,rfl,rfl⟩) ⟨fun _ mem => absurd mem List.not_mem_nil,fun j thread here => ?_⟩
  obtain ⟨p,found,rfl⟩ := Option.map_eq_some_iff.mp here
  obtain ⟨client,sent,rfl⟩ := Option.map_eq_some_iff.mp found
  refine leavesMono (fun body _ told client' sent' => ?_) (clientLeaves s client)
  obtain rfl := Option.some.inj (sent.symm.trans sent')
  exact told

/-- Nothing false is ever told: from an empty cache on, in every state of every run, each entry of the
cache answers a query of its key at moments of the run, and so has every read answered, from
the cache or not. -/
theorem nothingFalseTold (s : Deployment) (clients : Nat → Option Client) (d : Database) (t : Int) (moves : Moves) :
    let began := receive s (settled d [] t) clients
    let final := began.run moves
    Told (moments began moves) final.world.ext ∧ ∀ j client body, clients j = some client →
      final.pool j = some (.finished (.ok body)) → Tells (moments began moves) client body :=
  ⟨(runTold s clients d t moves).held,fun j client _ sent here => (runTold s clients d t moves).threads j _ here client sent⟩

theorem shownLoan {I : Moments} {key : String} {view : LoanView} (shown : Shown I key (.loan view)) :
    ∃ loanId d t l, key = LoanService.itemKey loanId ∧ I d t ∧ d.loans.find loanId = some l ∧ Serialized I l view := by
  cases shown with
  | loan here found serialized => exact ⟨_,_,_,_,rfl,here,found,serialized⟩

/-- What a user has been told of a closed loan, be it out of a stale cache, the loan is still,
but for its due date. -/
theorem closedToldForGood (s : Deployment) {clients : Nat → Option Client} (d : Database) (t : Int) (moves : Moves) {j : Nat}
    {credentials loanId : String} {view : LoanView} (sent : clients j = some (.bearer credentials (.endpoint (.getLoan loanId))))
    (closed : view.status ≠ .active) :
    let final := (receive s (settled d [] t) clients).run moves
    final.pool j = some (.finished (.ok (.reply (.response (.read (.loan view)))))) →
      ∃ l t, final.world.db.loans.find loanId = some l ∧ view = serializeAt {l with dueDate := view.dueDate} t := by
  intro final here
  obtain ⟨payload,same,shown⟩ := (runTold s clients d t moves).threads j _ here _ sent _ rfl
  cases same
  obtain ⟨k,d',_,l,key,⟨seen,⟨later,rfl⟩,rfl,_⟩,found,t',serialized,_⟩ := shownLoan shown
  obtain rfl : loanId = k := by simpa [LoanService.itemKey] using key
  have status : view.status = l.status := by rw [serialized]; rfl
  obtain ⟨l',found',kept⟩ := (Permanence.nothingLost s clients d [] t seen later).loans loanId l found
  refine ⟨l',t',found',?_⟩
  rw [kept.closed (status ▸ closed),serialized]
  rfl

def lookedAt (j : Nat) : Option Client :=
  if j = 0 then some (.bearer (sampleId 2).text (.endpoint (.returnLoan (sampleId 4).text)))
  else if j < 3 then some (.bearer (sampleId 2).text (.endpoint (.getLoan (sampleId 4).text))) else none

def oneByOne : Moves := List.replicate 30 (0,tick 5) ++ List.replicate 14 (1,tick 6) ++ List.replicate 14 (2,tick 7)

def returnedView : LoanView :=
  serializeAt {LoanService.newLoan (sampleId 4) sampleUser (sampleBook 1) 0 0 with status := .returned,returnedAt := some 0} 0

set_option maxRecDepth 2000 in
theorem lookedAtForGood : let final := (receive plainTokens (settled lentOnce.db [] lentOnce.clock) lookedAt).run oneByOne
    ∃ l t, final.world.db.loans.find (sampleId 4).text = some l ∧ returnedView = serializeAt {l with dueDate := returnedView.dueDate} t := by
  have sent : lookedAt 2 = some (.bearer (sampleId 2).text (.endpoint (.getLoan (sampleId 4).text))) :=
    (if_neg (by decide)).trans (if_pos (by decide))
  exact closedToldForGood plainTokens lentOnce.db lentOnce.clock oneByOne sent nofun rfl

end Runs
end LibraryApi.CachedTruth
