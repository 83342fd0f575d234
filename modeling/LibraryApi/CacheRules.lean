import LibraryApi.LoneRules
import LibraryApi.Requests

/-! What the services do to the cache. Only the three reads of loans file an entry
that shows loans; every other request lets such entries go at most, and the
invalidations of the loan desk name the keys they let go. -/
namespace LibraryApi.CacheRules
open Models CacheService Repositories Requests NotificationHandlers
open Program (Calls wp wpBind wpMono lone loneSelect)

def loansIn : Payload → List LoanView
  | .book _ => []
  | .books _ => []
  | .loan view => [view]
  | .loans page => page.items

def Lets (x x' : Cache) : Prop := ∀ e ∈ x', e ∈ x ∨ loansIn e.2 = []

def Files (P : String × Payload → Prop) (x x' : Cache) : Prop := ∀ e ∈ x', e ∈ x ∨ P e

theorem filesRefl (P : String × Payload → Prop) (x : Cache) : Files P x x := fun _ mem => .inl mem

theorem filesTrans {P : String × Payload → Prop} {a b c : Cache} (left : Files P a b)
    (right : Files P b c) : Files P a c := by
  intro e mem
  rcases right e mem with old | new
  · exact left e old
  · exact .inr new

theorem letsFiles : Lets = Files fun e => loansIn e.2 = [] := rfl

section Silent
variable {S : Cache → Cache → Prop} {α β : Type} {f : α → Service β}

@[simp] theorem callsRequire {error : ApiError} {row : Option α} :
    Calls S (require error row >>= f) ↔ ∀ a ∈ row, Calls S (f a) := by
  cases row with
  | none => exact iff_of_true trivial nofun
  | some a => exact ⟨fun h _ same => Option.some.inj same ▸ h,fun h => h a rfl⟩

@[simp] theorem callsRefuse {bad : Prop} [Decidable bad] {error : ApiError} {f : Unit → Service β} :
    Calls S (refuse bad error >>= f) ↔ ¬ bad → Calls S (f ()) := by
  unfold refuse
  split
  · rename_i h; exact iff_of_true trivial fun none => absurd h none
  · rename_i h; exact ⟨fun rest _ => rest,fun rest => rest h⟩

@[simp] theorem callsScalar {rows : List α} {f : Option α → Service β} (h : ∀ a, Calls S (f a)) :
    Calls S (scalarOneOrNone rows >>= f) := by
  unfold scalarOneOrNone
  split
  · exact h _
  · exact h _
  · trivial

@[simp] theorem callsWriteAll {xs : List Write} {f : Unit → Service β} :
    Calls S (AuthorRepository.writeAll xs >>= f) ↔ Calls S (f ()) := by
  induction xs with
  | nil => exact Iff.rfl
  | cons x rest ih => exact ih

@[simp] theorem callsDueDate {loan : LoanModel} {due : Option LoanService.DateTime}
    {f : LoanModel → Service β} (h : ∀ a, Calls S (f a)) :
    Calls S (LoanService.dueDateChecked loan due >>= f) := by
  unfold LoanService.dueDateChecked
  split <;> simp [h]

@[simp] theorem callsSerialize {loan : LoanModel} {f : LoanView → Service β} (h : ∀ a, Calls S (f a)) :
    Calls S (LoanService.serializeLoan loan >>= f) := by
  unfold LoanService.serializeLoan
  split <;> simp [h]

@[simp] theorem callsSerializeAll {loans : List LoanModel} {f : List LoanView → Service β}
    (h : ∀ a, Calls S (f a)) : Calls S (LoanService.serializeAll loans >>= f) := by
  induction loans generalizing f with
  | nil => exact h []
  | cons loan rest ih =>
    rw [LoanService.serializeAll,Program.bindBind]
    refine callsSerialize fun view => ?_
    rw [Program.bindBind]
    exact ih fun views => h (view :: views)

end Silent

section Filing
variable {P : String × Payload → Prop} {α β : Type}

theorem callsRedis {act : Cache → α × Cache} {f : α → Service β} (h : ∀ x, Files P x (act x).2) :
    Calls (Files P) (redis act >>= f) ↔ ∀ a, Calls (Files P) (f a) := by
  refine and_iff_right fun a x b x' done => ?_
  beta_reduce at done
  split at done
  · obtain rfl := congrArg Prod.snd (Except.ok.inj done)
    exact filesTrans (fun _ mem => .inl (List.mem_of_mem_filter mem)) (h _)
  · contradiction

@[simp] theorem callsGet {key : String} {f : Option Payload → Service β} :
    Calls (Files P) (get key >>= f) ↔ ∀ a, Calls (Files P) (f a) := callsRedis (filesRefl P)

@[simp] theorem callsDelete {key : String} {f : Unit → Service β} :
    Calls (Files P) (delete key >>= f) ↔ Calls (Files P) (f ()) :=
  (callsRedis fun _ _ mem => .inl (List.mem_of_mem_filter mem)).trans
    ⟨fun h => h (),fun h _ => h⟩

@[simp] theorem callsDeletePattern {pattern : String} {f : Unit → Service β} :
    Calls (Files P) (deletePattern pattern >>= f) ↔ Calls (Files P) (f ()) := by
  unfold deletePattern
  rw [Program.bindBind]
  refine (callsRedis (filesRefl P)).trans ⟨fun h => h [],fun h keys => ?_⟩
  induction keys with
  | nil => exact h
  | cons key rest ih =>
    unfold deleteKeys
    rw [Program.bindBind,callsDelete]; exact ih

theorem callsSet {key : String} {value : Payload} {f : Unit → Service β} (filed : P (key,value)) :
    Calls (Files P) (set key value >>= f) ↔ Calls (Files P) (f ()) := by
  refine (callsRedis fun x e mem => ?_).trans ⟨fun h => h (),fun h _ => h⟩
  rcases List.mem_cons.mp mem with rfl | old
  · exact .inr filed
  · exact .inl (List.mem_of_mem_filter old)

theorem callsAnswer {g : Answer → α} {f : α → Service β} :
    Calls (Files P) ((Program.call fun a x => .ok (g a,x) : Service α) >>= f) ↔ ∀ a, Calls (Files P) (f a) :=
  and_iff_right fun _ _ _ _ done => by cases done; exact filesRefl P _

@[simp] theorem callsUuid {f : Uuid → Service β} :
    Calls (Files P) (newUuid >>= f) ↔ ∀ id, Calls (Files P) (f id) := callsAnswer

@[simp] theorem callsHash {password : String} {f : String → Service β} :
    Calls (Files P) (hashPassword password >>= f) ↔ ∀ hash, Calls (Files P) (f hash) :=
  and_iff_right fun a x b x' done => by
    dsimp only at done
    split at done <;> cases done
    exact filesRefl P _

@[simp] theorem callsOrder {f : List Nat → Service β} :
    Calls (Files P) (rowOrder >>= f) ↔ ∀ order, Calls (Files P) (f order) := callsAnswer

@[simp] theorem callsLowering {f : (Char → Char) → Service β} :
    Calls (Files P) (lowering >>= f) ↔ ∀ lower, Calls (Files P) (f lower) := callsAnswer

@[simp] theorem callsSend {userId : Uuid} {type : NotificationType} {message : String}
    {loanId reservationId : Option Uuid} {f : NotificationModel → Service β} (h : ∀ a, Calls (Files P) (f a)) :
    Calls (Files P) (NotificationService.sendNotification userId type message loanId reservationId >>= f) := by
  simp [NotificationService.sendNotification,NotificationRepository.create,h]

@[simp] theorem callsPublish {event : DomainEvent} {f : Unit → Service β} (h : Calls (Files P) (f ())) :
    Calls (Files P) (publish event >>= f) := by
  rw [publishDelivers,Program.bindBind]
  cases event <;> exact Program.callsBind (callsSend fun _ => trivial) fun _ => h

def readsLoans : Request → Bool
  | .getLoan _ => true
  | .listLoans _ _ => true
  | .listLoansByUser _ _ _ => true
  | _ => false

def filedBy : Request → String × Payload → Prop
  | .getBook bookId, e => e.1 = BookService.detailKey bookId ∧ ∃ view, e.2 = .book view
  | .listBooks page filters, e => e.1 = BookService.listKey page filters ∧ ∃ books, e.2 = .books books
  | .getLoan loanId, e => e.1 = LoanService.itemKey loanId ∧ ∃ view, e.2 = .loan view
  | .listLoans page filters, e => e.1 = LoanService.listKey page filters ∧ ∃ loans, e.2 = .loans loans
  | .listLoansByUser userId page status, e =>
      e.1 = LoanService.userKey userId page status ∧ ∃ loans, e.2 = .loans loans
  | _, _ => False

theorem heldReservationFiles {P : String × Payload → Prop} {reservationId : String} {row : ReservationModel} :
    Calls (Files P) (do
      let _ ← ReservationService.getReservation reservationId
      ReservationService.cancelLoaded row) := by
  simp [ReservationService.getReservation,ReservationService.cancelLoaded,ReservationRepository.update]

theorem handleFiles (r : Request) : Calls (Files (filedBy r)) (handle r) := by
  unfold handle answer
  cases r with
  | createBook data => simp [BookService.createBook]
  | updateBook bookId data =>
    simp [BookService.updateBook,BookRepository.update,BookService.forgetBook]
  | deleteBook bookId => simp [BookService.deleteBook,BookRepository.softDelete,BookService.forgetBook]
  | getBook bookId =>
    have filed (view) : filedBy (.getBook bookId) (BookService.detailKey bookId,.book view) := ⟨rfl,view,rfl⟩
    refine Program.callsBind (callsGet.mpr fun cached => ?_) fun _ => trivial
    cases cached <;> simp [callsSet,filed]
  | listBooks page filters =>
    have filed (books) : filedBy (.listBooks page filters) (BookService.listKey page filters,.books books) := ⟨rfl,books,rfl⟩
    refine Program.callsBind (callsGet.mpr fun cached => ?_) fun _ => trivial
    cases cached <;> simp [BookRepository.listBooksPaginated,callsSet,filed]
  | createAuthor data => simp [AuthorService.createAuthor]
  | updateAuthor authorId data =>
    simp [AuthorService.updateAuthor,AuthorRepository.update,AuthorService.forgetBooks]
  | deleteAuthor authorId =>
    simp [AuthorService.deleteAuthor,AuthorRepository.softDelete,AuthorService.forgetBooks]
  | createUser data => simp [UserService.createUser]
  | updateUser userId name => simp [UserService.updateUser,UserService.getById,UserRepository.update]
  | updateRole userId role => simp [UserService.updateRole,UserService.getById,UserRepository.update]
  | deleteUser userId => simp [UserService.deleteUser,UserService.getById,UserRepository.update]
  | createReservation bookId userId => simp [ReservationService.createReservation]
  | cancelReservation reservationId =>
    simp [ReservationService.cancelReservation,ReservationService.cancelLoaded,ReservationRepository.update]
  | createLoan data =>
    simp [LoanService.createLoan,LoanRepository.getBookForUpdate,LoanRepository.refresh,
      BookService.forgetBook,LoanService.invalidateLoanCache]
  | returnLoan loanId =>
    simp [LoanService.returnLoan,LoanRepository.findActiveByIdForUpdate,LoanRepository.getBookForUpdate,
      LoanRepository.refresh,BookService.forgetBook,LoanService.invalidateLoanCache]
  | cancelLoan loanId =>
    simp [LoanService.cancelLoan,LoanRepository.findActiveByIdForUpdate,LoanRepository.getBookForUpdate,
      LoanRepository.refresh,BookService.forgetBook,LoanService.invalidateLoanCache]
  | renewLoan loanId =>
    simp [LoanService.renewLoan,LoanRepository.findActiveByIdForUpdate,LoanRepository.update,
      LoanRepository.refresh]
  | payFine loanId =>
    simp [LoanService.payFine,LoanRepository.findActiveByIdForUpdate,LoanRepository.update,
      LoanRepository.refresh,LoanService.invalidateLoanCache]
  | updateLoan loanId data =>
    simp [LoanService.updateLoan,LoanRepository.update,LoanRepository.refresh,
      LoanService.invalidateLoanCache]
  | getLoan loanId =>
    have filed (view) : filedBy (.getLoan loanId) (LoanService.itemKey loanId,.loan view) := ⟨rfl,view,rfl⟩
    refine Program.callsBind (callsGet.mpr fun cached => ?_) fun _ => trivial
    cases cached <;> simp [callsSet,filed]
  | listLoans page filters =>
    have filed (loans) : filedBy (.listLoans page filters) (LoanService.listKey page filters,.loans loans) := ⟨rfl,loans,rfl⟩
    refine Program.callsBind (callsGet.mpr fun cached => ?_) fun _ => trivial
    cases cached <;> simp [LoanRepository.listPaginated,callsSet,filed]
  | listLoansByUser userId page status =>
    have filed (loans) : filedBy (.listLoansByUser userId page status) (LoanService.userKey userId page status,.loans loans) := ⟨rfl,loans,rfl⟩
    refine Program.callsBind (callsGet.mpr fun cached => ?_) fun _ => trivial
    cases cached <;> simp [LoanRepository.listPaginated,callsSet,filed]

theorem handleLets {r : Request} (other : readsLoans r = false) : Calls Lets (handle r) := by
  rw [letsFiles]
  refine Program.callsMono (fun x x' files e mem => (files e mem).imp_right fun filed => ?_) (handleFiles r)
  cases r with
  | getBook => obtain ⟨_,_,same⟩ := filed; rw [same]; rfl
  | listBooks => obtain ⟨_,_,same⟩ := filed; rw [same]; rfl
  | getLoan => contradiction
  | listLoans => contradiction
  | listLoansByUser => contradiction
  | _ => exact filed.elim

end Filing
section Dropping
variable {i : Nat} {A : Answer → Prop} {α : Type} {pending : List Write} {w : World} {p q : String → Bool}

theorem loneRedis {act : Cache → α × Cache} {ok : α → List Write → World → Prop}
    {err : ApiError → World → Prop}
    (up : ∀ x : Cache, (∀ e ∈ x, e ∈ w.ext) → ok (act x).1 pending {w with ext := (act x).2})
    (down : err .redisError w) : wp (lone i A) ok err (redis act) pending w := by
  intro w' same a _
  cases same
  split <;> rename_i done <;> beta_reduce at done
  · split at done
    · obtain ⟨rfl,rfl⟩ := Prod.mk.inj (Except.ok.inj done)
      exact up _ fun e mem => List.mem_of_mem_filter mem
    · contradiction
  · split at done
    · contradiction
    · cases done; exact down

def Drops (p : String → Bool) (s : Service Unit) : Prop := ∀ i A pending w,
  wp (lone i A) (fun _ pending' w' => pending' = pending ∧ w'.db = w.db ∧
    ∀ e ∈ w'.ext, e ∈ w.ext ∧ p e.1 = false) (fun _ _ => True) s pending w

theorem deleteDrops (key : String) : Drops (· == key) (delete key) :=
  fun _ _ _ _ => loneRedis (fun _ sub => ⟨rfl,rfl,fun e mem =>
    ⟨sub e (List.mem_of_mem_filter mem),by simpa using (List.mem_filter.mp mem).2⟩⟩) trivial

theorem dropsBind {s t : Service Unit} (hs : Drops p s) (ht : Drops q t) :
    Drops (fun key => p key || q key) (s >>= fun _ => t) := by
  intro i A pending w
  refine wpBind.mpr (wpMono (fun _ pending₁ w₁ first => ?_) (fun _ _ _ => trivial) (hs i A pending w))
  obtain ⟨rfl,db₁,old⟩ := first
  refine wpMono (fun _ _ w₂ second => ?_) (fun _ _ _ => trivial) (ht i A pending₁ w₁)
  obtain ⟨rfl,db₂,new⟩ := second
  refine ⟨rfl,db₂.trans db₁,fun e mem => ?_⟩
  obtain ⟨mem₁,notQ⟩ := new e mem
  obtain ⟨mem₀,notP⟩ := old e mem₁
  exact ⟨mem₀,by simp [notP,notQ]⟩

theorem deleteKeysDrops (keys : List String) : Drops (fun key => keys.contains key) (deleteKeys keys) := by
  induction keys with
  | nil => exact fun _ _ _ _ => ⟨rfl,rfl,fun _ mem => ⟨mem,rfl⟩⟩
  | cons key rest ih =>
    have both : Drops _ (deleteKeys (key :: rest)) := dropsBind (deleteDrops key) ih
    simpa only [List.contains_cons] using both

theorem deletePatternDrops (pattern : String) : Drops (Wildcard.glob pattern) (deletePattern pattern) := by
  intro i A pending w
  refine wpBind.mpr (loneRedis (fun x sub => ?_) trivial)
  refine wpMono (fun _ _ w' post => ?_) (fun _ _ _ => trivial) (deleteKeysDrops _ i A pending _)
  obtain ⟨rfl,db,left⟩ := post
  refine ⟨rfl,db,fun e mem => ?_⟩
  obtain ⟨inside,spared⟩ := left e mem
  refine ⟨sub e inside,Bool.eq_false_iff.mpr fun hit => ?_⟩
  have listed : e.1 ∈ (x.map Prod.fst).filter (Wildcard.glob pattern) :=
    List.mem_filter.mpr ⟨List.mem_map_of_mem inside,hit⟩
  simp only [List.contains_eq_mem,decide_eq_false_iff_not] at spared
  exact spared listed

def swept (userId loanId : Uuid) (key : String) : Bool :=
  key == LoanService.itemKey loanId.text || (Wildcard.glob "loans:list*" key ||
    Wildcard.glob ("loans:user:" ++ userId.text ++ ":" ++ "*") key)

theorem invalidateDrops (userId loanId : Uuid) :
    Drops (swept userId loanId) (LoanService.invalidateLoanCache userId loanId) :=
  dropsBind (deleteDrops _) (dropsBind (deletePatternDrops _) (deletePatternDrops _))

def bookSwept (bookId key : String) : Bool :=
  key == BookService.detailKey bookId || Wildcard.glob "books:list*" key

theorem forgetBookDrops (bookId : String) : Drops (bookSwept bookId) (BookService.forgetBook bookId) :=
  dropsBind (deleteDrops _) (deletePatternDrops _)

def booksSwept (key : String) : Bool := Wildcard.glob "book:*" key || Wildcard.glob "books:list*" key

theorem forgetBooksDrops : Drops booksSwept AuthorService.forgetBooks :=
  dropsBind (deletePatternDrops _) (deletePatternDrops _)

theorem dropsThen {s : Service Unit} {f : Unit → Service α} {ok : α → List Write → World → Prop}
    (h : Drops p s) (rest : ∀ w', w'.db = w.db → (∀ e ∈ w'.ext, e ∈ w.ext ∧ p e.1 = false) →
      wp (lone i A) ok (fun _ _ => True) (f ()) pending w') :
    wp (lone i A) ok (fun _ _ => True) (s >>= f) pending w := by
  refine wpBind.mpr (wpMono (fun _ _ w' post => ?_) (fun _ _ _ => trivial) (h i A pending w))
  obtain ⟨rfl,db,left⟩ := post
  exact rest w' db left

end Dropping

section Sweeping
variable {i : Nat} {A : Answer → Prop} {α : Type} {pending : List Write} {w : World} {k : String}
  {ok : α → List Write → World → Prop} {ok' : LoanView → List Write → World → Prop}
  {err : ApiError → World → Prop}

def Swept (k : String) (w : World) : Prop := ∀ l, w.db.loans.find k = some l →
  ∀ e ∈ w.ext, swept l.userId l.id e.1 = false

def Unshelved (k : String) (w : World) : Prop := ∀ l, w.db.loans.find k = some l →
  ∀ e ∈ w.ext, bookSwept l.bookId.text e.1 = false

theorem requireThen {β : Type} {e : ApiError} {row : Option β} {f : β → Service α}
    (missing : err e w) (rest : ∀ b, row = some b → wp (lone i A) ok err (f b) pending w) :
    wp (lone i A) ok err (require e row >>= f) pending w := by
  cases row with
  | none => exact missing
  | some b => exact rest b rfl

theorem lockedLoan {e : ApiError} {f : LoanModel → Service α}
    (rest : ∀ l pending w, l.id.text = k → wp (lone i A) ok (fun _ _ => True) (f l) pending w) :
    wp (lone i A) ok (fun _ _ => True)
      (LoanRepository.findActiveByIdForUpdate k >>= fun row => require e row >>= f) pending w := by
  refine wpBind.mpr fun w' _ => ?_
  split
  · trivial
  · rename_i l found
    obtain ⟨stored,_⟩ := Option.filter_eq_some_iff.mp found
    exact rest l _ _ (KeyedTable.Table.findSound stored).2

theorem refreshThen {c : LoanModel} {f : LoanModel → Service α}
    (rest : ∀ a, (∀ l, w.db.loans.find c.id.text = some l → l = a) → wp (lone i A) ok err (f a) [] w) :
    wp (lone i A) ok err (LoanRepository.refresh c >>= f) [] w :=
  wpBind.mpr (loneSelect (rest _ fun l found => by simp [found]))

theorem commitThen {f : Unit → Service α}
    (rest : ∀ w, wp (lone i A) ok (fun _ _ => True) (f ()) [] w) :
    wp (lone i A) ok (fun _ _ => True) (Program.commit >>= f) pending w :=
  wpBind.mpr (Program.loneCommit rest)

theorem updateThen {l c : LoanModel} {f : LoanModel → Service α}
    (rest : ∀ a w, (∀ l, w.db.loans.find c.id.text = some l → l = a) →
      wp (lone i A) ok (fun _ _ => True) (f a) [] w) :
    wp (lone i A) ok (fun _ _ => True) (LoanRepository.update l c >>= f) pending w := by
  unfold LoanRepository.update
  rw [Program.bindBind]
  refine Program.loneSkip fun _ pending w => ?_
  rw [Program.bindBind]
  exact commitThen fun w => refreshThen fun a known => rest a w known

theorem sweepThen {a : LoanModel} {f : Unit → Service α}
    (known : ∀ l, w.db.loans.find k = some l → l = a)
    (rest : ∀ w', Swept k w' → wp (lone i A) ok (fun _ _ => True) (f ()) pending w') :
    wp (lone i A) ok (fun _ _ => True) (LoanService.invalidateLoanCache a.userId a.id >>= f) pending w :=
  dropsThen (invalidateDrops _ _) fun w' db left => rest w' fun l found e mem => by
    rw [known l (db ▸ found)]; exact (left e mem).2

theorem serializeRule {loan : LoanModel}
    (here : ∀ t w', w'.db = w.db → w'.ext = w.ext → ok' (LoanService.serializeAt loan t) pending w') :
    wp (lone i A) ok' err (LoanService.serializeLoan loan) pending w := by
  unfold LoanService.serializeLoan
  split
  · exact here _ w rfl rfl
  · intro w' same n
    cases same
    exact here _ _ rfl rfl

theorem sendRule {userId : Uuid} {type : NotificationType} {message : String}
    {loanId reservationId : Option Uuid} : wp (lone i A)
      (fun _ _ w' => w'.db.loans = w.db.loans ∧ w'.ext = w.ext) (fun _ _ => True)
      (NotificationService.sendNotification userId type message loanId reservationId) [] w := by
  refine wpBind.mpr fun w₁ same n => ?_
  cases same
  refine wpBind.mpr fun w₂ same a _ => ?_
  cases same
  refine wpBind.mpr fun w₃ same n => ?_
  cases same
  refine wpBind.mpr fun w₄ same => wpBind.mpr fun w₅ same' => ⟨trivial,fun w₆ last => ?_⟩
  cases last
  cases same'
  cases same
  exact ⟨rfl,rfl⟩

theorem publishRule {event : DomainEvent} : wp (lone i A)
    (fun _ _ w' => w'.db.loans = w.db.loans ∧ w'.ext = w.ext) (fun _ _ => True) (publish event) [] w := by
  rw [publishDelivers]
  cases event <;> exact wpBind.mpr (wpBind.mpr sendRule)

theorem dueDateRule {l : LoanModel} {due : Option LoanService.DateTime} : wp (lone i A)
    (fun c _ _ => c.id = l.id) (fun _ _ => True) (LoanService.dueDateChecked l due) pending w := by
  unfold LoanService.dueDateChecked
  split
  · exact rfl
  · trivial
  · exact Program.loneSkip fun _ _ _ => rfl

theorem payFineSweeps : wp (lone i A) (fun _ _ => Swept k) (fun _ _ => True)
    (LoanService.payFine k) [] w := by
  refine lockedLoan fun l _ _ id => Program.loneSkip fun now _ _ => ?_
  refine Program.loneSkip fun _ _ _ => Program.loneSkip fun _ _ _ => ?_
  exact updateThen fun a w known => sweepThen (fun l found => known l (id ▸ found)) fun w' done => done

theorem updateLoanSweeps {data : LoanService.UpdateLoanSchema} : wp (lone i A) (fun _ _ => Swept k)
    (fun _ _ => True) (LoanService.updateLoan k data) [] w := by
  refine wpBind.mpr (loneSelect (requireThen trivial fun l found => ?_))
  have id : l.id.text = k := (KeyedTable.Table.findSound found).2
  refine Program.loneSkip fun _ _ _ => wpBind.mpr ?_
  refine wpMono (fun c _ w₁ same => ?_) (fun _ _ _ => trivial) (dueDateRule (l := l))
  refine updateThen fun a w known => sweepThen (k := k) (fun l found => known l ?_) fun w' done => ?_
  · rw [same,id]; exact found
  · exact serializeRule fun _ w₂ db ext l found => by rw [ext]; exact done l (db ▸ found)

theorem closingSweeps {c : LoanModel} {event : LoanModel → Int → DomainEvent} {answer : LoanModel → α}
    (id : c.id.text = k) : wp (lone i A) (fun _ _ w => Swept k w ∧ Unshelved k w) (fun _ _ => True) (do
      Program.commit
      let l ← LoanRepository.refresh c
      BookService.forgetBook l.bookId.text
      LoanService.invalidateLoanCache l.userId l.id
      let t ← Program.now
      publish (event l t)
      return answer l) pending w := by
  refine commitThen fun w => refreshThen fun a known => ?_
  rw [id] at known
  refine dropsThen (forgetBookDrops _) fun w₁ db₁ left₁ => ?_
  refine dropsThen (invalidateDrops _ _) fun w₂ db₂ left₂ => ?_
  refine wpBind.mpr fun w₃ same n => wpBind.mpr ?_
  cases same
  refine wpMono (fun _ _ w₄ kept => ?_) (fun _ _ h => h) publishRule
  have row {l : LoanModel} (found : w₄.db.loans.find k = some l) : l = a := by
    rw [kept.1] at found
    exact known l (db₁ ▸ db₂ ▸ found)
  rw [← kept.2] at left₂
  refine ⟨fun l found e mem => ?_,fun l found e mem => ?_⟩
  · rw [row found]; exact (left₂ e mem).2
  · rw [row found]; exact (left₁ e (left₂ e mem).1).2

theorem returnLoanSweeps : wp (lone i A) (fun _ _ w => Swept k w ∧ Unshelved k w) (fun _ _ => True)
    (LoanService.returnLoan k) [] w := by
  refine lockedLoan fun l _ _ id => Program.loneSkip fun now _ _ => ?_
  refine Program.loneSkip fun _ _ _ => Program.loneSkip fun _ _ _ => Program.loneSkip fun _ _ _ => ?_
  exact Program.loneSkip fun _ _ _ => Program.loneSkip fun _ _ _ => closingSweeps id

theorem cancelLoanSweeps : wp (lone i A) (fun _ _ w => Swept k w ∧ Unshelved k w) (fun _ _ => True)
    (LoanService.cancelLoan k) [] w := by
  refine lockedLoan fun l _ _ id => Program.loneSkip fun _ _ _ => Program.loneSkip fun _ _ _ => ?_
  exact Program.loneSkip fun now _ _ => Program.loneSkip fun _ _ _ => Program.loneSkip fun _ _ _ =>
    closingSweeps id

theorem createLoanSweeps {data : LoanService.CreateLoanSchema} :
    wp (lone i A) (fun _ _ w => ∀ e ∈ w.ext, bookSwept data.bookId e.1 = false) (fun _ _ => True)
      (LoanService.createLoan data) [] w := by
  refine Program.loneSkip fun _ _ _ => Program.loneSkip fun user _ _ => Program.loneSkip fun _ _ _ => ?_
  refine Program.loneSkip fun _ _ _ => Program.loneSkip fun _ _ _ => Program.loneSkip fun book _ _ => ?_
  refine Program.loneSkip fun _ _ _ => Program.loneSkip fun now _ _ => Program.loneSkip fun _ _ _ => ?_
  refine Program.loneSkip fun id _ _ => Program.loneSkip fun createdAt _ _ => Program.loneSkip fun _ _ _ => ?_
  refine Program.loneSkip fun created _ _ => commitThen fun w => refreshThen fun stored _ => ?_
  refine dropsThen (forgetBookDrops _) fun w₁ _ left₁ => dropsThen (invalidateDrops _ _) fun w₂ _ left₂ => ?_
  refine wpBind.mpr fun w₃ same n => wpBind.mpr ?_
  cases same
  refine wpMono (fun _ _ w₄ kept => ?_) (fun _ _ h => h) publishRule
  refine serializeRule fun _ w₅ _ ext e mem => ?_
  rw [ext,kept.2] at mem
  exact (left₁ e (left₂ e mem).1).2

theorem createBookSweeps {data : BookService.CreateBookSchema} :
    wp (lone i A) (fun _ _ w => ∀ e ∈ w.ext, Wildcard.glob "books:list*" e.1 = false) (fun _ _ => True)
      (BookService.createBook data) [] w := by
  refine Program.loneSkip fun _ _ _ => Program.loneSkip fun _ _ _ => Program.loneSkip fun _ _ _ => ?_
  refine Program.loneSkip fun _ _ _ => Program.loneSkip fun author _ _ => Program.loneSkip fun id _ _ => ?_
  refine Program.loneSkip fun createdAt _ _ => Program.loneSkip fun _ _ _ => commitThen fun w => ?_
  exact Program.loneSkip fun stored _ _ => dropsThen (deletePatternDrops _) fun w' _ left e mem => (left e mem).2

theorem updateBookSweeps {bookId : String} {data : BookService.UpdateBookSchema} :
    wp (lone i A) (fun _ _ w => ∀ e ∈ w.ext, bookSwept bookId e.1 = false) (fun _ _ => True)
      (BookService.updateBook bookId data) [] w := by
  refine Program.loneSkip fun _ _ _ => Program.loneSkip fun found _ _ => ?_
  refine Program.loneSkip fun _ _ _ => Program.loneSkip fun updated _ _ => ?_
  exact dropsThen (forgetBookDrops _) fun w' _ left e mem => (left e mem).2

theorem deleteBookSweeps {bookId : String} :
    wp (lone i A) (fun _ _ w => ∀ e ∈ w.ext, bookSwept bookId e.1 = false) (fun _ _ => True)
      (BookService.deleteBook bookId) [] w := by
  refine Program.loneSkip fun _ _ _ => Program.loneSkip fun found _ _ => Program.loneSkip fun _ _ _ => ?_
  exact wpMono (fun _ _ w' left e mem => (left.2.2 e mem).2) (fun _ _ h => h) (forgetBookDrops _ _ _ _ _)

theorem updateAuthorSweeps {authorId : String} {data : AuthorService.UpdateAuthorSchema} :
    wp (lone i A) (fun _ _ w => ∀ e ∈ w.ext, booksSwept e.1 = false) (fun _ _ => True)
      (AuthorService.updateAuthor authorId data) [] w := by
  refine Program.loneSkip fun _ _ _ => Program.loneSkip fun author _ _ => Program.loneSkip fun updated _ _ => ?_
  exact dropsThen forgetBooksDrops fun w' _ left e mem => (left e mem).2

theorem deleteAuthorSweeps {authorId : String} :
    wp (lone i A) (fun _ _ w => ∀ e ∈ w.ext, booksSwept e.1 = false) (fun _ _ => True)
      (AuthorService.deleteAuthor authorId) [] w := by
  refine Program.loneSkip fun _ _ _ => Program.loneSkip fun found _ _ => Program.loneSkip fun _ _ _ => ?_
  exact wpMono (fun _ _ w' left e mem => (left.2.2 e mem).2) (fun _ _ h => h) (forgetBooksDrops _ _ _ _)

end Sweeping
end LibraryApi.CacheRules
