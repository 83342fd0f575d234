import LibraryApi.OwnedCache

/-! Users and what is not theirs. Every endpoint of loans and reservations first looks at
who asks and whose row is named. A user who is no admin gets past it only to rows of
their own, as the database knows them and not only the cache, in any interleaving. -/
namespace LibraryApi.OwnerIsolation
open Models CacheService KeyedTable Repositories Requests Effects Runs CommittedRows CacheRules Controllers Sessions OwnerRules OwnedCache
open Program (Duty upholds upholdsBind execAll)

def Plain (user : Uuid) (d : Database) : Prop :=
  ∃ row, UserRepository.findById d user.text = some row ∧ row.role ≠ .admin

def forAdmins : Endpoint → Bool
  | .listLoans _ _ => true
  | .updateLoan _ _ => true
  | .createLoan _ => true
  | .listActiveLoans _ => true
  | .listOverdueLoans _ => true
  | _ => false

def loanNamed : Endpoint → Option String
  | .cancelLoan loanId => some loanId
  | .payLoanFine loanId => some loanId
  | .getLoan loanId => some loanId
  | .returnLoan loanId => some loanId
  | .renewLoan loanId => some loanId
  | _ => none

def reservationNamed : Endpoint → Option String
  | .getReservation reservationId => some reservationId
  | .cancelReservation reservationId => some reservationId
  | _ => none

def userNamed : Endpoint → Option String
  | .listLoansByUser userId _ _ => some userId
  | .listReservations _ filters => filters.userId
  | _ => none

inductive Foreign (user : Uuid) (d : Database) (e : Endpoint) : Prop where
  | admins (only : forAdmins e = true)
  | loan {k l} (named : loanNamed e = some k) (found : d.loans.find k = some l) (other : l.userId ≠ user)
  | reservation {k r} (named : reservationNamed e = some k) (found : d.reservations.find k = some r)
      (other : r.userId ≠ user)
  | listing {s} (named : userNamed e = some s) (other : s ≠ user.text)

structure Entitled (user : Uuid) (d : Database) (e : Endpoint) : Prop where
  everyone : forAdmins e = false
  loan : ∀ k, loanNamed e = some k → ownsLoan user d k
  reservation : ∀ k, reservationNamed e = some k → ownsReservation user d k
  listing : ∀ s, userNamed e = some s → s = user.text

def loansOf : Reply → List Uuid
  | .response (.read payload) => (loansIn payload).map fun v => v.id
  | .response (.loan view) => [view.id]
  | .response (.loanReturned view) => [view.id]
  | .response (.loanCancelled view) => [view.id]
  | .response (.loanRenewed view) => [view.id]
  | .response (.finePaid view) => [view.id]
  | _ => []

def reservationsOf : Reply → List Uuid
  | .response (.reservation row) => [row.id]
  | .response (.reservationCancelled view) => [view.id]
  | .reservations page => page.items.map fun r => r.id
  | _ => []

def usersOf : Reply → List Uuid
  | .response (.read payload) => (loansIn payload).map fun v => v.userId
  | .response (.loan view) => [view.userId]
  | .response (.reservation row) => [row.userId]
  | .reservations page => page.items.map fun r => r.userId
  | _ => []

structure OwnReply (user : Uuid) (d : Database) (reply : Reply) : Prop where
  loans : ∀ id ∈ loansOf reply, ownsLoan user d id.text
  reservations : ∀ id ∈ reservationsOf reply, ownsReservation user d id.text
  users : ∀ id ∈ usersOf reply, id = user

def Refused (admits : Answer → Prop) (e : ApiError) : Prop :=
  (∃ message, e = .unauthorized message) ∨ (e = .redisError ∧ ∃ a, admits a ∧ a.redisUp = false)

section Endpoints
variable {user : Uuid} {first last : Database} {I : Database → Prop} {duty : Duty Write Answer} {α : Type}
  {ok : α → List Write → Prop} {err : ApiError → Prop} {role : Option String}

theorem entitledFamiliar {e : Endpoint} (placed : Placed first last) (entitled : Entitled user last e) :
    ¬ Foreign user first e := by
  intro foreign
  cases foreign with
  | admins only => rw [entitled.everyone] at only; contradiction
  | loan named found other => exact other (ownLoan (entitled.loan _ named) placed found)
  | reservation named found other => exact other (ownReservation (entitled.reservation _ named) placed found)
  | listing named other => exact other (entitled.listing _ named)

theorem currentUserBegun {d : Database} (plain : Plain user d) (role : Option String) :
    ∃ row, row.id = user ∧ row.role ≠ .admin ∧
      Program.begun d (getCurrentUser (.payload (some user.text) role)) = pure row := by
  obtain ⟨row,found,member⟩ := plain
  have id : row.id.text = user.text := (Table.findSound (Option.filter_eq_some_iff.mp found).1).2
  refine ⟨row,uuidExt id,member,?_⟩
  show require _ (UserRepository.findById d user.text) = _
  rw [found]; rfl

theorem currentUserRule {d : Database} {f : UserModel → Service α} (plain : Plain user d)
    (here : ∀ row, row.id = user → row.role ≠ .admin → upholds I (Owned last) duty ok err (f row) []) :
    upholds I (Owned last) duty ok err
      (Program.begun d (getCurrentUser (.payload (some user.text) role) >>= f)) [] := by
  obtain ⟨row,id,member,begun⟩ := currentUserBegun plain role
  rw [Program.begunBind (getCurrentUser (.payload (some user.text) role)) trivial,begun]
  exact here row id member

theorem adminOnlyRule {d : Database} {proceed : Service α} (plain : Plain user d)
    (refused : ∀ message, err (.unauthorized message)) :
    upholds I (Owned last) duty ok err
      (Program.begun d (LoanController.adminOnly proceed (.payload (some user.text) role))) [] := by
  obtain ⟨row,_,member,begun⟩ := currentUserBegun plain role
  unfold LoanController.adminOnly
  rw [Program.begunBind (getCurrentAdmin (.payload (some user.text) role)) trivial]
  unfold getCurrentAdmin
  rw [Program.begunBind (getCurrentUser (.payload (some user.text) role)) trivial,begun]
  exact upholdsBind.mpr (refuseRule (fun _ => refused _) fun admin => absurd member admin)

theorem ownLoanRule {d : Database} {message k : String} {proceed : String → Service α} (plain : Plain user d)
    (placed : ∀ d, I d → Placed d last) (down : Bears duty err) (refused : ∀ message, err (.unauthorized message))
    (missing : ∀ d, I d → d.loans.find k = none → err (.notFound "Empréstimo não encontrado"))
    (here : ownsLoan user last k → upholds I (Owned last) duty ok err (proceed k) []) :
    upholds I (Owned last) duty ok err
      (Program.begun d (LoanController.ownLoan message proceed k (.payload (some user.text) role))) [] := by
  refine currentUserRule plain fun row id member => ?_
  refine upholdsBind.mpr (getLoanRule placed down missing fun v item stored => ?_)
  refine refuseRule (fun _ => refused _) fun own => here ?_
  obtain ⟨l,found,theirs,_⟩ := stored
  have same : v.userId = row.id := by
    by_contra other
    exact own ⟨member,other⟩
  exact ⟨l,item ▸ found,theirs.symm.trans (same.trans id)⟩

theorem ownReservationRule {d : Database} {message k : String} {proceed : ReservationModel → Service α}
    (plain : Plain user d) (placed : ∀ d, I d → Placed d last)
    (refused : ∀ message, err (.unauthorized message))
    (missing : ∀ d, I d → d.reservations.find k = none → err (.notFound "Reserva não encontrada"))
    (here : ∀ r, r.id.text = k → r.userId = user → ownsReservation user last k →
      upholds I (Owned last) duty ok err (proceed r) []) :
    upholds I (Owned last) duty ok err
      (Program.begun d (ReservationController.ownReservation message proceed k (.payload (some user.text) role))) [] := by
  refine currentUserRule plain fun row id member d inside => ?_
  refine requireRule (missing d inside) fun r found => refuseRule (fun _ => refused _) fun own => ?_
  have same : r.userId = user := by
    by_contra other
    exact own ⟨member,id ▸ other⟩
  obtain ⟨r',found',theirs⟩ := (placed d inside).reservations k r found
  exact here r (Table.findSound found).2 same ⟨r',found',theirs.trans same⟩

theorem respondRule {d : Database} {reply : α → Reply} {p : Service α} {Q : Reply → Prop} (reads : Program.Reads p)
    (h : upholds I (Owned last) duty (fun a _ => Q (reply a)) err (Program.begun d p) []) :
    upholds I (Owned last) duty (fun reply _ => Q reply) err (Program.begun d (respond reply p)) [] := by
  unfold respond
  rw [Program.begunBind p reads]
  exact upholdsBind.mpr h

theorem viewsOwn {payload : Payload} (own : ∀ v ∈ loansIn payload, Stored last v ∧ v.userId = user) :
    OwnReply user last (.response (.read payload)) := by
  refine ⟨fun id mem => ?_,nofun,fun id mem => ?_⟩
  · obtain ⟨v,inside,rfl⟩ := List.mem_map.mp mem
    obtain ⟨⟨l,found,theirs,_⟩,same⟩ := own v inside
    exact ⟨l,found,theirs.symm.trans same⟩
  · obtain ⟨v,inside,rfl⟩ := List.mem_map.mp mem
    exact (own v inside).2

theorem listReservationsRule {p : Pagination} {f : ReservationRepository.Filters}
    {ok : Page ReservationModel → List Write → Prop} (placed : ∀ d, I d → Placed d last)
    (given : f.userId = some user.text)
    (here : ∀ page, (∀ r ∈ page.items, r.userId = user ∧ ownsReservation user last r.id.text) → ok page []) :
    upholds I (Owned last) duty ok err (ReservationService.listPaginated p f) [] := by
  intro a _ x owned
  refine ⟨owned,fun d inside d' _ => here _ fun r mem => ?_⟩
  have sorted := List.mem_of_mem_drop (List.mem_of_mem_take mem)
  have listed := (arrangedPerm _ _).mem_iff.mp ((List.mem_insertionSort _).mp sorted)
  obtain ⟨row,selected⟩ := List.mem_filter.mp listed
  have long : user.text ≠ "" := by
    intro empty
    have length := user.form.1
    rw [empty] at length; contradiction
  have same : r.userId = user := by
    simp only [ReservationRepository.selects,given,Repositories.given,Bool.and_eq_true] at selected
    exact uuidExt (by simpa [long] using selected.1.1)
  obtain ⟨r',found',theirs⟩ := (placed d inside).reservations _ r (Table.findComplete row)
  exact ⟨same,r',found',theirs.trans same⟩

def Between (first last : Database) (d : Database) : Prop := Placed first d ∧ Placed d last

abbrev Behaves (first last : Database) (user : Uuid) (admits : Answer → Prop) (e : Endpoint)
    (ok : α → List Write → Prop) (p : Service α) : Prop :=
  upholds (Between first last) (Owned last) ⟨admits,fun xs => Entitled user last e ∧ Tells user xs⟩ ok
    (fun err => Foreign user first e → Refused admits err) p []

variable {admits : Answer → Prop} {e : Endpoint} {k : String} {d : Database}

theorem loanForeign (named : loanNamed e = some k) (foreign : Foreign user first e) :
    ∃ l, first.loans.find k = some l ∧ l.userId ≠ user := by
  cases foreign with
  | admins only => cases e <;> simp [loanNamed,forAdmins] at named only
  | loan named' found other =>
    obtain rfl := Option.some.inj (named.symm.trans named')
    exact ⟨_,found,other⟩
  | reservation named' => cases e <;> simp [loanNamed,reservationNamed] at named named'
  | listing named' => cases e <;> simp [loanNamed,userNamed] at named named'

theorem reservationForeign (named : reservationNamed e = some k) (foreign : Foreign user first e) :
    ∃ r, first.reservations.find k = some r ∧ r.userId ≠ user := by
  cases foreign with
  | admins only => cases e <;> simp [reservationNamed,forAdmins] at named only
  | loan named' => cases e <;> simp [loanNamed,reservationNamed] at named named'
  | reservation named' found other =>
    obtain rfl := Option.some.inj (named.symm.trans named')
    exact ⟨_,found,other⟩
  | listing named' => cases e <;> simp [reservationNamed,userNamed] at named named'

theorem loanEntitled (named : loanNamed e = some k) (own : ownsLoan user last k) : Entitled user last e := by
  refine ⟨?_,fun k' same => ?_,?_,?_⟩
  · cases e <;> simp [loanNamed,forAdmins] at named ⊢
  · obtain rfl := Option.some.inj (named.symm.trans same); exact own
  · cases e <;> simp [loanNamed,reservationNamed] at named ⊢
  · cases e <;> simp [loanNamed,userNamed] at named ⊢

theorem reservationEntitled (named : reservationNamed e = some k) (own : ownsReservation user last k) :
    Entitled user last e := by
  refine ⟨?_,?_,fun k' same => ?_,?_⟩
  · cases e <;> simp [reservationNamed,forAdmins] at named ⊢
  · cases e <;> simp [loanNamed,reservationNamed] at named ⊢
  · obtain rfl := Option.some.inj (named.symm.trans same); exact own
  · cases e <;> simp [reservationNamed,userNamed] at named ⊢

theorem adminBehaves {proceed : Service α} (plain : Plain user d) : Behaves first last user admits e ok
    (Program.begun d (LoanController.adminOnly proceed (.payload (some user.text) role))) :=
  adminOnlyRule plain fun message _ => .inl ⟨message,rfl⟩

theorem loanBehaves {message : String} {proceed : String → Service α} (plain : Plain user d)
    (between : Placed first last) (named : loanNamed e = some k)
    (here : Entitled user last e → (∀ err, Foreign user first e → Refused admits err) → ownsLoan user last k →
      Behaves first last user admits e ok (proceed k)) :
    Behaves first last user admits e ok
      (Program.begun d (LoanController.ownLoan message proceed k (.payload (some user.text) role))) := by
  refine ownLoanRule plain (fun _ h => h.2) (fun a admitted off _ => .inr ⟨rfl,a,admitted,off⟩)
    (fun message _ => .inl ⟨message,rfl⟩) (fun d h none foreign => ?_) fun own => ?_
  · obtain ⟨l,found,_⟩ := loanForeign named foreign
    obtain ⟨l',found',_⟩ := h.1.loans k l found
    rw [none] at found'; contradiction
  · have entitled := loanEntitled named own
    exact here entitled (fun _ foreign => absurd foreign (entitledFamiliar between entitled)) own

theorem reservationBehaves {message : String} {proceed : ReservationModel → Service α} (plain : Plain user d)
    (between : Placed first last) (named : reservationNamed e = some k)
    (here : ∀ r, r.id.text = k → r.userId = user → Entitled user last e →
      (∀ err, Foreign user first e → Refused admits err) → ownsReservation user last k →
      Behaves first last user admits e ok (proceed r)) :
    Behaves first last user admits e ok
      (Program.begun d (ReservationController.ownReservation message proceed k (.payload (some user.text) role))) := by
  refine ownReservationRule plain (fun _ h => h.2) (fun message _ => .inl ⟨message,rfl⟩)
    (fun d h none foreign => ?_) fun r id same own => ?_
  · obtain ⟨r,found,_⟩ := reservationForeign named foreign
    obtain ⟨r',found',_⟩ := h.1.reservations k r found
    rw [none] at found'; contradiction
  · have entitled := reservationEntitled named own
    exact here r id same entitled (fun _ foreign => absurd foreign (entitledFamiliar between entitled)) own

theorem soleLoan {reply : Reply} {id : Uuid} {d : Database} (own : ownsLoan user d id.text)
    (loans : loansOf reply = [id]) (reservations : reservationsOf reply = []) (users : usersOf reply = []) :
    OwnReply user d reply := by
  refine ⟨fun id' mem => ?_,fun id' mem => ?_,fun id' mem => ?_⟩
  · rw [loans] at mem
    rw [List.mem_singleton.mp mem]; exact own
  · rw [reservations] at mem; contradiction
  · rw [users] at mem; contradiction

theorem endpointReads (e : Endpoint) : Program.Reads (e.serve (.payload (some user.text) role)) := by
  cases e <;> trivial

theorem endpointBehaves (admits : Answer → Prop) (plain : Plain user d) (between : Placed first last) (e : Endpoint) :
    Behaves first last user admits e (fun reply _ => Entitled user last e ∧ OwnReply user last reply)
      (Program.begun d (e.serve (.payload (some user.text) role))) := by
  have placed (d : Database) (h : Between first last d) : Placed d last := h.2
  cases e with
  | listLoans => exact respondRule trivial (adminBehaves plain)
  | updateLoan => exact respondRule trivial (adminBehaves plain)
  | createLoan => exact respondRule trivial (adminBehaves plain)
  | listActiveLoans => exact respondRule trivial (adminBehaves plain)
  | listOverdueLoans => exact respondRule trivial (adminBehaves plain)
  | cancelLoan k =>
    refine respondRule trivial (loanBehaves plain between rfl fun entitled any own => ?_)
    refine Program.upholdsMono (fun _ h => h) (fun view _ id => ⟨entitled,soleLoan (id ▸ own) rfl rfl rfl⟩) (fun _ h => h)
      (cancelLoanRule placed any (fun xs tells => ⟨entitled,tells⟩) own)
  | payLoanFine k =>
    refine respondRule trivial (loanBehaves plain between rfl fun entitled any own => ?_)
    refine Program.upholdsMono (fun _ h => h) (fun view _ id => ⟨entitled,soleLoan (id ▸ own) rfl rfl rfl⟩) (fun _ h => h)
      (payFineRule placed any (fun xs tells => ⟨entitled,tells⟩) own)
  | returnLoan k =>
    refine respondRule trivial (loanBehaves plain between rfl fun entitled any own => ?_)
    refine Program.upholdsMono (fun _ h => h) (fun view _ id => ⟨entitled,soleLoan (id ▸ own) rfl rfl rfl⟩) (fun _ h => h)
      (returnLoanRule placed any (fun xs tells => ⟨entitled,tells⟩) own)
  | renewLoan k =>
    refine respondRule trivial (loanBehaves plain between rfl fun entitled any own => ?_)
    refine Program.upholdsMono (fun _ h => h) (fun view _ id => ⟨entitled,soleLoan (id ▸ own) rfl rfl rfl⟩) (fun _ h => h)
      (renewLoanRule placed any (fun xs tells => ⟨entitled,tells⟩) own)
  | getLoan k =>
    refine respondRule trivial (loanBehaves plain between rfl fun entitled any own => ?_)
    refine getLoanRule placed (fun _ _ _ => any _) (fun _ _ _ => any _) fun v id stored => ⟨entitled,viewsOwn ?_⟩
    intro v' mem
    obtain rfl := List.mem_singleton.mp mem
    obtain ⟨l,found,theirs,book⟩ := stored
    obtain ⟨l',found',same⟩ := own
    obtain rfl : l = l' := Option.some.inj ((id ▸ found).symm.trans found')
    exact ⟨⟨l,found,theirs,book⟩,theirs.trans same⟩
  | listLoansByUser userId p status =>
    refine respondRule trivial (currentUserRule plain fun row id member => ?_)
    refine refuseRule (fun _ _ => .inl ⟨_,rfl⟩) fun own => ?_
    have same : userId = user.text := by
      by_contra other
      exact own ⟨member,id ▸ other⟩
    have entitled : Entitled user last (.listLoansByUser userId p status) :=
      ⟨rfl,nofun,nofun,fun s named => (Option.some.inj named).symm.trans same⟩
    have any (err : ApiError) : Foreign user first (.listLoansByUser userId p status) → Refused admits err :=
      fun foreign => absurd foreign (entitledFamiliar between entitled)
    refine listByUserRule placed (fun _ _ _ => any _) (fun _ _ _ => any _) fun payload shown =>
      ⟨entitled,viewsOwn fun v mem => ⟨(shown v mem).1,uuidExt ((shown v mem).2.trans same)⟩⟩
  | listReservations p f =>
    refine respondRule trivial (currentUserRule plain fun row id member => ?_)
    refine refuseRule (fun _ _ => .inl ⟨_,rfl⟩) fun own => ?_
    have entitled : Entitled user last (.listReservations p f) := by
      refine ⟨rfl,nofun,nofun,fun s named => ?_⟩
      by_contra other
      refine own ⟨member,fun none => ?_,fun same => ?_⟩
      · rw [show f.userId = some s from named] at none; contradiction
      · rw [show f.userId = some s from named,id] at same
        exact other (Option.some.inj same)
    rw [if_pos member,id]
    refine listReservationsRule placed rfl fun page rows => ⟨entitled,nofun,fun x mem => ?_,fun x mem => ?_⟩
    · obtain ⟨r,inside,rfl⟩ := List.mem_map.mp mem; exact (rows r inside).2
    · obtain ⟨r,inside,rfl⟩ := List.mem_map.mp mem; exact (rows r inside).1
  | getReservation k =>
    refine respondRule trivial (reservationBehaves plain between rfl fun r id same entitled any own => ?_)
    refine ⟨entitled,nofun,fun x mem => ?_,fun x mem => ?_⟩
    · rw [List.mem_singleton.mp mem,id]; exact own
    · rw [List.mem_singleton.mp mem]; exact same
  | cancelReservation k =>
    refine respondRule trivial (reservationBehaves plain between rfl fun r id same entitled any own => ?_)
    refine Program.upholdsMono (fun _ h => h) (fun view _ here => ⟨entitled,nofun,fun x mem => ?_,nofun⟩) (fun _ h => h)
      (heldReservationRule placed any ?_ own id same)
    · exact fun xs tells => ⟨entitled,tells⟩
    · rw [List.mem_singleton.mp mem,here]; exact own

end Endpoints
section Commits
variable {user : Uuid} {last before after : Database}

structure OwnChanges (user : Uuid) (d d' : Database) : Prop where
  users : d'.users = d.users
  authors : d'.authors = d.authors
  books : ∀ k, d'.books.find k = d.books.find k ∨ ∃ l ∈ d.loans.rows, l.userId = user ∧ l.bookId.text = k
  loans : ∀ k, d'.loans.find k = d.loans.find k ∨ (ownsLoan user d k ∧ ownsLoan user d' k)
  reservations : ∀ k, d'.reservations.find k = d.reservations.find k ∨
    (ownsReservation user d k ∧ ownsReservation user d' k)
  notifications : ∃ new, d'.notifications = d.notifications ++ new ∧ ∀ n ∈ new, n.userId = user

theorem storedOwn {loans : Table (fun r : LoanModel => r.id.text)} {l c : LoanModel} {k : String}
    (found : loans.find l.id.text = some l) (same : c.userId = l.userId) (own : l.userId = user) :
    (storeLoan loans l c).find k = loans.find k ∨
      ((∃ x, loans.find k = some x ∧ x.userId = user) ∧ ∃ x, (storeLoan loans l c).find k = some x ∧ x.userId = user) := by
  unfold storeLoan
  rw [Table.findModify]
  split
  · rename_i here
    subst here
    rw [found]
    exact .inr ⟨⟨l,rfl,own⟩,_,rfl,by simp [LoanModel.flush,same,own]⟩
  · exact .inl rfl

theorem loanOwn {l c : LoanModel} (ran : execAll ([.updateLoan l c] : List Write) before = .ok after)
    (found : before.loans.find l.id.text = some l) (same : c.userId = l.userId) (own : l.userId = user) :
    OwnChanges user before after := by
  rw [ranUpdateLoan ran]
  exact ⟨rfl,rfl,fun _ => .inl rfl,fun _ => storedOwn found same own,fun _ => .inl rfl,[],by simp,by simp⟩

theorem closingOwn {b b' : BookModel} {l c : LoanModel}
    (ran : execAll ([.updateBook b b',.updateLoan l c] : List Write) before = .ok after)
    (found : before.loans.find l.id.text = some l) (same : c.userId = l.userId) (own : l.userId = user)
    (stock : b.id.text = l.bookId.text) : OwnChanges user before after := by
  rw [ranClose ran]
  refine ⟨rfl,rfl,fun k => ?_,fun _ => storedOwn found same own,fun _ => .inl rfl,[],by simp,by simp⟩
  show (storeBook before.books b b').find k = _ ∨ _
  unfold storeBook
  rw [Table.findModify]
  split
  · rename_i here
    exact .inr ⟨l,(Table.findSound found).1,own,stock.symm.trans here.symm⟩
  · exact .inl rfl

theorem reservationOwn {r c : ReservationModel}
    (ran : execAll ([.updateReservation r c] : List Write) before = .ok after) (same : c.userId = r.userId)
    (own : ∀ x, before.reservations.find r.id.text = some x → x.userId = user) : OwnChanges user before after := by
  have stored : after = {before with reservations := ReservationHistory.storeReservation before.reservations r c} :=
    (Except.ok.inj (ranOne ran)).symm
  rw [stored]
  refine ⟨rfl,rfl,fun _ => .inl rfl,fun _ => .inl rfl,fun k => ?_,[],by simp,by simp⟩
  show (ReservationHistory.storeReservation before.reservations r c).find k = _ ∨ _
  unfold ownsReservation ReservationHistory.storeReservation
  rw [Table.findModify]
  split
  · rename_i here
    subst here
    cases found : before.reservations.find r.id.text with
    | none => exact .inl rfl
    | some x => exact .inr ⟨⟨x,rfl,own x found⟩,_,rfl,by simp [ReservationModel.flush,same,own x found]⟩
  · exact .inl rfl

theorem noteOwn {n : NotificationModel} (own : n.userId = user)
    (ran : execAll ([.insertNotification n] : List Write) before = .ok after) : OwnChanges user before after := by
  have stored : after = {before with notifications := before.notifications ++ [n]} :=
    (Except.ok.inj (ranOne ran)).symm
  rw [stored]
  refine ⟨rfl,rfl,fun _ => .inl rfl,fun _ => .inl rfl,fun _ => .inl rfl,[n],rfl,fun x mem => ?_⟩
  rw [List.mem_singleton.mp mem]; exact own

theorem effectOwn {seen : Seen} {own : Log} {r : Request} {writes : List Write} {e : Endpoint}
    (asked : requestOf e = some r) (effect : Effect seen own before r writes)
    (ran : execAll writes before = .ok after) (placed : Placed before last) (entitled : Entitled user last e)
    (tells : Tells user writes) : OwnChanges user before after := by
  have lent {k : String} {l : LoanModel} (named : loanNamed e = some k) (found : before.loans.find k = some l) :
      before.loans.find l.id.text = some l ∧ l.userId = user := by
    have id : l.id.text = k := (Table.findSound found).2
    exact ⟨id ▸ found,ownLoan (entitled.loan k named) placed found⟩
  cases effect with
  | notify => exact noteOwn (tells _ (List.mem_singleton_self _)) ran
  | returnLoan _ found _ stock =>
    cases e <;> simp [requestOf] at asked
    subst asked
    obtain ⟨found,own⟩ := lent rfl found
    exact closingOwn ran found rfl own (Table.findSound stock).2
  | cancelLoan _ found _ stock =>
    cases e <;> simp [requestOf] at asked
    subst asked
    obtain ⟨found,own⟩ := lent rfl found
    exact closingOwn ran found rfl own (Table.findSound stock).2
  | renewLoan _ found =>
    cases e <;> simp [requestOf] at asked
    subst asked
    obtain ⟨found,own⟩ := lent rfl found
    exact loanOwn ran found rfl own
  | payFine _ found =>
    cases e <;> simp [requestOf] at asked
    subst asked
    obtain ⟨found,own⟩ := lent rfl found
    exact loanOwn ran found rfl own
  | cancelReservation _ _ id =>
    cases e <;> simp [requestOf] at asked
    subst asked
    exact reservationOwn ran rfl fun x found => ownReservation (entitled.reservation _ rfl) placed (id ▸ found)
  | createLoan =>
    cases e <;> simp [requestOf] at asked
    have everyone := entitled.everyone
    contradiction
  | updateLoan =>
    cases e <;> simp [requestOf] at asked
    have everyone := entitled.everyone
    contradiction
  | _ => cases e <;> simp [requestOf] at asked

end Commits

section Runs
variable {calls : Nat → Option Call} {d : Database} {t : Int} {user : Uuid}

theorem sessionsFree (calls : Nat → Option Call) (d : Database) (t : Int) (a b : Moves) : Program.Upright
    (fun d' => Placed d' ((connect (settled d [] t) calls).run (a ++ b)).world.db)
    (Owned ((connect (settled d [] t) calls).run (a ++ b)).world.db) (fun _ => ⟨fun _ => True,fun _ => True⟩)
    (fun _ _ _ => True) (fun _ _ => True) ((connect (settled d [] t) calls).run a) := by
  have start : Program.Upright (fun d' => Placed d' ((connect (settled d [] t) calls).run (a ++ b)).world.db)
      (Owned ((connect (settled d [] t) calls).run (a ++ b)).world.db) (fun _ => ⟨fun _ => True,fun _ => True⟩)
      (fun _ _ _ => True) (fun _ _ => True) (connect (settled d [] t) calls) := by
    refine ⟨fun e mem => by contradiction,fun j x found => ?_⟩
    obtain ⟨p,hp,rfl⟩ := Option.map_eq_some_iff.mp found
    obtain ⟨call,_,rfl⟩ := Option.map_eq_some_iff.mp hp
    exact callFree (fun _ h => h) call
  refine (Program.runUpright (fun seen before => ?_) start fun _ _ => trivial).1
  obtain ⟨rest,rfl⟩ := before
  rw [List.append_assoc]
  exact runPlaced calls d [] t seen (rest ++ b)

theorem askedUpright {before rest : Moves} {j : Nat} {a : Program.Env Answer} {e : Endpoint} {role : Option String}
    (admits : Answer → Prop) (sent : calls j = some (.endpoint e (.payload (some user.text) role)))
    (idle : ∀ m ∈ before, m.1 ≠ j) (admitted : ∀ m ∈ rest, m.1 = j → admits m.2.answer)
    (plain : Plain user ((connect (settled d [] t) calls).run before).world.db) :
    let s₀ := (connect (settled d [] t) calls).run before
    let s := (connect (settled d [] t) calls).run (before ++ (j,a) :: rest)
    (∀ x, s.pool j = some x → Program.Upheld (Between s₀.world.db s.world.db) (Owned s.world.db)
      ⟨admits,fun xs => Entitled user s.world.db e ∧ Tells user xs⟩
      (fun reply _ => Entitled user s.world.db e ∧ OwnReply user s.world.db reply)
      (fun error => Foreign user s₀.world.db e → Refused admits error) x) ∧
    ∀ m ∈ s.world.history, m.client = j → Entitled user s.world.db e ∧ Tells user m.writes := by
  intro s₀ s
  have between : Placed s₀.world.db s.world.db := runPlaced calls d [] t before ((j,a) :: rest)
  have free := sessionsFree calls d t before ((j,a) :: rest)
  have here : s₀.pool j = some (.running (e.serve (.payload (some user.text) role)) []) := by
    show ((connect (settled d [] t) calls).run before).pool j = _
    rw [Program.runOthers idle]
    show Option.map _ (Option.map _ (calls j)) = _
    rw [sent]; rfl
  obtain ⟨same,start⟩ : (s₀.step (j,a)).world = s₀.world ∧
      Program.Upright (Between s₀.world.db s.world.db) (Owned s.world.db)
        (fun i => if i = j then ⟨admits,fun xs => Entitled user s.world.db e ∧ Tells user xs⟩ else ⟨fun _ => True,fun _ => True⟩)
        (fun i reply _ => i = j → Entitled user s.world.db e ∧ OwnReply user s.world.db reply)
        (fun i error => i = j → Foreign user s₀.world.db e → Refused admits error) (s₀.step (j,a)) := by
    refine Program.readsUpright (endpointReads e) here free.held (fun i x other found => ?_) ?_
    · rw [if_neg other]
      exact Program.upheldMono (fun _ h => h.2) (fun _ _ _ asked => absurd asked other) (fun _ _ asked => absurd asked other)
        (free.threads i x found)
    · rw [if_pos rfl]
      exact Program.upholdsMono (fun _ h => h) (fun _ _ h _ => h) (fun _ h _ => h) (endpointBehaves admits plain between e)
  have whole (seen : Moves) : (connect (settled d [] t) calls).run (before ++ (j,a) :: seen) = (s₀.step (j,a)).run seen :=
    Program.State.runAppend _ before ((j,a) :: seen)
  have reads (seen : Moves) (inside : seen <+: rest) :
      Between s₀.world.db s.world.db ((s₀.step (j,a)).run seen).world.db := by
    rw [← whole]
    refine ⟨runPlaced calls d [] t before ((j,a) :: seen),?_⟩
    obtain ⟨later,rfl⟩ := inside
    have last := runPlaced calls d [] t (before ++ (j,a) :: seen) later
    rw [List.append_assoc] at last
    exact last
  have run := Program.runUpright reads start fun m mem => by
    split
    · rename_i own; exact admitted m mem own
    · trivial
  rw [← whole] at run
  refine ⟨fun x found => ?_,fun m mem client => ?_⟩
  · have thread := run.1.threads j x found
    rw [if_pos rfl] at thread
    exact Program.upheldMono (fun _ h => h) (fun _ _ h => h rfl) (fun _ h => h rfl) thread
  · rcases run.2 m mem with old | new
    · rw [same] at old
      rcases Program.runClients (connect (settled d [] t) calls) before m old with none | ⟨n,inside,same⟩
      · contradiction
      · exact absurd (same.trans client) (idle n inside)
    · rw [if_pos client] at new
      exact new

/-- A user who is active and no admin when an endpoint of loans and reservations looks
them up gets from it only what is their own, and changes only that; an endpoint for admins
or one that names what belongs to somebody else refuses, and changes nothing. -/
theorem ownersIsolated (calls : Nat → Option Call) (d : Database) (t : Int) (before rest : Moves) (j : Nat)
    (a : Program.Env Answer) (e : Endpoint) (user : Uuid) (role : Option String)
    (sent : calls j = some (.endpoint e (.payload (some user.text) role))) (idle : ∀ m ∈ before, m.1 ≠ j)
    (plain : Plain user ((connect (settled d [] t) calls).run before).world.db) :
    let s₀ := (connect (settled d [] t) calls).run before
    let s := (connect (settled d [] t) calls).run (before ++ (j,a) :: rest)
    (∀ m ∈ s.world.history, m.client = j → OwnChanges user m.before m.after) ∧
    (∀ reply, s.pool j = some (.finished (.ok reply)) → OwnReply user s.world.db reply) ∧
    (Foreign user s₀.world.db e →
      (∀ m ∈ s.world.history, m.client ≠ j) ∧
      (∀ result, s.pool j = some (.finished result) →
        ∃ error, result = .error error ∧ Refused (fun answer => ∃ m ∈ rest, m.1 = j ∧ m.2.answer = answer) error) ∧
      ∀ env, let served := Program.alone j (e.serve (.payload (some user.text) role)) [] s₀.world env
        (∃ error, served.1 = .error error ∧ Refused (fun answer => ∃ n, (env n).answer = answer) error) ∧
          served.2.db = s₀.world.db) := by
  intro s₀ s
  obtain ⟨thread,commits⟩ := askedUpright (fun answer => ∃ m ∈ rest, m.1 = j ∧ m.2.answer = answer) sent idle
    (fun m mem own => ⟨m,mem,own,rfl⟩) plain
  have between : Placed s₀.world.db s.world.db := runPlaced calls d [] t before ((j,a) :: rest)
  obtain ⟨path,last⟩ : PoolPath (made calls) d t s.world.history ∧ _ := sessionsPath calls d [] t (before ++ (j,a) :: rest)
  refine ⟨fun m mem client => ?_,fun reply found => ?_,fun foreign => ⟨fun m mem client => ?_,fun result found => ?_,
    fun env => ?_⟩⟩
  · obtain ⟨entitled,tells⟩ := commits m mem client
    obtain ⟨later,older,split⟩ := List.append_of_mem mem
    rw [split] at path last
    have whole := path
    cases path.suffix with
    | commit _ first ran _ effect =>
      obtain ⟨r,asked,effect⟩ := effect
      have asked : requestOf e = some r := by simpa [made,client,sent] using asked
      have placed : Placed m.before s.world.db := by
        rw [last,first]
        have along := pathPlaced (d := d) (t := t) (h := older) (by simpa using whole : PoolPath (made calls) d t ((later ++ [m]) ++ older))
        simpa using along
      exact effectOwn asked effect ran placed entitled tells
  · obtain ⟨_,_,own⟩ := thread _ found
    exact own
  · exact entitledFamiliar between (commits m mem client).1 foreign
  · have held := thread _ found
    cases result with
    | ok reply =>
      obtain ⟨_,entitled,_⟩ := held
      exact absurd foreign (entitledFamiliar between entitled)
    | error error => exact ⟨error,rfl,held foreign⟩
  · intro served
    have here : Between s₀.world.db s₀.world.db s₀.world.db := ⟨placedRefl _,placedRefl _⟩
    have owned : Owned s₀.world.db s₀.world.ext := by
      have free := (sessionsFree calls d t before []).held
      rwa [List.append_nil] at free
    have never (xs : List Write) : ¬ (Entitled user s₀.world.db e ∧ Tells user xs) :=
      fun asked => entitledFamiliar (placedRefl _) asked.1 foreign
    have behaves : Behaves _ _ user _ e _ (Program.begun s₀.world.db (e.serve (.payload (some user.text) role))) :=
      endpointBehaves (fun answer => ∃ n, (env n).answer = answer) plain (placedRefl s₀.world.db) e
    have admitted (n : Nat) : ∃ m, (env m).answer = (env (n+1)).answer := ⟨n+1,rfl⟩
    obtain ⟨outcome,kept⟩ := Program.aloneUpheld j s₀.world (fun n => env (n+1)) never here owned admitted behaves
    have begun : served = _ := Program.aloneReads (endpointReads e)
    rw [← begun] at outcome kept
    refine ⟨?_,kept⟩
    cases ended : served.1 with
    | ok reply =>
      rw [ended] at outcome
      obtain ⟨_,entitled,_⟩ := outcome
      exact absurd foreign (entitledFamiliar (placedRefl _) entitled)
    | error error =>
      rw [ended] at outcome
      exact ⟨error,rfl,outcome foreign⟩

end Runs
section Samples
open Runs (sampleId tick lentOnce)

def answered (s : Pool) (j : Nat) : Option (Except ApiError Reply) := match s.pool j with
  | some (.finished result) => some result
  | _ => none

theorem answeredFinished {s : Pool} {j : Nat} {result : Except ApiError Reply} (h : answered s j = some result) :
    s.pool j = some (.finished result) := by
  unfold answered at h
  split at h <;> cases h
  assumption

def meddling (j : Nat) : Option Call :=
  if j = 0 then some (.request (.createUser ⟨"Bia","bia@example.com","segredo"⟩))
  else if j = 1 then some (.endpoint (.returnLoan (sampleId 4).text) (.payload (some (sampleId 5).text) (some "ADMIN")))
  else if j = 2 then some (.endpoint (.getLoan (sampleId 4).text) (.payload (some (sampleId 2).text) none))
  else none

def signedUp : Moves := List.replicate 10 (0,tick 5)

def bothAsk : Moves := (List.replicate 20 [(2,tick 7),(1,tick 6)]).flatten

theorem meddlerRefused :
    let s := (connect (settled lentOnce.db [] 0) meddling).run (signedUp ++ (1,tick 6) :: bothAsk)
    (∀ m ∈ s.world.history, m.client ≠ 1) ∧
    (∃ error, answered s 1 = some (.error error) ∧ ∃ message, error = .unauthorized message) ∧
    ∃ reply, answered s 2 = some (.ok reply) ∧ loansOf reply = [sampleId 4] ∧ OwnReply (sampleId 2) s.world.db reply := by
  have bia : ∃ row ∈ UserRepository.findById ((connect (settled lentOnce.db [] 0) meddling).run signedUp).world.db
      (sampleId 5).text, row.role ≠ .admin := by decide +kernel
  have ana : ∃ row ∈ UserRepository.findById ((connect (settled lentOnce.db [] 0) meddling).run
      (signedUp ++ [(1,tick 6)])).world.db (sampleId 2).text, row.role ≠ .admin := by decide +kernel
  have lent : ∃ l ∈ ((connect (settled lentOnce.db [] 0) meddling).run signedUp).world.db.loans.find (sampleId 4).text,
      l.userId ≠ sampleId 5 := by decide +kernel
  have served : ∃ result, answered ((connect (settled lentOnce.db [] 0) meddling).run
      (signedUp ++ (1,tick 6) :: bothAsk)) 1 = some result := Option.isSome_iff_exists.mp (by decide +kernel)
  have shown : ∃ reply ∈ (answered ((connect (settled lentOnce.db [] 0) meddling).run
      (signedUp ++ (1,tick 6) :: bothAsk)) 2).bind Except.toOption, loansOf reply = [sampleId 4] := by decide +kernel
  have up : ∀ m ∈ bothAsk, m.2.answer.redisUp = true := by decide +kernel
  have turns : (signedUp ++ [(1,tick 6)]) ++ (2,tick 7) :: bothAsk.tail = signedUp ++ (1,tick 6) :: bothAsk :=
    List.append_assoc signedUp [(1,tick 6)] bothAsk
  obtain ⟨row,found,member⟩ := bia
  obtain ⟨l,stored,other⟩ := lent
  have apart := ownersIsolated meddling lentOnce.db 0 signedUp bothAsk 1 (tick 6) (.returnLoan (sampleId 4).text)
    (sampleId 5) (some "ADMIN") rfl (by decide +kernel) ⟨row,found,member⟩
  obtain ⟨row',found',member'⟩ := ana
  have own := (ownersIsolated meddling lentOnce.db 0 (signedUp ++ [(1,tick 6)]) bothAsk.tail 2 (tick 7)
    (.getLoan (sampleId 4).text) (sampleId 2) none rfl (by decide +kernel) ⟨row',found',member'⟩).2.1
  rw [turns] at own
  obtain ⟨quiet,ended,_⟩ := apart.2.2 (.loan rfl stored other)
  generalize (connect (settled lentOnce.db [] 0) meddling).run (signedUp ++ (1,tick 6) :: bothAsk) = s at *
  refine ⟨quiet,?_,?_⟩
  · obtain ⟨result,at_⟩ := served
    obtain ⟨error,rfl,turned⟩ := ended result (answeredFinished at_)
    rcases turned with unauthorized | ⟨_,_,⟨m,mem,_,rfl⟩,down⟩
    · exact ⟨error,at_,unauthorized⟩
    · rw [up m mem] at down; contradiction
  · obtain ⟨reply,replied,one⟩ := shown
    obtain ⟨result,at_,right⟩ := Option.bind_eq_some_iff.mp replied
    cases result with
    | error error => contradiction
    | ok reply' =>
      obtain rfl := Option.some.inj right
      exact ⟨_,at_,one,own _ (answeredFinished at_)⟩

end Samples
end LibraryApi.OwnerIsolation
