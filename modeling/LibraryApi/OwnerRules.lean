import LibraryApi.CacheKeys
import LibraryApi.InvariantRules
import LibraryApi.Sessions

/-! Whose loans the cache shows. `last` is the database at the end of a run, in which every
loan has the user it has had all along: an entry shows loans as `last` knows them, under
the key of one loan only that loan, under that of a user only loans of theirs. -/
namespace LibraryApi.OwnerRules
open Models CacheService KeyedTable Repositories Requests NotificationHandlers CacheRules Sessions
open LoanService (itemKey userKey serializeAt)
open CacheKeys (splitLast numberColons statusColons)
open Program (Duty upholds upholdsBind upholdsMono upholdsCalls execAll)

def Stored (last : Database) (v : LoanView) : Prop :=
  ∃ l, last.loans.find v.id.text = some l ∧ v.userId = l.userId ∧ v.bookId = l.bookId

structure Entry (last : Database) (e : String × Payload) : Prop where
  stored : ∀ v ∈ loansIn e.2, Stored last v
  item : ∀ k, e.1 = itemKey k → ∃ v, e.2 = .loan v ∧ v.id.text = k
  user : ∀ k p status, e.1 = userKey k p status → ∀ v ∈ loansIn e.2, v.userId.text = k

def Owned (last : Database) (x : Cache) : Prop := ∀ e ∈ x, Entry last e

section Keys

def kind (key : String) : List Char := key.toList.take 7

theorem kindOf {pre s : String} (long : 7 ≤ pre.toList.length) : kind (pre ++ s) = kind pre := by
  unfold kind
  rw [String.toList_append,List.take_append_of_le_length long]

theorem itemKind (k : String) : kind (itemKey k) = "loans:i".toList := kindOf (by decide)

theorem listKind (p : Pagination) (f : LoanRepository.Filters) : kind (LoanService.listKey p f) = "loans:l".toList := by
  unfold LoanService.listKey
  simp only [String.append_assoc]
  exact kindOf (by decide)

theorem userKind (k : String) (p : Pagination) (status : Option LoanStatus) :
    kind (userKey k p status) = "loans:u".toList := by
  unfold userKey
  simp only [String.append_assoc]
  exact kindOf (by decide)

theorem bookKind (k : String) : (kind (BookService.detailKey k)).head? = some 'b' := by
  unfold kind BookService.detailKey
  rw [String.toList_append]
  rfl

theorem booksKind (p : Pagination) (f : BookRepository.Filters) : kind (BookService.listKey p f) = "books:l".toList := by
  unfold BookService.listKey
  simp only [String.append_assoc]
  exact kindOf (by decide)

theorem itemSame {k k' : String} (h : itemKey k = itemKey k') : k = k' := (String.append_right_inj _).mp h

theorem userSame {k k' : String} {p p' : Pagination} {status status' : Option LoanStatus}
    (h : userKey k p status = userKey k' p' status') : k = k' := by
  unfold userKey at h
  obtain ⟨h,_⟩ := splitLast h ((statusColons _).trans (statusColons _).symm)
  obtain ⟨h,_⟩ := splitLast h ((numberColons _).trans (numberColons _).symm)
  obtain ⟨h,_⟩ := splitLast h ((numberColons _).trans (numberColons _).symm)
  exact (String.append_right_inj _).mp h

theorem otherEntry {last : Database} {e : String × Payload} (none : loansIn e.2 = [])
    (item : kind e.1 ≠ "loans:i".toList) : Entry last e := by
  refine ⟨fun v mem => ?_,fun k same => ?_,fun k p status _ v mem => ?_⟩
  · rw [none] at mem; contradiction
  · exact absurd (same ▸ itemKind k) item
  · rw [none] at mem; contradiction

end Keys

section Rules
variable {I : Database → Prop} {last : Database} {duty : Duty Write Answer} {α β : Type}
  {ok : α → List Write → Prop} {err : ApiError → Prop} {pending : List Write}

def Bears (duty : Duty Write Answer) (err : ApiError → Prop) : Prop :=
  ∀ a, duty.admits a → a.redisUp = false → err .redisError

theorem redisRule {act : Cache → β × Cache} {f : β → Service α} (down : Bears duty err)
    (here : ∀ x, Owned last x → Owned last (act x).2 ∧ upholds I (Owned last) duty ok err (f (act x).1) pending) :
    upholds I (Owned last) duty ok err (redis act >>= f) pending := by
  refine upholdsBind.mpr fun a admitted x owned => ?_
  split <;> rename_i done <;> beta_reduce at done
  · split at done
    · obtain ⟨rfl,rfl⟩ := Prod.mk.inj (Except.ok.inj done)
      exact here _ fun e mem => owned e (List.mem_of_mem_filter mem)
    · contradiction
  · split at done
    · contradiction
    · rename_i off
      cases done
      exact down a admitted (by simpa using off)

theorem getRule {key : String} {f : Option Payload → Service α} (down : Bears duty err)
    (hit : ∀ payload, Entry last (key,payload) → upholds I (Owned last) duty ok err (f (some payload)) pending)
    (miss : upholds I (Owned last) duty ok err (f none) pending) :
    upholds I (Owned last) duty ok err (get key >>= f) pending := by
  refine redisRule down fun x owned => ⟨owned,?_⟩
  show upholds I (Owned last) duty ok err (f (x.lookup key)) pending
  cases found : x.lookup key with
  | none => exact miss
  | some payload =>
    obtain ⟨l,r,same,_⟩ := List.lookup_eq_some_iff.mp found
    exact hit payload (owned _ (by simp [same]))

theorem setRule {key : String} {payload : Payload} {f : Unit → Service α} (down : Bears duty err)
    (entered : Entry last (key,payload)) (rest : upholds I (Owned last) duty ok err (f ()) pending) :
    upholds I (Owned last) duty ok err (set key payload >>= f) pending := by
  refine redisRule down fun x owned => ⟨fun e mem => ?_,rest⟩
  rcases List.mem_cons.mp mem with rfl | old
  · exact entered
  · exact owned e (List.mem_of_mem_filter old)

theorem deleteKeysRule {keys : List String} {f : Unit → Service α} (down : Bears duty err)
    (rest : upholds I (Owned last) duty ok err (f ()) pending) :
    upholds I (Owned last) duty ok err (deleteKeys keys >>= f) pending := by
  induction keys with
  | nil => exact rest
  | cons key keys ih =>
    unfold deleteKeys
    rw [Program.bindBind]
    exact redisRule down fun x owned => ⟨fun e mem => owned e (List.mem_of_mem_filter mem),ih⟩

theorem deletePatternRule {pattern : String} {f : Unit → Service α} (down : Bears duty err)
    (rest : upholds I (Owned last) duty ok err (f ()) pending) :
    upholds I (Owned last) duty ok err (deletePattern pattern >>= f) pending := by
  unfold deletePattern
  rw [Program.bindBind]
  exact redisRule down fun x owned => ⟨owned,deleteKeysRule down rest⟩

theorem deleteRule {key : String} {f : Unit → Service α} (down : Bears duty err)
    (rest : upholds I (Owned last) duty ok err (f ()) pending) :
    upholds I (Owned last) duty ok err (delete key >>= f) pending :=
  redisRule down fun _ owned => ⟨fun e mem => owned e (List.mem_of_mem_filter mem),rest⟩

theorem forgetBookRule {bookId : String} {f : Unit → Service α} (down : Bears duty err)
    (rest : upholds I (Owned last) duty ok err (f ()) pending) :
    upholds I (Owned last) duty ok err (BookService.forgetBook bookId >>= f) pending := by
  unfold BookService.forgetBook
  rw [Program.bindBind]
  exact deleteRule down (deletePatternRule down rest)

theorem invalidateRule {userId loanId : Uuid} {f : Unit → Service α} (down : Bears duty err)
    (rest : upholds I (Owned last) duty ok err (f ()) pending) :
    upholds I (Owned last) duty ok err (LoanService.invalidateLoanCache userId loanId >>= f) pending := by
  unfold LoanService.invalidateLoanCache
  rw [Program.bindBind]
  refine deleteRule down ?_
  rw [Program.bindBind]
  exact deletePatternRule down (deletePatternRule down rest)

theorem requireRule {e : ApiError} {row : Option β} {f : β → Service α} (missing : row = none → err e)
    (good : ∀ b, row = some b → upholds I (Owned last) duty ok err (f b) pending) :
    upholds I (Owned last) duty ok err (require e row >>= f) pending := by
  cases row with
  | none => exact missing rfl
  | some b => exact good b rfl

theorem refuseRule {bad : Prop} [Decidable bad] {e : ApiError} {f : Unit → Service α} (refused : bad → err e)
    (good : ¬ bad → upholds I (Owned last) duty ok err (f ()) pending) :
    upholds I (Owned last) duty ok err (refuse bad e >>= f) pending := by
  unfold refuse
  split
  · rename_i h; exact refused h
  · rename_i h; exact good h

theorem serializeRule {loan : LoanModel} {f : LoanView → Service α}
    (here : ∀ t, upholds I (Owned last) duty ok err (f (serializeAt loan t)) pending) :
    upholds I (Owned last) duty ok err (LoanService.serializeLoan loan >>= f) pending := by
  unfold LoanService.serializeLoan
  split
  · exact here _
  · exact fun t => here t

theorem serializeAllRule {loans : List LoanModel} {f : List LoanView → Service α}
    (here : ∀ views, (∀ v ∈ views, ∃ l ∈ loans, ∃ t, v = serializeAt l t) →
      upholds I (Owned last) duty ok err (f views) pending) :
    upholds I (Owned last) duty ok err (LoanService.serializeAll loans >>= f) pending := by
  induction loans generalizing f with
  | nil =>
    have none : upholds I (Owned last) duty ok err (f []) pending := here [] fun v mem => by contradiction
    exact none
  | cons loan rest ih =>
    rw [LoanService.serializeAll,Program.bindBind]
    refine serializeRule fun t => ?_
    rw [Program.bindBind]
    refine ih fun views each => here (serializeAt loan t :: views) fun v mem => ?_
    rcases List.mem_cons.mp mem with rfl | inside
    · exact ⟨loan,List.mem_cons_self,t,rfl⟩
    · obtain ⟨l,old,shown⟩ := each v inside
      exact ⟨l,List.mem_cons_of_mem _ old,shown⟩

theorem storedView {d : Database} {l : LoanModel} (t : Int) (placed : Placed d last)
    (found : d.loans.find l.id.text = some l) : Stored last (serializeAt l t) := by
  obtain ⟨l',found',user,book⟩ := placed.loans _ l found
  exact ⟨l',found',user.symm,book.symm⟩

theorem getLoanRule {k : String} {ok : Payload → List Write → Prop} (placed : ∀ d, I d → Placed d last)
    (down : Bears duty err)
    (missing : ∀ d, I d → d.loans.find k = none → err (.notFound "Empréstimo não encontrado"))
    (here : ∀ v, v.id.text = k → Stored last v → ok (.loan v) []) :
    upholds I (Owned last) duty ok err (LoanService.getLoan k) [] := by
  refine getRule down (fun payload entry => ?_) fun d here' => ?_
  · obtain ⟨v,rfl,id⟩ := entry.item k rfl
    exact here v id (entry.stored v (List.mem_singleton_self v))
  refine requireRule (missing d here') fun l found => ?_
  obtain rfl : l.id.text = k := (Table.findSound found).2
  refine serializeRule fun t => ?_
  have stored := storedView t (placed d here') found
  refine setRule down ⟨fun v mem => ?_,fun k same => ?_,fun k p status same => ?_⟩ (here _ rfl stored)
  · obtain rfl := List.mem_singleton.mp mem; exact stored
  · exact ⟨_,rfl,itemSame same⟩
  · have kinds := congrArg kind same
    rw [itemKind,userKind] at kinds
    exact absurd kinds (by decide)

theorem listedRule {p : Pagination} {f : LoanRepository.Filters} {g : List LoanModel × Nat → Service α}
    (here : ∀ d loans total, I d → (∀ l ∈ loans, d.loans.find l.id.text = some l ∧
      ∃ now, LoanRepository.selects now f l = true) → upholds I (Owned last) duty ok err (g (loans,total)) []) :
    upholds I (Owned last) duty ok err (LoanRepository.listPaginated p f >>= g) [] := by
  intro now a _ x owned
  refine ⟨owned,fun d inside d' _ => ?_⟩
  refine here d _ _ inside fun l mem => ?_
  have row : l ∈ arranged a.order (d.loans.rows.filter (LoanRepository.selects now f)) :=
    List.mem_of_mem_drop (List.mem_of_mem_take mem)
  obtain ⟨row,chosen⟩ := List.mem_filter.mp ((arrangedPerm _ _).mem_iff.mp row)
  exact ⟨Table.findComplete row,now,chosen⟩

theorem listLoansRule {p : Pagination} {f : LoanRepository.Filters} {ok : Payload → List Write → Prop}
    (placed : ∀ d, I d → Placed d last) (down : Bears duty err)
    (here : ∀ payload, (∀ v ∈ loansIn payload, Stored last v) → ok payload []) :
    upholds I (Owned last) duty ok err (LoanService.listPaginated p f) [] := by
  refine getRule down (fun payload entry => here payload entry.stored) ?_
  refine listedRule fun d loans total inside rows => serializeAllRule fun views each => ?_
  have stored : ∀ v ∈ views, Stored last v := by
    intro v mem
    obtain ⟨l,old,t,rfl⟩ := each v mem
    exact storedView t (placed d inside) (rows l old).1
  refine setRule down ⟨stored,fun k same => ?_,fun k p status same => ?_⟩ (here _ stored)
  · have kinds := congrArg kind same
    rw [listKind,itemKind] at kinds
    exact absurd kinds (by decide)
  · have kinds := congrArg kind same
    rw [listKind,userKind] at kinds
    exact absurd kinds (by decide)

theorem listByUserRule {userId : String} {p : Pagination} {status : Option LoanStatus}
    {ok : Payload → List Write → Prop} (placed : ∀ d, I d → Placed d last) (down : Bears duty err)
    (missing : ∀ d, I d → UserRepository.findById d userId = none → err (.notFound "Usuário não encontrado"))
    (here : ∀ payload, (∀ v ∈ loansIn payload, Stored last v ∧ v.userId.text = userId) → ok payload []) :
    upholds I (Owned last) duty ok err (LoanService.listByUserPaginated userId p status) [] := by
  refine getRule down (fun payload entry => here payload fun v mem => ⟨entry.stored v mem,entry.user _ _ _ rfl v mem⟩)
    fun d₀ inside₀ => requireRule (missing d₀ inside₀) fun user found => ?_
  refine listedRule fun d loans total inside rows => serializeAllRule fun views each => ?_
  have given : userId ≠ "" := by
    rintro rfl
    have length := user.id.form.1
    rw [(Table.findSound (Option.filter_eq_some_iff.mp found).1).2] at length
    contradiction
  have own : ∀ v ∈ views, Stored last v ∧ v.userId.text = userId := by
    intro v mem
    obtain ⟨l,old,t,rfl⟩ := each v mem
    obtain ⟨stored,now,selected⟩ := rows l old
    simp only [LoanRepository.selects,Repositories.given,Bool.and_eq_true] at selected
    have theirs : l.userId.text = userId := by simpa [given] using selected.1.1.1
    exact ⟨storedView t (placed d inside) stored,theirs⟩
  refine setRule down ⟨fun v mem => (own v mem).1,fun k same => ?_,fun k p status same v mem => ?_⟩ (here _ own)
  · have kinds := congrArg kind same
    rw [userKind,itemKind] at kinds
    exact absurd kinds (by decide)
  · rw [← userSame same]; exact (own v mem).2

end Rules

section Own
variable {I : Database → Prop} {last : Database} {duty : Duty Write Answer} {α : Type} {user : Uuid} {k : String}
  {err : ApiError → Prop}

def addressee : DomainEvent → Uuid
  | .loanCreated _ _ userId _ => userId
  | .loanReturned _ _ userId _ => userId
  | .loanCancelled _ _ userId _ => userId
  | .reservationCreated _ _ userId _ => userId
  | .reservationCancelled _ _ userId _ => userId

def Tells (user : Uuid) (xs : List Write) : Prop := ∀ n, .insertNotification n ∈ xs → n.userId = user

theorem sendRule {userId : Uuid} {type : NotificationType} {message : String} {loanId reservationId : Option Uuid}
    {ok : NotificationModel → List Write → Prop} (free : ∀ xs, Tells user xs → duty.commits xs) (own : userId = user)
    (here : ∀ n, ok n []) : upholds I (Owned last) duty ok err
      (NotificationService.sendNotification userId type message loanId reservationId) [] := by
  intro sentAt a _ x owned
  refine ⟨owned,fun createdAt d _ d' _ => ⟨free _ fun n mem => ?_,fun d'' _ => here _⟩⟩
  cases List.mem_singleton.mp mem
  exact own

theorem publishRule {event : DomainEvent} {f : Unit → Service α} {ok : α → List Write → Prop}
    (free : ∀ xs, Tells user xs → duty.commits xs) (own : addressee event = user)
    (rest : upholds I (Owned last) duty ok err (f ()) []) :
    upholds I (Owned last) duty ok err (publish event >>= f) [] := by
  refine upholdsBind.mpr ?_
  rw [publishDelivers]
  cases event <;> exact upholdsBind.mpr (upholdsBind.mpr (sendRule free own fun _ => rest))

def ownsLoan (user : Uuid) (d : Database) (k : String) : Prop := ∃ l, d.loans.find k = some l ∧ l.userId = user

def ownsReservation (user : Uuid) (d : Database) (k : String) : Prop :=
  ∃ r, d.reservations.find k = some r ∧ r.userId = user

theorem ownLoan {d : Database} {l : LoanModel} (own : ownsLoan user last k) (placed : Placed d last)
    (found : d.loans.find k = some l) : l.userId = user := by
  obtain ⟨l₁,found₁,user₁,_⟩ := placed.loans k l found
  obtain ⟨l₂,found₂,rfl⟩ := own
  obtain rfl : l₁ = l₂ := Option.some.inj (found₁.symm.trans found₂)
  exact user₁.symm

theorem ownReservation {d : Database} {r : ReservationModel} (own : ownsReservation user last k)
    (placed : Placed d last) (found : d.reservations.find k = some r) : r.userId = user := by
  obtain ⟨r₁,found₁,user₁⟩ := placed.reservations k r found
  obtain ⟨r₂,found₂,rfl⟩ := own
  obtain rfl : r₁ = r₂ := Option.some.inj (found₁.symm.trans found₂)
  exact user₁.symm

theorem refreshedOwn {d : Database} {c : LoanModel} (own : ownsLoan user last k) (placed : Placed d last)
    (id : c.id.text = k) (mine : c.userId = user) :
    ((d.loans.find c.id.text).getD c).id.text = k ∧ ((d.loans.find c.id.text).getD c).userId = user := by
  rw [id]
  cases found : d.loans.find k with
  | none => exact ⟨id,mine⟩
  | some l => exact ⟨(Table.findSound found).2,ownLoan own placed found⟩

variable (placed : ∀ d, I d → Placed d last) (any : ∀ e, err e)
  (free : ∀ xs, Tells user xs → duty.commits xs) (own : ownsLoan user last k)
include placed any free own

omit free in
theorem lockRule {e : ApiError} {f : LoanModel → Service α} {ok : α → List Write → Prop}
    (here : ∀ l, l.id.text = k → l.userId = user → upholds I (Owned last) duty ok err (f l) []) :
    upholds I (Owned last) duty ok err (do
      let loan ← require e (← LoanRepository.findActiveByIdForUpdate k)
      f loan) [] := by
  intro d inside
  refine requireRule (fun _ => any _) fun l row => ?_
  have found : d.loans.find k = some l := (Option.filter_eq_some_iff.mp row).1
  exact here l (Table.findSound found).2 (ownLoan own (placed d inside) found)

omit any in
theorem updateRule {l c : LoanModel} {f : LoanModel → Service α} {ok : α → List Write → Prop}
    (id : c.id.text = k) (mine : c.userId = user)
    (here : ∀ l, l.id.text = k → upholds I (Owned last) duty ok err (f l) []) :
    upholds I (Owned last) duty ok err (LoanRepository.update l c >>= f) [] := by
  intro _ _ _ _
  refine ⟨free _ fun n mem => ?_,fun d inside => ?_⟩
  · simp at mem
  · exact here _ (refreshedOwn own (placed d inside) id mine).1

theorem closingRule {b b' : BookModel} {l c : LoanModel} {event : LoanModel → Int → DomainEvent}
    {answer : LoanModel → α} {ok : α → List Write → Prop} (id : c.id.text = k) (mine : c.userId = user)
    (addressed : ∀ l t, addressee (event l t) = l.userId) (here : ∀ l, l.id.text = k → ok (answer l) []) :
    upholds I (Owned last) duty ok err (do
      Program.write (.updateBook b b')
      Program.write (.updateLoan l c)
      Program.commit
      let l ← LoanRepository.refresh c
      BookService.forgetBook l.bookId.text
      LoanService.invalidateLoanCache l.userId l.id
      let occurredAt ← Program.now
      publish (event l occurredAt)
      return answer l) [] := by
  have down : Bears duty err := fun _ _ _ => any _
  refine Program.upholdsWrite any (Program.upholdsWrite any (Program.upholdsCommit any (free _ fun n mem => ?_) fun d inside => ?_))
  · simp at mem
  obtain ⟨id',mine'⟩ := refreshedOwn own (placed d inside) id mine
  refine forgetBookRule down (invalidateRule down fun occurredAt => ?_)
  exact publishRule free ((addressed _ _).trans mine') (here _ id')

theorem returnLoanRule : upholds I (Owned last) duty (fun view _ => view.id.text = k) err
    (LoanService.returnLoan k) [] := by
  refine lockRule placed any own fun l id mine now => refuseRule (fun _ => any _) fun _ => ?_
  intro d inside
  refine requireRule (fun _ => any _) fun b _ => ?_
  exact closingRule placed any free own id mine (fun _ _ => rfl) fun _ id => id

theorem cancelLoanRule : upholds I (Owned last) duty (fun view _ => view.id.text = k) err
    (LoanService.cancelLoan k) [] := by
  refine lockRule placed any own fun l id mine d inside => ?_
  refine requireRule (fun _ => any _) fun b _ now => ?_
  exact closingRule placed any free own id mine (fun _ _ => rfl) fun _ id => id

theorem payFineRule : upholds I (Owned last) duty (fun view _ => view.id.text = k) err
    (LoanService.payFine k) [] := by
  refine lockRule placed any own fun l id mine now => refuseRule (fun _ => any _) fun _ => ?_
  refine refuseRule (fun _ => any _) fun _ => updateRule placed free own id mine fun l id => ?_
  exact invalidateRule (fun _ _ _ => any _) id

theorem renewLoanRule : upholds I (Owned last) duty (fun view _ => view.id.text = k) err
    (LoanService.renewLoan k) [] := by
  refine lockRule placed any own fun l id mine now => refuseRule (fun _ => any _) fun _ => ?_
  refine refuseRule (fun _ => any _) fun _ d _ => refuseRule (fun _ => any _) fun _ => ?_
  exact updateRule placed free own id mine fun l id => id

omit own in
theorem heldReservationRule (own : ownsReservation user last k) {r : ReservationModel} (id : r.id.text = k)
    (mine : r.userId = user) : upholds I (Owned last) duty (fun view _ => view.id.text = k) err (do
      let _ ← ReservationService.getReservation k
      ReservationService.cancelLoaded r) [] := by
  intro d inside
  refine requireRule (fun _ => any _) fun _ _ => refuseRule (fun _ => any _) fun _ now => ?_
  intro _ _ _ _
  refine ⟨free _ fun n mem => ?_,fun d' inside' occurredAt => ?_⟩
  · simp at mem
  have kept : ((d'.reservations.find r.id.text).getD (ReservationService.cancelled r now)).id.text = k ∧
      ((d'.reservations.find r.id.text).getD (ReservationService.cancelled r now)).userId = user := by
    rw [id]
    cases found' : d'.reservations.find k with
    | none => exact ⟨id,mine⟩
    | some r' => exact ⟨(Table.findSound found').2,ownReservation own (placed d' inside') found'⟩
  exact publishRule free kept.2 kept.1

end Own
end LibraryApi.OwnerRules
