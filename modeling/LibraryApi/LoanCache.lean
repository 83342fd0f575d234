import LibraryApi.CacheRules
import LibraryApi.LoanHistory

/-! The cache against the table of loans, one request after another with Redis up.
Every operation that rewrites a loan lets its entries go, except `renew_loan`,
which leaves whatever the cache shows of the loan in place. -/
namespace LibraryApi.LoanCache
open Models CacheService KeyedTable Repositories Requests Effects Runs CommittedRows LoanHistory CacheRules
open LoanService (serializeAt itemKey renewed maxRenewals)
open FineCalculator (calculateDaysLate)
open Program (wp wpBind wpMono lone loneSelect)

structure Shows (v : LoanView) (l : LoanModel) : Prop where
  dueDate : v.dueDate = l.dueDate
  renewalCount : v.renewalCount = l.renewalCount
  status : v.status = l.status
  fineAmount : v.fineAmount = l.fineAmount
  finePaidAmount : v.finePaidAmount = l.finePaidAmount
  finePaidAt : v.finePaidAt = l.finePaidAt
  returnedAt : v.returnedAt = l.returnedAt
  cancelledAt : v.cancelledAt = l.cancelledAt

def Current (d : Database) (v : LoanView) : Prop :=
  ∃ l, d.loans.find v.id.text = some l ∧ Shows v l

def Coherent (w : World) : Prop := ∀ e ∈ w.ext, ∀ v ∈ loansIn e.2, Current w.db v

def Fresh (d : Database) (v : LoanView) : Prop :=
  ∃ l, d.loans.find v.id.text = some l ∧ Shows v l ∧ v.userId = l.userId

def Entered (d : Database) (e : String × Payload) : Prop :=
  ∀ v ∈ loansIn e.2, swept v.userId v.id e.1 = true ∧ Fresh d v

def Filed (w : World) : Prop := ∀ e ∈ w.ext, ∀ v ∈ loansIn e.2,
  swept v.userId v.id e.1 = true ∧ ∃ l, w.db.loans.find v.id.text = some l ∧ v.userId = l.userId

section Keys

theorem sweptItem (userId loanId : Uuid) : swept userId loanId (itemKey loanId.text) = true := by
  simp [swept]

theorem sweptList (userId loanId : Uuid) (p : Pagination) (f : LoanRepository.Filters) :
    swept userId loanId (LoanService.listKey p f) = true := by
  have listed : Wildcard.glob "loans:list*" (LoanService.listKey p f) = true := by
    refine (Wildcard.globPrefix (p := "loans:list") (by decide) _).mpr ?_
    unfold LoanService.listKey
    simp only [String.toList_append,List.append_assoc]
    exact ⟨_,rfl⟩
  simp [swept,listed]

theorem uuidPlain {c : Char} (h : uuidChar c = true) : Wildcard.plain c = true := by
  simp only [Wildcard.plain,Bool.and_eq_true,bne_iff_ne]
  refine ⟨⟨⟨?_,?_⟩,?_⟩,?_⟩ <;> rintro rfl <;> revert h <;> decide

theorem sweptUser (userId loanId : Uuid) (p : Pagination) (status : Option LoanStatus) :
    swept userId loanId (LoanService.userKey userId.text p status) = true := by
  have plain : ("loans:user:" ++ userId.text ++ ":").toList.all Wildcard.plain = true := by
    have id : userId.text.toList.all Wildcard.plain = true :=
      List.all_eq_true.mpr fun c mem => uuidPlain (List.all_eq_true.mp userId.form.2 c mem)
    rw [String.toList_append,String.toList_append,List.all_append,List.all_append,id]
    decide
  have listed := (Wildcard.globPrefix plain (LoanService.userKey userId.text p status)).mpr (by
    unfold LoanService.userKey
    simp only [String.toList_append,List.append_assoc]
    exact ⟨_,by simp only [List.append_assoc]; rfl⟩)
  simp [swept,listed]

end Keys

section Reads
variable {i : Nat} {A : Answer → Prop} {α : Type} {pending : List Write} {w w₀ : World} {k : String}
  {ok : α → List Write → World → Prop} {err : ApiError → World → Prop}

structure Within (w w' : World) : Prop where
  db : w'.db = w.db
  ext : ∀ e ∈ w'.ext, e ∈ w.ext

structure Faded (w w' : World) : Prop where
  db : w'.db = w.db
  ext : ∀ e ∈ w'.ext, e ∈ w.ext ∨ Entered w.db e

def Told (w : World) (payload : Payload) (w' : World) : Prop :=
  Faded w w' ∧ ∀ v ∈ loansIn payload, (∃ e ∈ w.ext, v ∈ loansIn e.2) ∨ Fresh w.db v

theorem Within.faded {w w' : World} (h : Within w w') : Faded w w' := ⟨h.db,fun e mem => .inl (h.ext e mem)⟩

theorem getThen {key : String} {f : Option Payload → Service α}
    (hit : ∀ e ∈ w.ext, ∀ w', Within w w' → wp (lone i A) ok err (f (some e.2)) pending w')
    (miss : ∀ w', Within w w' → wp (lone i A) ok err (f none) pending w')
    (down : err .redisError w) : wp (lone i A) ok err (get key >>= f) pending w := by
  refine wpBind.mpr (loneRedis (fun x sub => ?_) down)
  show wp (lone i A) ok err (f (x.lookup key)) pending {w with ext := x}
  cases found : x.lookup key with
  | none => exact miss _ ⟨rfl,sub⟩
  | some payload =>
    have mem : (key,payload) ∈ x := by
      obtain ⟨l,r,rfl,_⟩ := List.lookup_eq_some_iff.mp found
      simp
    exact hit _ (sub _ mem) _ ⟨rfl,sub⟩

theorem setLast {key : String} {payload : Payload} (within : Within w₀ w)
    (entered : Entered w₀.db (key,payload)) : wp (lone i A) (fun a _ => Told w₀ a) (fun _ => Faded w₀)
      (set key payload >>= fun _ => pure payload) pending w := by
  refine wpBind.mpr (loneRedis (fun x sub => ?_) within.faded)
  refine ⟨⟨within.db,fun e mem => ?_⟩,fun v mem => .inr (entered v mem).2⟩
  rcases List.mem_cons.mp mem with rfl | old
  · exact .inr entered
  · exact .inl (within.ext e (sub e (List.mem_of_mem_filter old)))

theorem serializedFresh {d : Database} {l : LoanModel} (t : Int)
    (stored : d.loans.find l.id.text = some l) : Fresh d (serializeAt l t) :=
  ⟨l,stored,⟨rfl,rfl,rfl,rfl,rfl,rfl,rfl,rfl⟩,rfl⟩

theorem serializeAllRule {loans : List LoanModel} {ok : List LoanView → List Write → World → Prop}
    (here : ∀ views w', w'.db = w.db → w'.ext = w.ext →
      (∀ v ∈ views, ∃ l ∈ loans, ∃ t, v = serializeAt l t) → ok views pending w') :
    wp (lone i A) ok err (LoanService.serializeAll loans) pending w := by
  induction loans generalizing ok w with
  | nil =>
    have none : ok [] pending w := here [] w rfl rfl fun _ mem => nomatch mem
    exact none
  | cons loan rest ih =>
    rw [LoanService.serializeAll]
    refine wpBind.mpr (serializeRule fun t w₁ db₁ ext₁ => ?_)
    refine wpBind.mpr (ih fun views w₂ db₂ ext₂ each => ?_)
    refine here (serializeAt loan t :: views) w₂ (db₂.trans db₁) (ext₂.trans ext₁) fun v mem => ?_
    rcases List.mem_cons.mp mem with rfl | inside
    · exact ⟨loan,List.mem_cons_self,t,rfl⟩
    · obtain ⟨l,old,shown⟩ := each v inside
      exact ⟨l,List.mem_cons_of_mem _ old,shown⟩

theorem getLoanTells :
    wp (lone i A) (fun a _ => Told w a) (fun _ => Faded w) (LoanService.getLoan k) [] w := by
  refine getThen (fun e mem w₁ within => ?_) (fun w₁ within => ?_) ⟨rfl,fun _ mem => .inl mem⟩
  · exact ⟨within.faded,fun v shown => .inl ⟨e,mem,shown⟩⟩
  refine wpBind.mpr (loneSelect (requireThen within.faded fun l found => ?_))
  obtain rfl : l.id.text = k := (Table.findSound found).2
  refine wpBind.mpr (serializeRule fun t w₂ db ext => ?_)
  refine setLast ⟨db.trans within.db,fun e mem => within.ext e (ext ▸ mem)⟩ fun v mem => ?_
  obtain rfl := List.mem_singleton.mp mem
  exact ⟨sweptItem _ _,serializedFresh t (within.db ▸ found)⟩

theorem listedRule {p : Pagination} {f : LoanRepository.Filters}
    {ok : List LoanModel × Nat → List Write → World → Prop}
    (here : ∀ loans total w', w'.db = w.db → w'.ext = w.ext →
      (∀ l ∈ loans, w.db.loans.find l.id.text = some l ∧ ∃ now, LoanRepository.selects now f l = true) →
      ok (loans,total) [] w') : wp (lone i A) ok err (LoanRepository.listPaginated p f) [] w := by
  refine wpBind.mpr fun w₁ same n => wpBind.mpr fun w₂ same' a _ => ?_
  cases same
  cases same'
  refine wpBind.mpr (loneSelect (wpBind.mpr (loneSelect ?_)))
  refine here _ _ _ rfl rfl fun l mem => ?_
  have inside : l ∈ arranged a.order (w.db.loans.rows.filter (LoanRepository.selects (w.clock + n) f)) :=
    List.mem_of_mem_drop (List.mem_of_mem_take mem)
  obtain ⟨row,chosen⟩ := List.mem_filter.mp ((arrangedPerm _ _).mem_iff.mp inside)
  exact ⟨Table.findComplete row,_,chosen⟩

theorem listLoansTells {p : Pagination} {f : LoanRepository.Filters} : wp (lone i A)
    (fun a _ => Told w a) (fun _ => Faded w) (LoanService.listPaginated p f) [] w := by
  refine getThen (fun e mem w₁ within => ?_) (fun w₁ within => ?_) ⟨rfl,fun _ mem => .inl mem⟩
  · exact ⟨within.faded,fun v shown => .inl ⟨e,mem,shown⟩⟩
  refine wpBind.mpr (listedRule fun loans total w₂ db₂ ext₂ rows => wpBind.mpr ?_)
  refine serializeAllRule fun views w₃ db₃ ext₃ each => ?_
  refine setLast ⟨db₃.trans (db₂.trans within.db),
    fun e mem => within.ext e (ext₂ ▸ ext₃ ▸ mem)⟩ fun v mem => ?_
  obtain ⟨l,inside,t,rfl⟩ := each v mem
  exact ⟨sweptList _ _ _ _,serializedFresh t (within.db ▸ (rows l inside).1)⟩

theorem listByUserTells {userId : String} {p : Pagination} {status : Option LoanStatus} :
    wp (lone i A) (fun a _ => Told w a) (fun _ => Faded w)
      (LoanService.listByUserPaginated userId p status) [] w := by
  refine getThen (fun e mem w₁ within => ?_) (fun w₁ within => ?_) ⟨rfl,fun _ mem => .inl mem⟩
  · exact ⟨within.faded,fun v shown => .inl ⟨e,mem,shown⟩⟩
  refine wpBind.mpr (loneSelect (requireThen within.faded fun user found => ?_))
  refine wpBind.mpr (listedRule fun loans total w₂ db₂ ext₂ rows => wpBind.mpr ?_)
  refine serializeAllRule fun views w₃ db₃ ext₃ each => ?_
  refine setLast ⟨db₃.trans (db₂.trans within.db),
    fun e mem => within.ext e (ext₂ ▸ ext₃ ▸ mem)⟩ fun v mem => ?_
  obtain ⟨l,inside,t,rfl⟩ := each v mem
  obtain ⟨stored,now,selected⟩ := rows l inside
  have own : l.userId.text = userId := by
    obtain ⟨row,_⟩ := Option.filter_eq_some_iff.mp found
    have id : user.id.text = userId := (Table.findSound row).2
    have given : userId ≠ "" := fun empty => by
      have length := user.id.form.1
      rw [id,empty] at length; contradiction
    simp only [LoanRepository.selects,Repositories.given,Bool.and_eq_true] at selected
    simpa [given] using selected.1.1.1
  rw [← own]
  exact ⟨sweptUser _ _ _ _,serializedFresh t (within.db ▸ stored)⟩

end Reads
section Steps

abbrev onItsOwn (j : Nat) : ServiceRules.Contract := lone j fun _ => True

variable {requests : Nat → Option Request} {d : Database} {t : Int} {j : Nat} {w : World} {r : Request}
  {env : Oracle} {k : String}

theorem wholeLoans {after : Database} (whole : Whole requests d t w r after) {l : LoanModel}
    (found : w.db.loans.find k = some l) :
    ∃ seen l', after.loans.find k = some l' ∧ LoanStep seen k l r l' := by
  cases whole with
  | nothing => exact ⟨fun _ => True,l,found,.kept⟩
  | once _ effect ran => exact ⟨_,loanStep effect ran found⟩
  | twice _ effect ran _ note =>
    obtain ⟨l',found',step⟩ := loanStep effect ran found
    exact ⟨_,l',by rw [(elsewhereRan rfl (ranOne note)).2]; exact found',step⟩

inductive Sweeps (k : String) : Request → Prop where
  | returning : Sweeps k (.returnLoan k)
  | cancelling : Sweeps k (.cancelLoan k)
  | paying : Sweeps k (.payFine k)
  | rescheduling {data} : Sweeps k (.updateLoan k data)

theorem stepSweeps {seen : Seen} {l l' : LoanModel} (step : LoanStep seen k l r l') :
    l' = l ∨ r = .renewLoan k ∨ Sweeps k r := by
  cases step with
  | kept => exact .inl rfl
  | returned => exact .inr (.inr .returning)
  | cancelled => exact .inr (.inr .cancelling)
  | renewed => exact .inr (.inl rfl)
  | paid => exact .inr (.inr .paying)
  | rescheduled => exact .inr (.inr .rescheduling)

theorem stepUser {seen : Seen} {l l' : LoanModel} (step : LoanStep seen k l r l') :
    l'.userId = l.userId := by
  cases step <;> rfl

theorem stepBook {seen : Seen} {l l' : LoanModel} (step : LoanStep seen k l r l') :
    l'.bookId = l.bookId := by
  cases step <;> rfl

theorem sweptAfter {a : Response} (h : Reached requests d t j w) (sweeps : Sweeps k r)
    (done : (serve j r w env).1 = .ok a) : Swept k (serve j r w env).2 := by
  have ended {α : Type} {p : Service α} {respond : α → Response} (same : handle r = answer respond p)
      (rule : wp (onItsOwn j) (fun _ _ => Swept k) (fun _ _ => True) p [] w) :
      Swept k (serve j r w env).2 :=
    answeredPost (c := onItsOwn j) h rfl (fun _ => rfl) (fun _ => trivial) same rule done
  cases sweeps with
  | returning => exact ended rfl (wpMono (fun _ _ _ h => h.1) (fun _ _ h => h) returnLoanSweeps)
  | cancelling => exact ended rfl (wpMono (fun _ _ _ h => h.1) (fun _ _ h => h) cancelLoanSweeps)
  | paying => exact ended rfl payFineSweeps
  | rescheduling => exact ended rfl updateLoanSweeps

theorem readTells (env : Oracle) (h : Reached requests d t j w) (reads : readsLoans r = true) :
    Faded w (serve j r w env).2 ∧ ∀ payload, (serve j r w env).1 = .ok (.read payload) →
      Told w payload (serve j r w env).2 := by
  have told {p : Service Payload} (same : handle r = answer .read p)
      (rule : wp (onItsOwn j) (fun a _ => Told w a) (fun _ => Faded w) p [] w) :
      Faded w (serve j r w env).2 ∧ ∀ payload, (serve j r w env).1 = .ok (.read payload) →
        Told w payload (serve j r w env).2 := by
    have ended := answerEnded .read env h rfl (fun _ => rfl) (fun _ => trivial) rule
    unfold serve
    rw [same]
    split at ended <;> rename_i outcome <;> rw [outcome]
    · obtain ⟨_,_,w₁,rfl,told,rfl⟩ := ended
      exact ⟨⟨told.1.db,told.1.ext⟩,fun payload done => by
        cases done; exact ⟨⟨told.1.db,told.1.ext⟩,told.2⟩⟩
    · obtain ⟨w₁,faded,rfl⟩ := ended
      exact ⟨⟨faded.db,faded.ext⟩,fun payload done => by cases done⟩
  cases r with
  | getLoan => exact told rfl getLoanTells
  | listLoans => exact told rfl listLoansTells
  | listLoansByUser => exact told rfl listByUserTells
  | _ => contradiction

theorem entriesStep (h : Reached requests d t j w) :
    ∀ e ∈ (serve j r w env).2.ext, e ∈ w.ext ∨ Entered (serve j r w env).2.db e := by
  intro e mem
  cases reads : readsLoans r with
  | true =>
    have faded := (readTells env h reads).1
    rw [faded.db]; exact faded.ext e mem
  | false =>
    have lets := Program.aloneCalls (filesRefl _) filesTrans (handleLets reads) [] w env (i := j)
    rcases lets e mem with old | none
    · exact .inl old
    · exact .inr fun v shown => by rw [none] at shown; contradiction

theorem filedStep (h : Reached requests d t j w) (sent : requests j = some r)
    (up : ∀ n, (env n).answer.redisUp = true) (filed : Filed w) : Filed (serve j r w env).2 := by
  intro e mem v shown
  rcases entriesStep h e mem with old | new
  · obtain ⟨home,l,found,user⟩ := filed e old v shown
    obtain ⟨_,l',found',step⟩ := wholeLoans (servedWhole h sent up) found
    exact ⟨home,l',found',user.trans (stepUser step).symm⟩
  · obtain ⟨home,l,found,_,user⟩ := new v shown
    exact ⟨home,l,found,user⟩

structure Renewable (d : Database) (l : LoanModel) (now : Int) : Prop where
  active : l.status = .active
  inTime : ¬ 0 < calculateDaysLate l.dueDate now
  below : ¬ maxRenewals ≤ l.renewalCount
  unreserved : ¬ ReservationRepository.existsActiveForBook d l.bookId = true

theorem renewRow {l : LoanModel} {ok : LoanModel → List Write → World → Prop}
    (found : w.db.loans.find l.id.text = some l)
    (here : ∀ w', w'.ext = w.ext → w'.db.loans.find l.id.text = some (renewed l) →
      ok (renewed l) [] w') :
    wp (onItsOwn j) ok (fun _ _ => False) (LoanRepository.update l (renewed l)) [] w := by
  refine wpBind.mpr fun w₁ same => wpBind.mpr fun w₂ same' => ⟨trivial,fun w₃ last => ?_⟩
  cases last
  cases same'
  cases same
  have stored : (storeLoan w.db.loans l (renewed l)).find l.id.text = some (renewed l) :=
    loanReplaced found rfl
  show ok (((storeLoan w.db.loans l (renewed l)).find l.id.text).getD (renewed l)) [] _
  rw [stored]
  exact here _ rfl stored

theorem renewAlone {l : LoanModel} (env : Oracle) (h : Reached requests d t j w)
    (found : w.db.loans.find l.id.text = some l) (active : l.status = .active) :
    Program.Ended (onItsOwn j)
      (fun _ _ w' => Renewable w.db l (w.clock + (env 1).elapsed) ∧ w'.ext = w.ext ∧
        w'.db.loans.find l.id.text = some (renewed l))
      (fun _ _ => ¬ Renewable w.db l (w.clock + (env 1).elapsed))
      (serve j (.renewLoan l.id.text) w env) := by
  refine endedLock found active (endedNow ?_)
  have later : Program.Quiet j w {w.acquire j [.loan l.id] with clock := w.clock + (env 1).elapsed} :=
    (Program.Quiet.acquire j w _).trans (Program.Quiet.now j _ (env 1).elapsed)
  refine reachedEnded (reachedLater h later) rfl (fun _ => rfl) (fun _ => trivial) (wpBind.mpr ?_)
  refine ServiceRules.refuseRule (fun late able => able.inTime late) fun inTime => ?_
  refine ServiceRules.refuseRule (fun full able => able.below full) fun below => ?_
  refine wpBind.mpr (loneSelect ?_)
  refine ServiceRules.refuseRule (fun reserved able => able.unreserved reserved) fun unreserved => ?_
  refine wpBind.mpr (wpMono (fun _ _ _ h => h) (fun _ _ never => never.elim) (renewRow found ?_))
  exact fun w' ext row => ⟨⟨active,inTime,below,unreserved⟩,ext,row⟩

theorem renewOutcome {l : LoanModel} (env : Oracle) (h : Reached requests d t j w)
    (found : w.db.loans.find l.id.text = some l) (active : l.status = .active) :
    (Renewable w.db l (w.clock + (env 1).elapsed) ∧
      (serve j (.renewLoan l.id.text) w env).2.ext = w.ext ∧
      (serve j (.renewLoan l.id.text) w env).2.db.loans.find l.id.text = some (renewed l)) ∨
    (¬ Renewable w.db l (w.clock + (env 1).elapsed) ∧
      ∃ e, (serve j (.renewLoan l.id.text) w env).1 = .error e) := by
  have ended := renewAlone env h found active
  cases outcome : serve j (.renewLoan l.id.text) w env with
  | mk result last =>
    rw [outcome] at ended
    cases result with
    | ok a => obtain ⟨_,_,done,rfl⟩ := ended; exact .inl done
    | error e => obtain ⟨_,refused,_⟩ := ended; exact .inr ⟨refused,e,rfl⟩

def RenewsShown (w : World) (r : Request) (env : Oracle) : Prop :=
  ∃ l, r = .renewLoan l.id.text ∧ w.db.loans.find l.id.text = some l ∧
    Renewable w.db l (w.clock + (env 1).elapsed) ∧ ∃ e ∈ w.ext, ∃ v ∈ loansIn e.2, v.id = l.id

theorem coherentStep (h : Reached requests d t j w) (sent : requests j = some r)
    (up : ∀ n, (env n).answer.redisUp = true) (filed : Filed w) (coherent : Coherent w)
    (unshown : ¬ RenewsShown w r env) : Coherent (serve j r w env).2 := by
  intro e mem v shown
  rcases entriesStep h e mem with old | new
  · obtain ⟨home,l₀,found₀,user⟩ := filed e old v shown
    obtain ⟨l,found,shows⟩ := coherent e old v shown
    obtain rfl : l₀ = l := Option.some.inj (found₀.symm.trans found)
    have id : v.id = l₀.id := uuidExt (Table.findSound found).2.symm
    obtain ⟨_,l',found',step⟩ := wholeLoans (servedWhole h sent up) found
    have kept (same : (serve j r w env).2.db = w.db) : Current (serve j r w env).2.db v :=
      ⟨_,by rw [same]; exact found,shows⟩
    rcases stepSweeps step with rfl | rfl | sweeps
    · exact ⟨l',found',shows⟩
    · cases step with
      | kept => exact ⟨_,found',shows⟩
      | renewed active =>
        rw [id] at found kept ⊢ sent
        rcases renewOutcome env h found active with ⟨able,_⟩ | ⟨_,_,refused⟩
        · exact absurd ⟨l₀,by rw [id],found,able,e,old,v,shown,id⟩ unshown
        · exact kept (failedNever h sent up refused)
    · cases answered : (serve j r w env).1 with
      | error _ => exact kept (failedNever h sent up answered)
      | ok _ =>
        have clean := sweptAfter h sweeps answered l' found' e mem
        have id' : l'.id = v.id := uuidExt (Table.findSound found').2
        rw [id',stepUser step,← user,home] at clean
        contradiction
  · obtain ⟨_,l,found,shows,_⟩ := new v shown
    exact ⟨l,found,shows⟩

theorem staleStep (h : Reached requests d t j w) (coherent : Coherent w)
    (shown : RenewsShown w r env) : ¬ Coherent (serve j r w env).2 := by
  obtain ⟨l,rfl,found,able,e,mem,v,inside,id⟩ := shown
  rcases renewOutcome env h found able.active with ⟨_,ext,row⟩ | ⟨refused,_⟩
  · intro still
    obtain ⟨l₁,found₁,before⟩ := coherent e mem v inside
    obtain ⟨l₂,found₂,after⟩ := still e (ext ▸ mem) v inside
    rw [id] at found₁ found₂
    cases Option.some.inj (found.symm.trans found₁)
    cases Option.some.inj (row.symm.trans found₂)
    have count : l.renewalCount + 1 = l.renewalCount :=
      after.renewalCount.symm.trans before.renewalCount
    omega
  · exact absurd able refused

theorem readCurrent {payload : Payload} (h : Reached requests d t j w) (coherent : Coherent w)
    (reads : readsLoans r = true) (done : (serve j r w env).1 = .ok (.read payload)) :
    ∀ v ∈ loansIn payload, Current (serve j r w env).2.db v := by
  obtain ⟨faded,told⟩ := (readTells env h reads).2 payload done
  intro v shown
  rw [faded.db]
  rcases told v shown with ⟨e,mem,inside⟩ | ⟨l,found,shows,_⟩
  · exact coherent e mem v inside
  · exact ⟨l,found,shows⟩

end Steps

section Runs
variable {t : Int} {calls : List (Request × Oracle)}

def worldAfter (t : Int) (calls : List (Request × Oracle)) : World := (serveAll 0 (opening t) calls).2

def RedisUp (calls : List (Request × Oracle)) : Prop :=
  ∀ call ∈ calls, ∀ n, (call.2 n).answer.redisUp = true

/-- No call of the run renews a loan that the cache shows at that moment. -/
def RenewedUnshown (t : Int) (calls : List (Request × Oracle)) : Prop :=
  ∀ done r env, done ++ [(r,env)] <+: calls → ¬ RenewsShown (worldAfter t done) r env

theorem worldLast (t : Int) (calls : List (Request × Oracle)) (r : Request) (env : Oracle) :
    worldAfter t (calls ++ [(r,env)]) = (serve calls.length r (worldAfter t calls) env).2 := by
  unfold worldAfter; rw [serveLast]

theorem reachedBefore (t : Int) (calls : List (Request × Oracle)) (r : Request) (env : Oracle) :
    let requests := requestsOf (calls ++ [(r,env)])
    Reached requests .empty t calls.length (worldAfter t calls) ∧ requests calls.length = some r :=
  ⟨reachedAll fun _ _ => requestsEarlier,requestsLast calls r env⟩

theorem filedAll (up : RedisUp calls) : Filed (worldAfter t calls) := by
  induction calls using List.reverseRecOn with
  | nil => exact fun _ mem => nomatch mem
  | append_singleton calls call ih =>
    obtain ⟨r,env⟩ := call
    obtain ⟨reached,sent⟩ := reachedBefore t calls r env
    rw [worldLast]
    exact filedStep reached sent (up (r,env) (by simp)) (ih fun c mem => up c (by simp [mem]))

theorem coherentAll (up : RedisUp calls) (unshown : RenewedUnshown t calls) :
    Coherent (worldAfter t calls) := by
  induction calls using List.reverseRecOn with
  | nil => exact fun _ mem => nomatch mem
  | append_singleton calls call ih =>
    obtain ⟨r,env⟩ := call
    obtain ⟨reached,sent⟩ := reachedBefore t calls r env
    have earlier : RedisUp calls := fun c mem => up c (by simp [mem])
    rw [worldLast]
    exact coherentStep reached sent (up (r,env) (by simp)) (filedAll earlier)
      (ih earlier fun done r env before => unshown done r env (before.trans (List.prefix_append _ _)))
      (unshown calls r env (List.prefix_rfl))

end Runs

/-- Along a run with Redis up the cache is coherent after every call exactly if no
call renews a loan the cache shows; then no read answers a stored field wrongly. -/
theorem coherentIffRenewedUnshown (t : Int) (calls : List (Request × Oracle)) (up : RedisUp calls) :
    ((∀ done, done <+: calls → Coherent (worldAfter t done)) ↔ RenewedUnshown t calls) ∧
      (RenewedUnshown t calls → ∀ done r env payload, done ++ [(r,env)] <+: calls →
        readsLoans r = true → (serve done.length r (worldAfter t done) env).1 = .ok (.read payload) →
        ∀ v ∈ loansIn payload, Current (worldAfter t (done ++ [(r,env)])).db v) := by
  have upTo {done} (before : done <+: calls) : RedisUp done := fun c mem => up c (before.subset mem)
  have along {done} (unshown : RenewedUnshown t calls) (before : done <+: calls) :
      Coherent (worldAfter t done) :=
    coherentAll (upTo before) fun done' r env inside => unshown done' r env (inside.trans before)
  refine ⟨⟨fun coherent done r env before shown => ?_,fun unshown done => along unshown⟩,
    fun unshown done r env payload before reads answered => ?_⟩
  · obtain ⟨reached,_⟩ := reachedBefore t done r env
    have stale := staleStep reached (coherent done ((List.prefix_append _ _).trans before)) shown
    rw [← worldLast] at stale
    exact stale (coherent _ before)
  · obtain ⟨reached,_⟩ := reachedBefore t done r env
    rw [worldLast]
    exact readCurrent reached (along unshown ((List.prefix_append _ _).trans before)) reads answered

def readOnce : List (Request × Oracle) :=
  borrowing 1 ++ [(.getLoan (sampleId 4).text,fun _ => tick 0)]

def readThenRenewed : List (Request × Oracle) :=
  readOnce ++ [(.renewLoan (sampleId 4).text,fun _ => tick 0)]

theorem readThenRenewedUp : RedisUp readThenRenewed := by
  intro call mem n
  simp only [readThenRenewed,readOnce,borrowing,List.cons_append,List.nil_append,List.mem_cons,
    List.not_mem_nil,or_false] at mem
  rcases mem with rfl | rfl | rfl | rfl | rfl | rfl <;> rfl

theorem readOnceCoherent : Coherent (worldAfter 0 readOnce) := by
  have up : RedisUp readOnce := fun call mem => readThenRenewedUp call (List.mem_append_left _ mem)
  refine (coherentIffRenewedUnshown 0 readOnce up).1.mpr (fun done r env before shown => ?_) _
    List.prefix_rfl
  obtain ⟨l,rfl,_⟩ := shown
  have mem := before.subset (List.mem_append_right done (List.mem_singleton_self _))
  simp [readOnce,borrowing] at mem

theorem renewalLeavesStale : let w := worldAfter 0 readThenRenewed
    RedisUp readThenRenewed ∧ ¬ Coherent w ∧ ∃ l ∈ w.db.loans.rows, ∃ v,
      (serve 6 (.getLoan l.id.text) w fun _ => tick 0).1 = .ok (.read (.loan v)) ∧
      v.id = l.id ∧ v.dueDate ≠ l.dueDate := by
  intro w
  have stale : ∃ l ∈ w.db.loans.rows, ∃ e ∈ w.ext, ∃ v ∈ loansIn e.2, v.id = l.id ∧
      v.dueDate ≠ l.dueDate ∧
      (serve 6 (.getLoan l.id.text) w fun _ => tick 0).1 = .ok (.read (.loan v)) := by decide +kernel
  obtain ⟨l,row,e,mem,v,inside,id,differs,answered⟩ := stale
  refine ⟨readThenRenewedUp,fun coherent => ?_,l,row,v,answered,id,differs⟩
  obtain ⟨l₁,found,shows⟩ := coherent e mem v inside
  rw [id,Table.findComplete row] at found
  cases Option.some.inj found
  exact differs shows.dueDate

end LibraryApi.LoanCache
