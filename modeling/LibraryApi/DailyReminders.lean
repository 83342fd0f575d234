import LibraryApi.DueLoanNotificationJob
import LibraryApi.Runs
import LibraryApi.LoneRules

/-! One reminder a day. The job looks for a notification whose UTC date is the server's
date of today; it goes wrong on the days on which it has sent one at an hour when the
two calendars differed. -/
namespace LibraryApi.DailyReminders
open Models CacheService Requests DueLoanNotificationJob
open FineCalculator (date dayMicros dateMono days)
open Program (wp wpBind wpMono lone loneSelect)

def reminds : NotificationType → Bool
  | .loanDueSoon => true
  | .loanDueToday => true
  | .loanOverdue => true
  | _ => false

def remindable (z : UtcOffset) (type : NotificationType) (t : Int) (l : LoanModel) : Bool :=
  l.status == .active && match type with
  | .loanDueSoon => date l.dueDate == z.date t + 2
  | .loanDueToday => date l.dueDate == z.date t
  | .loanOverdue => decide (l.dueDate < t)
  | _ => false

def reminders (d : Database) : List NotificationModel := d.notifications.filter fun r => reminds r.type

def OncePerDay (z : UtcOffset) (d : Database) : Prop := ∀ type loanId day, reminds type = true →
  d.notifications.countP (fun r => r.loanId == some loanId && r.type == type && z.date r.createdAt == day) ≤ 1

def runJob (z : UtcOffset) (run : World × Oracle) : Except ApiError Unit × World :=
  Program.alone 0 (execute z) [] run.1 run.2

structure Meanwhile (w w' : World) : Prop where
  clock : w.clock ≤ w'.clock
  kept : reminders w'.db = reminders w.db

inductive Reached (z : UtcOffset) : List (World × Oracle) → World → Prop where
  | start {w} (none : reminders w.db = []) : Reached z [] w
  | meanwhile {runs w w'} (h : Reached z runs w) (other : Meanwhile w w') : Reached z runs w'
  | job {runs w} (h : Reached z runs w) (env : Oracle) : Reached z ((w,env) :: runs) (runJob z (w,env)).2

/-- Until `stop`, no loan comes due for a reminder of which it has had one of that type, at an
hour when the UTC date was another, on the day of that instant or of a later one. -/
def Settled (z : UtcOffset) (w : World) (stop : Int) : Prop := ∀ r ∈ reminders w.db, ∀ l ∈ w.db.loans.rows,
  r.loanId = some l.id → ∀ t t', w.clock ≤ t → t ≤ t' → t' ≤ stop → remindable z r.type t l = true →
    z.date r.createdAt = z.date t' → date r.createdAt = z.date r.createdAt

section Calendars
variable {z : UtcOffset} {d : Database} {rs : List NotificationModel} {clock t : Int} {type : NotificationType}
  {loanId : Uuid}

theorem localMono {a b : Int} (h : a ≤ b) : z.date a ≤ z.date b := dateMono (Int.add_le_add_right h _)

theorem utcAhead (behind : z.micros < 0) : date t ≤ z.date t + 1 := by
  have low := z.low
  unfold UtcOffset.date date dayMicros at *
  omega

def Alike (a b : NotificationModel) : Prop := a.loanId = b.loanId ∧ a.type = b.type

structure Orderly (z : UtcOffset) (rs : List NotificationModel) (clock : Int) : Prop where
  past : ∀ r ∈ rs, r.createdAt ≤ clock
  days : rs.Pairwise fun a b => Alike a b → z.date a.createdAt < z.date b.createdAt
  stamps : z.micros < 0 → rs.Pairwise fun a b => Alike a b → date a.createdAt < date b.createdAt

theorem remindersFilter {p : NotificationModel → Bool} (only : ∀ r, p r = true → reminds r.type = true) :
    (reminders d).filter p = d.notifications.filter p := by
  unfold reminders
  rw [List.filter_filter]
  refine List.filter_congr fun r _ => ?_
  cases h : p r with
  | true => simp [only r h]
  | false => rfl

theorem fewFound {R : NotificationModel → NotificationModel → Prop} {p : NotificationModel → Bool}
    (apart : rs.Pairwise R) (never : ∀ a ∈ rs, ∀ b ∈ rs, p a = true → p b = true → ¬ R a b) :
    (rs.filter p).length ≤ 1 := by
  have kept := apart.filter p
  cases same : rs.filter p with
  | nil => simp
  | cons a rest =>
    cases rest with
    | nil => simp
    | cons b rest =>
      rw [same] at kept
      have ha : a ∈ rs.filter p := same ▸ List.mem_cons_self
      have hb : b ∈ rs.filter p := same ▸ List.mem_cons_of_mem _ List.mem_cons_self
      obtain ⟨ha,pa⟩ := List.mem_filter.mp ha
      obtain ⟨hb,pb⟩ := List.mem_filter.mp hb
      exact absurd (List.rel_of_pairwise_cons kept List.mem_cons_self) (never a ha b hb pa pb)

theorem orderlyOnce (orderly : Orderly z (reminders d) clock) : OncePerDay z d := by
  intro type loanId day reminding
  have only (r : NotificationModel) (h : (r.loanId == some loanId && r.type == type &&
      z.date r.createdAt == day) = true) : reminds r.type = true := by
    simp only [Bool.and_eq_true,beq_iff_eq] at h
    rw [h.1.2]; exact reminding
  rw [List.countP_eq_length_filter,← remindersFilter only]
  refine fewFound orderly.days fun a _ b _ pa pb apart => ?_
  simp only [Bool.and_eq_true,beq_iff_eq] at pa pb
  have less := apart ⟨pa.1.1.trans pb.1.1.symm,pa.1.2.trans pb.1.2.symm⟩
  omega

def dated (z : UtcOffset) (type : NotificationType) (loanId : Uuid) (t : Int) (r : NotificationModel) : Bool :=
  r.loanId == some loanId && r.type == type && date r.createdAt == z.date t

theorem datedFew (orderly : Orderly z rs t) : (rs.filter (dated z type loanId t)).length ≤ 1 := by
  have alike {a b : NotificationModel} (pa : dated z type loanId t a = true) (pb : dated z type loanId t b = true) :
      Alike a b ∧ date a.createdAt = z.date t ∧ date b.createdAt = z.date t := by
    simp only [dated,Bool.and_eq_true,beq_iff_eq] at pa pb
    exact ⟨⟨pa.1.1.trans pb.1.1.symm,pa.1.2.trans pb.1.2.symm⟩,pa.2,pb.2⟩
  by_cases behind : z.micros < 0
  · refine fewFound (orderly.stamps behind) fun a _ b _ pa pb apart => ?_
    obtain ⟨same,da,db⟩ := alike pa pb
    have less := apart same
    omega
  · -- east of it the local date of a row is at least its UTC date, and at most today
    have east (r : NotificationModel) (mem : r ∈ rs) (stamp : date r.createdAt = z.date t) :
        z.date r.createdAt = z.date t := by
      have late : date r.createdAt ≤ z.date r.createdAt := dateMono (by omega)
      have early : z.date r.createdAt ≤ z.date t := localMono (orderly.past r mem)
      omega
    refine fewFound orderly.days fun a ha b hb pa pb apart => ?_
    obtain ⟨same,da,db⟩ := alike pa pb
    have less := apart same
    rw [east a ha da,east b hb db] at less
    omega

theorem orderlySent {n : NotificationModel} {t' : Int} (orderly : Orderly z rs t) (later : t ≤ t')
    (at_ : n.createdAt = t') (of : n.loanId = some loanId ∧ n.type = type)
    (none : ∀ r ∈ rs, dated z type loanId t r = false)
    (settled : ∀ r ∈ rs, Alike r n → z.date r.createdAt = z.date t → date r.createdAt = z.date r.createdAt) :
    Orderly z (rs ++ [n]) t' := by
  have before (r : NotificationModel) (mem : r ∈ rs) (alike : Alike r n) :
      z.date r.createdAt < z.date t ∧ date r.createdAt ≠ z.date t := by
    have other : date r.createdAt ≠ z.date t := by
      intro stamp
      have missed := none r mem
      simp [dated,alike.1,alike.2,of,stamp] at missed
    have early : z.date r.createdAt ≤ z.date t := localMono (orderly.past r mem)
    have differs : z.date r.createdAt ≠ z.date t := fun same => other ((settled r mem alike same).trans same)
    exact ⟨by omega,other⟩
  have next : z.date t ≤ z.date n.createdAt := localMono (by omega)
  refine ⟨fun r mem => ?_,?_,fun behind => ?_⟩
  · rcases List.mem_append.mp mem with old | new
    · have := orderly.past r old
      omega
    · rw [List.mem_singleton.mp new]; omega
  · refine List.pairwise_append.mpr ⟨orderly.days,List.pairwise_singleton _ _,fun r mem n' new alike => ?_⟩
    obtain rfl := List.mem_singleton.mp new
    have := (before r mem alike).1
    omega
  · refine List.pairwise_append.mpr ⟨orderly.stamps behind,List.pairwise_singleton _ _,fun r mem n' new alike => ?_⟩
    obtain rfl := List.mem_singleton.mp new
    obtain ⟨less,other⟩ := before r mem alike
    have ahead := utcAhead (z := z) (t := r.createdAt) behind
    have west : z.date n'.createdAt ≤ date n'.createdAt := dateMono (by omega)
    omega

end Calendars

section Job
variable {z : UtcOffset} {w₀ w : World} {fresh fresh' : NotificationModel → Prop} {type : NotificationType}
  {loanId : Uuid} {stop stop' : Int}

theorem settledMono (earlier : stop ≤ stop') (settled : Settled z w₀ stop') : Settled z w₀ stop :=
  fun r mem l row of t t' start later before => settled r mem l row of t t' start later (Int.le_trans before earlier)

abbrev alone : ServiceRules.Contract := lone 0 fun _ => True

structure Going (z : UtcOffset) (w₀ : World) (fresh : NotificationModel → Prop) (w : World) : Prop where
  loans : w.db.loans = w₀.db.loans
  clock : w₀.clock ≤ w.clock
  orderly : Settled z w₀ w.clock → Orderly z (reminders w.db) w.clock
  old : ∀ r ∈ reminders w.db, r ∈ reminders w₀.db ∨ fresh r

/-- The job is aborted only by rows it should not have sent. -/
def Unsettled (z : UtcOffset) (w₀ : World) (_ : ApiError) (w : World) : Prop := ¬ Settled z w₀ w.clock

theorem orderlyLater {rs : List NotificationModel} {t t' : Int} (later : t ≤ t') (orderly : Orderly z rs t) :
    Orderly z rs t' := ⟨fun r mem => Int.le_trans (orderly.past r mem) later,orderly.days,orderly.stamps⟩

theorem goingTick (going : Going z w₀ fresh w) (n : Nat) :
    Going z w₀ fresh {w with clock := w.clock + (n : Int)} := by
  have later : w.clock ≤ w.clock + (n : Int) := by omega
  exact ⟨going.loans,Int.le_trans going.clock later,
    fun settled => orderlyLater later (going.orderly (settledMono later settled)),going.old⟩

theorem goingMono (sub : ∀ r, fresh r → fresh' r) (going : Going z w₀ fresh w) : Going z w₀ fresh' w :=
  ⟨going.loans,going.clock,going.orderly,fun r mem => (going.old r mem).imp_right (sub r)⟩

theorem existsThen {c : ServiceRules.Contract} {ok : Bool → List Write → World → Prop} {err : ApiError → World → Prop}
    (here : ∀ w₁ (n : Nat) w₂, c.rely w w₁ → c.rely {w₁ with clock := w₁.clock + (n : Int)} w₂ →
      let found := w₂.db.notifications.countP (dated z type loanId (w₁.clock + n))
      (found = 0 → ok false [] w₂) ∧ (found = 1 → ok true [] w₂) ∧ (1 < found → err .multipleResultsFound w₂)) :
    wp c ok err (NotificationRepository.existsForLoanToday z loanId type) [] w := by
  refine wpBind.mpr (wpBind.mpr fun w₁ r₁ n => wpBind.mpr fun w₂ r₂ => ?_)
  obtain ⟨none,one,several⟩ := here w₁ n w₂ r₁ r₂
  rw [List.countP_eq_length_filter] at none one several
  show wp c _ _ (scalarOneOrNone (w₂.db.notifications.filter (dated z type loanId (w₁.clock + n))) >>= _) [] _
  cases rows : w₂.db.notifications.filter (dated z type loanId (w₁.clock + n)) with
  | nil => exact none (by rw [rows]; rfl)
  | cons a rest =>
    cases rest with
    | nil => exact one (by rw [rows]; rfl)
    | cons b rest => exact several (by rw [rows]; simp)

theorem existsRule (loanId : Uuid) (reminding : reminds type = true) (going : Going z w₀ fresh w) : wp alone
    (fun sent pending w' => pending = [] ∧ w.clock ≤ w'.clock ∧ Going z w₀ fresh w' ∧
      (sent = false → ∀ r ∈ reminders w'.db, dated z type loanId w'.clock r = false))
    (Unsettled z w₀) (NotificationRepository.existsForLoanToday z loanId type) [] w := by
  refine existsThen fun w₁ n w₂ same same' => ?_
  cases same
  cases same'
  have later := goingTick going n
  have passed : w.clock ≤ w.clock + (n : Int) := by omega
  refine ⟨fun none => ⟨rfl,passed,later,fun _ r mem => ?_⟩,fun _ => ⟨rfl,passed,later,fun none => by contradiction⟩,
    fun several settled => ?_⟩
  · exact Bool.eq_false_iff.mpr (List.countP_eq_zero.mp none r (List.mem_filter.mp mem).1)
  · have only (r : NotificationModel) (h : dated z type loanId (w.clock + n) r = true) : reminds r.type = true := by
      simp only [dated,Bool.and_eq_true,beq_iff_eq] at h
      rw [h.1.2]; exact reminding
    have few : ((reminders w.db).filter (dated z type loanId (w.clock + n))).length ≤ 1 := datedFew (later.orderly settled)
    rw [remindersFilter only,← List.countP_eq_length_filter] at few
    exact Nat.not_le_of_lt several few

theorem sendRule {userId : Uuid} {message : String} (reminding : reminds type = true)
    (unsent : ∀ r, fresh r → ¬ (r.type = type ∧ r.loanId = some loanId)) (going : Going z w₀ fresh w)
    (due : ∃ l ∈ w₀.db.loans.rows, l.id = loanId ∧ ∃ t, w₀.clock ≤ t ∧ t ≤ w.clock ∧ remindable z type t l = true)
    (none : ∀ r ∈ reminders w.db, dated z type loanId w.clock r = false) : wp alone
    (fun _ pending w' => pending = [] ∧ w.clock ≤ w'.clock ∧
      Going z w₀ (fun r => fresh r ∨ (r.type = type ∧ r.loanId = some loanId)) w')
    (Unsettled z w₀) (NotificationHandlers.NotificationService.sendNotification userId type message
      (some loanId) Option.none) [] w := by
  refine wpBind.mpr fun w₁ same n => ?_
  cases same
  refine wpBind.mpr fun w₂ same a _ => ?_
  cases same
  refine wpBind.mpr fun w₃ same n' => ?_
  cases same
  refine wpBind.mpr fun w₄ same => wpBind.mpr fun w₅ same' => ⟨trivial,fun w₆ last => ?_⟩
  cases last
  cases same'
  cases same
  have later : w.clock ≤ w.clock + (n : Int) + (n' : Int) := by omega
  have grown (row : NotificationModel) (of : row.type = type) (d : Database)
      (rows : d.notifications = w.db.notifications ++ [row]) : reminders d = reminders w.db ++ [row] := by
    unfold reminders
    rw [rows,List.filter_append]
    simp [of,reminding]
  refine ⟨rfl,later,going.loans,Int.le_trans going.clock later,fun settled => ?_,fun r mem => ?_⟩
  · rw [grown _ rfl _ rfl]
    replace settled : Settled z w₀ (w.clock + (n : Int) + (n' : Int)) := settled
    refine orderlySent (going.orderly (settledMono later settled)) later rfl ⟨rfl,rfl⟩ none fun r mem alike day => ?_
    obtain ⟨l,row,rfl,t,start,before,reminded⟩ := due
    rcases going.old r mem with old | sent
    · refine settled r old l row alike.1 t w.clock start before later ?_ day
      rw [show r.type = type from alike.2]; exact reminded
    · exact absurd ⟨alike.2,alike.1⟩ (unsent r sent)
  · rw [grown _ rfl _ rfl] at mem
    rcases List.mem_append.mp mem with old | new
    · exact (going.old r old).imp_right .inl
    · rw [List.mem_singleton.mp new]
      exact .inr (.inr ⟨rfl,rfl⟩)

theorem onceRule {userId : Uuid} {message : String} (reminding : reminds type = true)
    (unsent : ∀ r, fresh r → ¬ (r.type = type ∧ r.loanId = some loanId)) (going : Going z w₀ fresh w)
    (due : ∃ l ∈ w₀.db.loans.rows, l.id = loanId ∧ ∃ t, w₀.clock ≤ t ∧ t ≤ w.clock ∧ remindable z type t l = true) :
    wp alone (fun _ pending w' => pending = [] ∧ w.clock ≤ w'.clock ∧
      Going z w₀ (fun r => fresh r ∨ (r.type = type ∧ r.loanId = some loanId)) w')
    (Unsettled z w₀) (NotificationService.sendOncePerDay z userId type message (some loanId) none) [] w := by
  refine wpBind.mpr (wpMono (fun sent _ w₁ known => ?_) (fun _ _ h => h) (existsRule loanId reminding going))
  obtain ⟨rfl,later,going,none⟩ := known
  obtain ⟨l,row,id,t,start,before,reminded⟩ := due
  cases sent with
  | true => exact ⟨rfl,later,goingMono (fun _ => .inl) going⟩
  | false =>
    refine wpBind.mpr (wpMono (fun _ _ w₂ sent => ?_) (fun _ _ h => h) (sendRule reminding unsent going
      ⟨l,row,id,t,start,Int.le_trans before later,reminded⟩ (none rfl)))
    exact ⟨sent.1,Int.le_trans later sent.2.1,sent.2.2⟩

theorem remindAllRule {message : String} {t : Int} {loans : List LoanModel} (reminding : reminds type = true)
    (unsent : ∀ r, fresh r → r.type = type → ∀ l ∈ loans, r.loanId ≠ some l.id)
    (apart : (loans.map fun l => l.id).Nodup) (start : w₀.clock ≤ t) (before : t ≤ w.clock)
    (due : ∀ l ∈ loans, l ∈ w₀.db.loans.rows ∧ remindable z type t l = true) (going : Going z w₀ fresh w) :
    wp alone (fun _ pending w' => pending = [] ∧ w.clock ≤ w'.clock ∧
      Going z w₀ (fun r => fresh r ∨ r.type = type) w') (Unsettled z w₀) (remindAll z type message loans) [] w := by
  induction loans generalizing fresh w with
  | nil => exact ⟨rfl,Int.le_refl _,goingMono (fun _ => .inl) going⟩
  | cons l rest ih =>
    obtain ⟨row,reminded⟩ := due l List.mem_cons_self
    obtain ⟨first,apart⟩ := List.nodup_cons.mp (show (l.id :: rest.map fun l => l.id).Nodup from apart)
    unfold remindAll
    refine wpBind.mpr (wpMono (fun _ _ w₁ sent => ?_) (fun _ _ h => h) (onceRule reminding
      (fun r sent same => unsent r sent same.1 l List.mem_cons_self same.2) going
      ⟨l,row,rfl,t,start,before,reminded⟩))
    obtain ⟨rfl,later,going⟩ := sent
    refine wpMono (fun _ _ w₂ done => ?_) (fun _ _ h => h) (ih (fun r sent of l' mem same => ?_) apart
      (Int.le_trans before later) (fun l' mem => due l' (List.mem_cons_of_mem _ mem)) going)
    · refine ⟨done.1,Int.le_trans later done.2.1,goingMono (fun r sent => ?_) done.2.2⟩
      rcases sent with (old | ⟨of,_⟩) | of
      · exact .inl old
      · exact .inr of
      · exact .inr of
    · rcases sent with old | ⟨_,id⟩
      · exact unsent r old of l' (List.mem_cons_of_mem _ mem) same
      · exact first (List.mem_map.mpr ⟨l',mem,Option.some.inj (same.symm.trans id)⟩)

theorem listedRule {p : LoanModel → Bool} {ok : List LoanModel → List Write → World → Prop}
    {err : ApiError → World → Prop} (here : ∀ loans, (loans.map fun l => l.id).Nodup →
      (∀ l, l ∈ loans ↔ l ∈ w.db.loans.rows ∧ p l = true) → ok loans [] w) : wp alone ok err (do
    let order ← rowOrder
    Program.select fun d : Database => Repositories.arranged order (d.loans.rows.filter p)) [] w := by
  refine wpBind.mpr fun w₁ same a _ => ?_
  cases same
  have same := Repositories.arrangedPerm a.order (w.db.loans.rows.filter p)
  have ids : (w.db.loans.rows.map fun l => l.id).Nodup := List.Nodup.of_map (fun id : Uuid => id.text) (by
    rw [List.map_map]; exact w.db.loans.unique)
  have apart := (same.map fun l => l.id).nodup_iff.mpr (ids.sublist (List.filter_sublist.map _))
  intro w₂ same₂
  cases same₂
  exact here _ apart fun l => same.mem_iff.trans List.mem_filter

theorem listRule {p : LoanModel → Bool} {ok : List LoanModel → List Write → World → Prop}
    {err : ApiError → World → Prop} (here : ∀ loans, (loans.map fun l => l.id).Nodup →
      (∀ l ∈ loans, l ∈ w.db.loans.rows ∧ p l = true) → ok loans [] w) : wp alone ok err (do
    let order ← rowOrder
    Program.select fun d : Database => Repositories.arranged order (d.loans.rows.filter p)) [] w :=
  listedRule fun loans apart rows => here loans apart fun l mem => (rows l).mp mem

theorem loopThen {α : Type} {message : String} {t : Int} {loans : List LoanModel} {f : Unit → Service α}
    {ok : α → List Write → World → Prop} (reminding : reminds type = true) (unsent : ∀ r, fresh r → r.type ≠ type)
    (apart : (loans.map fun l => l.id).Nodup) (start : w₀.clock ≤ t) (before : t ≤ w.clock)
    (due : ∀ l ∈ loans, l ∈ w.db.loans.rows ∧ remindable z type t l = true) (going : Going z w₀ fresh w)
    (rest : ∀ w', w.clock ≤ w'.clock → Going z w₀ (fun r => fresh r ∨ r.type = type) w' →
      wp alone ok (Unsettled z w₀) (f ()) [] w') :
    wp alone ok (Unsettled z w₀) (remindAll z type message loans >>= f) [] w := by
  refine wpBind.mpr (wpMono (fun _ _ w₁ done => ?_) (fun _ _ h => h) (remindAllRule reminding
    (fun r sent of => absurd of (unsent r sent)) apart start before (fun l mem => ?_) going))
  · obtain ⟨rfl,later,going⟩ := done
    exact rest w₁ later going
  · exact ⟨going.loans ▸ (due l mem).1,(due l mem).2⟩

theorem executeRule (orderly : Orderly z (reminders w₀.db) w₀.clock) : wp alone
    (fun _ _ w' => Settled z w₀ w'.clock → Orderly z (reminders w'.db) w'.clock)
    (Unsettled z w₀) (execute z) [] w₀ := by
  have going : Going z w₀ (fun _ => False) w₀ := ⟨rfl,Int.le_refl _,fun _ => orderly,fun _ => .inl⟩
  refine wpBind.mpr (wpBind.mpr fun w₁ same n => ?_)
  cases same
  replace going := goingTick going n
  have start : w₀.clock ≤ w₀.clock + (n : Int) := by omega
  refine wpBind.mpr (listRule fun soon apart due => loopThen (t := w₀.clock + n) rfl (fun _ h => h.elim) apart start
    (Int.le_refl _) due going fun w₁ later₁ going₁ => ?_)
  refine wpBind.mpr (listRule fun today apart due => loopThen rfl (fun r sent of => ?_) apart start later₁ due
    going₁ fun w₂ later₂ going₂ => ?_)
  · rcases sent with never | soon
    · exact never
    · rw [of] at soon; contradiction
  refine wpBind.mpr (wpBind.mpr fun w₃ same n' => ?_)
  cases same
  refine listRule fun overdue apart due => ?_
  refine wpMono (fun _ _ w₄ done => done.2.2.orderly) (fun _ _ h => h) (remindAllRule rfl (fun r sent of => ?_) apart
    (t := w₂.clock + n') ?_ (Int.le_refl _) (fun l mem => ⟨going₂.loans ▸ (due l mem).1,(due l mem).2⟩)
    (goingTick going₂ n'))
  · rcases sent with (never | soon) | today
    · exact never.elim
    · rw [of] at soon; contradiction
    · rw [of] at today; contradiction
  · have := going₂.clock
    omega

end Job

section Runs
variable {z : UtcOffset} {runs : List (World × Oracle)} {w : World}

theorem jobEnds (env : Oracle) (orderly : Orderly z (reminders w.db) w.clock)
    (settled : Settled z w (runJob z (w,env)).2.clock) :
    Orderly z (reminders (runJob z (w,env)).2.db) (runJob z (w,env)).2.clock ∧
      (runJob z (w,env)).1 ≠ .error .multipleResultsFound := by
  have ended : Program.Ended alone _ _ (runJob z (w,env)) :=
    Program.loneEnded (fun _ => trivial) (executeRule orderly)
  cases outcome : runJob z (w,env) with
  | mk result last =>
    rw [outcome] at ended settled
    cases result with
    | ok _ =>
      obtain ⟨_,w',done,rfl⟩ := ended
      exact ⟨done settled,by simp⟩
    | error e =>
      obtain ⟨w',refused,rfl⟩ := ended
      exact absurd settled refused

/-- Of each type one reminder of a loan a day, and no run aborted by two, when every run is
settled for as long as it takes. -/
theorem remindedOnce (h : Reached z runs w) (settled : ∀ run ∈ runs, Settled z run.1 (runJob z run).2.clock) :
    OncePerDay z w.db ∧ ∀ run ∈ runs, (runJob z run).1 ≠ .error .multipleResultsFound := by
  have kept : Orderly z (reminders w.db) w.clock ∧
      ∀ run ∈ runs, (runJob z run).1 ≠ .error .multipleResultsFound := by
    induction h with
    | start none =>
      rw [none]
      exact ⟨⟨by simp,.nil,fun _ => .nil⟩,by simp⟩
    | meanwhile h other ih =>
      obtain ⟨orderly,ended⟩ := ih settled
      rw [other.kept]
      exact ⟨orderlyLater other.clock orderly,ended⟩
    | job h env ih =>
      obtain ⟨orderly,ended⟩ := ih fun run mem => settled run (List.mem_cons_of_mem _ mem)
      have last := jobEnds env orderly (settled _ List.mem_cons_self)
      refine ⟨last.1,fun run mem => ?_⟩
      rcases List.mem_cons.mp mem with rfl | before
      · exact last.2
      · exact ended run before
  exact ⟨orderlyOnce kept.1,kept.2⟩

end Runs

open Runs (sampleId tick lentOnce)

def atHour (day hour : Int) : Int := days day + hour * 3600000000

def brasilia : UtcOffset := ⟨-3 * 3600000000,by decide,by decide⟩

def jobAt (z : UtcOffset) (t : Int) (w : World) : World := (runJob z ({w with clock := t},fun _ => tick 9)).2

theorem jobReached {runs : List (World × Oracle)} {w : World} (z : UtcOffset) (t : Int) (h : Reached z runs w)
    (later : w.clock ≤ t) : Reached z (({w with clock := t},fun _ => tick 9) :: runs) (jobAt z t w) := by
  have other : Meanwhile w {w with clock := t} := ⟨later,rfl⟩
  exact .job (.meanwhile h other) _

def overdue : World := {lentOnce with clock := 0}

theorem remindedAtNoon : let w := jobAt brasilia (atHour 20 13) (jobAt brasilia (atHour 20 12) overdue)
    OncePerDay brasilia w.db ∧
      (reminders w.db).map (fun r => (r.type,r.loanId)) = [(.loanOverdue,some (sampleId 4))] := by
  intro w
  have agree : ∀ r ∈ reminders (jobAt brasilia (atHour 20 12) overdue).db,
      date r.createdAt = brasilia.date r.createdAt := by decide +kernel
  have before : reminders overdue.db = [] := by decide +kernel
  have first := jobReached brasilia (atHour 20 12) (.start before) (by decide)
  have second := jobReached brasilia (atHour 20 13) first (by decide +kernel)
  refine ⟨(remindedOnce second fun run mem => ?_).1,by decide +kernel⟩
  rcases List.mem_cons.mp mem with rfl | mem
  · exact fun r sent _ _ _ _ _ _ _ _ _ _ => agree r sent
  · obtain rfl := List.mem_singleton.mp mem
    intro r sent
    replace sent : r ∈ reminders overdue.db := sent
    rw [before] at sent; contradiction

theorem remindedTwiceAnEvening :
    let second := jobAt brasilia (atHour 21 2) (jobAt brasilia (atHour 21 1) overdue)
    let last : World × Oracle := ({second with clock := atHour 21 12},fun _ => tick 9)
    (∃ runs, Reached brasilia (last :: runs) (runJob brasilia last).2) ∧
      ¬ OncePerDay brasilia (runJob brasilia last).2.db ∧
      (runJob brasilia last).1 = .error .multipleResultsFound := by
  intro second last
  have before : reminders overdue.db = [] := by decide +kernel
  have evening := jobReached brasilia (atHour 21 1) (.start before) (by decide)
  have hourLater := jobReached brasilia (atHour 21 2) evening (by decide +kernel)
  have noon := jobReached brasilia (atHour 21 12) hourLater (by decide +kernel)
  have two : (runJob brasilia last).2.db.notifications.countP (fun r => r.loanId == some (sampleId 4) &&
      r.type == .loanOverdue && brasilia.date r.createdAt == 20) = 2 := by decide +kernel
  refine ⟨⟨_,noon⟩,fun once => ?_,by decide +kernel⟩
  have few := once .loanOverdue (sampleId 4) 20 rfl
  omega

end LibraryApi.DailyReminders
