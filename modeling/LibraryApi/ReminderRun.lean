import LibraryApi.DailyReminders

/-! A run of the job within one day, on a server that keeps UTC: every loan that is due
for a reminder has exactly one of the day afterwards, and nothing else was sent. -/
namespace LibraryApi.ReminderRun
open Models CacheService Requests DueLoanNotificationJob DailyReminders
open FineCalculator (date dateMono)
open Program (wp wpBind wpMono)

def utc : UtcOffset := ⟨0,by decide,by decide⟩

theorem utcDate (t : Int) : utc.date t = date t := by simp [UtcOffset.date,utc]

def ofDay (type : NotificationType) (loanId : Uuid) (day : Int) (r : NotificationModel) : Bool :=
  r.loanId == some loanId && r.type == type && date r.createdAt == day

theorem datedUtc (type : NotificationType) (loanId : Uuid) (t : Int) : dated utc type loanId t = ofDay type loanId (date t) := by
  unfold dated ofDay
  rw [utcDate]

def sentOn (type : NotificationType) (loanId : Uuid) (day : Int) (rows : List NotificationModel) : Nat :=
  rows.countP (ofDay type loanId day)

def reminder (l : LoanModel) (type : NotificationType) (message : String) (id : Uuid) (sentAt createdAt : Int) :
    NotificationModel :=
  {id := id,userId := l.userId,loanId := some l.id,reservationId := none,type := type,status := .sent,
    channel := "EMAIL_FAKE",message := message,sentAt := some sentAt,createdAt := createdAt}

def Fresh (type : NotificationType) (day : Int) (loans : List LoanModel) (before : List NotificationModel)
    (n : NotificationModel) : Prop :=
  date n.createdAt = day ∧ ∃ l ∈ loans, sentOn type l.id day before = 0 ∧
    ∃ message id sentAt createdAt, n = reminder l type message id sentAt createdAt

structure Reminded (type : NotificationType) (day : Int) (loans : List LoanModel)
    (before more : List NotificationModel) : Prop where
  each : ∀ l ∈ loans, sentOn type l.id day (before ++ more) = 1
  only : ∀ n ∈ more, Fresh type day loans before n

section Counts
variable {type type' : NotificationType} {loanId : Uuid} {day : Int} {loans : List LoanModel} {l : LoanModel}
  {before more rows : List NotificationModel} {n : NotificationModel}

theorem sentAppend : sentOn type loanId day (rows ++ more) = sentOn type loanId day rows + sentOn type loanId day more :=
  List.countP_append

theorem freshOf (h : Fresh type day loans before n) : n.type = type ∧ ∃ l ∈ loans, n.loanId = some l.id := by
  obtain ⟨_,l,mem,_,_,_,_,_,rfl⟩ := h
  exact ⟨rfl,l,mem,rfl⟩

theorem sentElsewhere (h : Reminded type day loans before more)
    (elsewhere : type' = type → ∀ l ∈ loans, l.id ≠ loanId) :
    sentOn type' loanId day (before ++ more) = sentOn type' loanId day before := by
  rw [sentAppend]
  have none : sentOn type' loanId day more = 0 := by
    refine List.countP_eq_zero.mpr fun n mem hit => ?_
    obtain ⟨of,l,inside,about⟩ := freshOf (h.only n mem)
    simp only [ofDay,Bool.and_eq_true,beq_iff_eq] at hit
    refine elsewhere (hit.1.2.symm.trans of) l inside ?_
    exact Option.some.inj (about.symm.trans hit.1.1)
  omega

theorem remindedCons {first rest : List NotificationModel} (head : Reminded type day [l] before first)
    (tail : Reminded type day loans (before ++ first) rest) (apart : l.id ∉ loans.map fun l => l.id) :
    Reminded type day (l :: loans) before (first ++ rest) := by
  refine ⟨fun l' mem => ?_,fun n mem => ?_⟩
  · rw [← List.append_assoc]
    rcases List.mem_cons.mp mem with rfl | inside
    · rw [sentElsewhere tail fun _ l'' mem same => apart (List.mem_map.mpr ⟨l'',mem,same⟩)]
      exact head.each l' List.mem_cons_self
    · exact tail.each l' inside
  · rcases List.mem_append.mp mem with old | new
    · obtain ⟨at_,l',inside,row⟩ := head.only n old
      exact ⟨at_,l',List.mem_singleton.mp inside ▸ List.mem_cons_self,row⟩
    · obtain ⟨at_,l',inside,none,row⟩ := tail.only n new
      rw [sentAppend] at none
      exact ⟨at_,l',List.mem_cons_of_mem _ inside,by omega,row⟩

end Counts

section Loops
variable {type : NotificationType} {day : Int} {w : World} {l : LoanModel} {loans : List LoanModel}
  {message : String}

structure Sends (w w' : World) (more : List NotificationModel) : Prop where
  clock : w.clock ≤ w'.clock
  db : w'.db = {w.db with notifications := w.db.notifications ++ more}

theorem sendsNone (w : World) : Sends w w [] := ⟨Int.le_refl _,by simp⟩

theorem sendsTrans {a b c : World} {xs ys : List NotificationModel} (left : Sends a b xs) (right : Sends b c ys) :
    Sends a c (xs ++ ys) := by
  refine ⟨Int.le_trans left.clock right.clock,?_⟩
  rw [right.db,left.db]
  simp

def Late (day : Int) (_ : ApiError) (w : World) : Prop := date w.clock ≠ day

def Loop (type : NotificationType) (day : Int) (loans : List LoanModel) (w : World) (pending : List Write) (w' : World) :
    Prop :=
  pending = [] ∧ ∃ more, Sends w w' more ∧ (date w'.clock = day → Reminded type day loans w.db.notifications more)

theorem lookRule (start : day ≤ date w.clock)
    (few : date w.clock = day → sentOn type l.id day w.db.notifications ≤ 1) : wp alone
    (fun sent pending w' => pending = [] ∧ Sends w w' [] ∧
      (date w'.clock = day → sentOn type l.id day w.db.notifications = if sent then 1 else 0))
    (Late day) (NotificationRepository.existsForLoanToday utc l.id type) [] w := by
  refine existsThen fun w₁ n w₂ same same' => ?_
  cases same
  cases same'
  have sends : Sends w {w with clock := w.clock + (n : Int)} [] := ⟨by show w.clock ≤ w.clock + n; omega,by simp⟩
  have counted (here : date (w.clock + n) = day) : w.db.notifications.countP (dated utc type l.id (w.clock + n)) =
      sentOn type l.id day w.db.notifications := by
    rw [datedUtc,here]; rfl
  refine ⟨fun none => ⟨rfl,sends,fun here => (counted here).symm.trans none⟩,
    fun one => ⟨rfl,sends,fun here => (counted here).symm.trans one⟩,fun several here => ?_⟩
  have early : date w.clock = day := by
    have := dateMono (show w.clock ≤ w.clock + n by omega)
    have : date (w.clock + n) = day := here
    omega
  have one := few early
  rw [← counted here] at one
  exact Nat.not_le_of_lt several one

theorem onceRule (start : day ≤ date w.clock)
    (few : date w.clock = day → sentOn type l.id day w.db.notifications ≤ 1) : wp alone
    (fun _ pending w' => Loop type day [l] w pending w') (Late day)
    (NotificationService.sendOncePerDay utc l.userId type message (some l.id) none) [] w := by
  refine wpBind.mpr (wpMono (fun sent _ w₁ known => ?_) (fun _ _ h => h) (lookRule start few))
  obtain ⟨rfl,sends,count⟩ := known
  cases sent with
  | true =>
    refine ⟨rfl,[],sends,fun here => ⟨fun l' mem => ?_,fun n mem => by contradiction⟩⟩
    rw [List.mem_singleton.mp mem,List.append_nil]
    exact count here
  | false =>
    refine wpBind.mpr (wpBind.mpr fun w₂ same n => ?_)
    cases same
    refine wpBind.mpr fun w₂ same a _ => ?_
    cases same
    refine wpBind.mpr fun w₃ same n' => ?_
    cases same
    refine wpBind.mpr fun w₄ same => wpBind.mpr fun w₅ same' => ⟨trivial,fun w₆ last => ?_⟩
    cases last
    cases same'
    cases same
    have later : w₁.clock ≤ w₁.clock + (n : Int) + (n' : Int) := by omega
    refine ⟨rfl,[reminder l type message a.uuid (w₁.clock + n) (w₁.clock + n + n')],?_,fun here => ?_⟩
    · refine sendsTrans sends ⟨later,rfl⟩
    · replace here : date (w₁.clock + n + n') = day := here
      have before : date w₁.clock = day := by
        have := dateMono later
        have := dateMono sends.clock
        omega
      have none : sentOn type l.id day w.db.notifications = 0 := count before
      have one : sentOn type l.id day [reminder l type message a.uuid (w₁.clock + n) (w₁.clock + n + n')] = 1 := by
        simp [sentOn,ofDay,reminder,here]
      refine ⟨fun l' mem => ?_,fun r mem => ?_⟩
      · rw [List.mem_singleton.mp mem,sentAppend,none,one]
      · rw [List.mem_singleton.mp mem]
        exact ⟨here,l,List.mem_singleton_self _,none,_,_,_,_,rfl⟩

theorem remindAllRule (day : Int) (apart : (loans.map fun l => l.id).Nodup) (start : day ≤ date w.clock)
    (few : date w.clock = day → ∀ l ∈ loans, sentOn type l.id day w.db.notifications ≤ 1) : wp alone
    (fun _ pending w' => Loop type day loans w pending w') (Late day) (remindAll utc type message loans) [] w := by
  induction loans generalizing w with
  | nil => exact ⟨rfl,[],sendsNone w,fun _ => ⟨fun _ mem => absurd mem List.not_mem_nil,fun _ mem => absurd mem List.not_mem_nil⟩⟩
  | cons l rest ih =>
    obtain ⟨first,apart⟩ := List.nodup_cons.mp (show (l.id :: rest.map fun l => l.id).Nodup from apart)
    unfold remindAll
    refine wpBind.mpr (wpMono (fun _ _ w₁ done => ?_) (fun _ _ h => h)
      (onceRule start fun here => few here l List.mem_cons_self))
    obtain ⟨rfl,more,sends,head⟩ := done
    have early (here : date w₁.clock = day) : date w.clock = day := by
      have := dateMono sends.clock
      omega
    have start₁ : day ≤ date w₁.clock := Int.le_trans start (dateMono sends.clock)
    refine wpMono (fun _ _ w₂ done => ?_) (fun _ _ h => h) (ih apart start₁ fun here l' mem => ?_)
    · obtain ⟨rfl,more₂,sends₂,tail⟩ := done
      refine ⟨rfl,more ++ more₂,sendsTrans sends sends₂,fun here => ?_⟩
      have before : date w₁.clock = day := by
        have := dateMono sends₂.clock
        omega
      have tail := tail here
      rw [sends.db] at tail
      exact remindedCons (head before) tail first
    · rw [sends.db]
      show sentOn type l'.id day (w.db.notifications ++ more) ≤ 1
      rw [sentElsewhere (head here) fun _ l'' mem' same => ?_]
      · exact few (early here) l' (List.mem_cons_of_mem _ mem)
      · rw [List.mem_singleton.mp mem'] at same
        exact first (List.mem_map.mpr ⟨l',mem,same.symm⟩)

end Loops

def overdueLoansAt (now : Int) : Service (List LoanModel) := do
  let order ← rowOrder
  Program.select fun d : Database => Repositories.arranged order
    (d.loans.rows.filter fun l => l.status == .active && decide (l.dueDate < now))

def executeTimed (z : UtcOffset) : Service Int := do
  let today ← z.today
  let dueSoonDate := today + 2
  let dueSoonLoans ← LoanRepository.listDueOnDate dueSoonDate
  remindAll z .loanDueSoon "Seu empréstimo vence em 2 dias." dueSoonLoans
  let dueTodayLoans ← LoanRepository.listDueOnDate today
  remindAll z .loanDueToday "Seu empréstimo vence hoje." dueTodayLoans
  let now ← Program.now
  let overdueLoans ← overdueLoansAt now
  remindAll z .loanOverdue "Seu empréstimo está atrasado. Regularize a devolução." overdueLoans
  return now

theorem executeTimes (z : UtcOffset) : execute z = (do let _ ← executeTimed z; return ()) := by
  have last (p : Service Unit) : (p >>= fun _ => pure ()) = p := Program.bindPure p
  simp only [execute,executeTimed,LoanRepository.listOverdueForNotifications,overdueLoansAt,Program.bindBind,
    Program.pureThen,last]

def overdueQueryAt (run : World × Oracle) : Except ApiError Int :=
  (Program.alone 0 (executeTimed utc) [] run.1 run.2).1

structure Complete (d : Database) (day t : Int) (new : List NotificationModel) : Prop where
  each : ∀ l ∈ d.loans.rows, ∀ type, remindable utc type t l = true →
    sentOn type l.id day (d.notifications ++ new) = 1
  only : ∀ n ∈ new, ∃ l ∈ d.loans.rows, remindable utc n.type t l = true ∧
    Fresh n.type day [l] d.notifications n

section Run
variable {w : World} {day t : Int} {d : Database} {new : List NotificationModel}

theorem onceSent (once : OncePerDay utc d) {type : NotificationType} (reminding : reminds type = true) (loanId : Uuid)
    (day : Int) : sentOn type loanId day d.notifications ≤ 1 := by
  have few := once type loanId day reminding
  simp only [utcDate] at few
  exact few

theorem freshEarlier {type : NotificationType} {loans : List LoanModel} {before more : List NotificationModel}
    {n : NotificationModel} (h : Fresh type day loans (before ++ more) n) :
    ∃ l ∈ loans, Fresh n.type day [l] before n := by
  obtain ⟨at_,l,mem,none,message,id,sentAt,createdAt,rfl⟩ := h
  rw [sentAppend] at none
  exact ⟨l,mem,at_,l,List.mem_singleton_self _,by show sentOn type l.id day before = 0; omega,_,_,_,_,rfl⟩

theorem loopsComplete {soon today overdue : List LoanModel} {m₁ m₂ m₃ : List NotificationModel}
    (soonDone : Reminded .loanDueSoon day soon d.notifications m₁)
    (todayDone : Reminded .loanDueToday day today (d.notifications ++ m₁) m₂)
    (overdueDone : Reminded .loanOverdue day overdue (d.notifications ++ m₁ ++ m₂) m₃)
    (rows₁ : ∀ l, l ∈ soon ↔ l ∈ d.loans.rows ∧ remindable utc .loanDueSoon t l = true)
    (rows₂ : ∀ l, l ∈ today ↔ l ∈ d.loans.rows ∧ remindable utc .loanDueToday t l = true)
    (rows₃ : ∀ l, l ∈ overdue ↔ l ∈ d.loans.rows ∧ remindable utc .loanOverdue t l = true) :
    Complete d day t (m₁ ++ m₂ ++ m₃) := by
  refine ⟨fun l row type due => ?_,fun n mem => ?_⟩
  · rw [← List.append_assoc,← List.append_assoc]
    cases type with
    | loanDueSoon =>
      rw [sentElsewhere overdueDone fun same => by contradiction,sentElsewhere todayDone fun same => by contradiction]
      exact soonDone.each l ((rows₁ l).mpr ⟨row,due⟩)
    | loanDueToday =>
      rw [sentElsewhere overdueDone fun same => by contradiction]
      exact todayDone.each l ((rows₂ l).mpr ⟨row,due⟩)
    | loanOverdue => exact overdueDone.each l ((rows₃ l).mpr ⟨row,due⟩)
    | _ => simp [remindable] at due
  · rcases List.mem_append.mp mem with early | late
    · rcases List.mem_append.mp early with first | second
      · have fresh := soonDone.only n first
        have sole : Fresh .loanDueSoon day soon (d.notifications ++ []) n := by rwa [List.append_nil]
        obtain ⟨l,inside,row⟩ := freshEarlier sole
        refine ⟨l,((rows₁ l).mp inside).1,?_,row⟩
        rw [(freshOf fresh).1]
        exact ((rows₁ l).mp inside).2
      · have fresh := todayDone.only n second
        obtain ⟨l,inside,row⟩ := freshEarlier fresh
        refine ⟨l,((rows₂ l).mp inside).1,?_,row⟩
        rw [(freshOf fresh).1]
        exact ((rows₂ l).mp inside).2
    · have fresh := overdueDone.only n late
      rw [List.append_assoc] at fresh
      obtain ⟨l,inside,row⟩ := freshEarlier fresh
      refine ⟨l,((rows₃ l).mp inside).1,?_,row⟩
      rw [(freshOf fresh).1]
      exact ((rows₃ l).mp inside).2

theorem executeRule (once : OncePerDay utc w.db) : wp alone
    (fun t _ w' => w.clock ≤ t ∧ t ≤ w'.clock ∧ ∃ new, Sends w w' new ∧
      (date w'.clock = date w.clock → Complete w.db (date w.clock) t new))
    (Late (date w.clock)) (executeTimed utc) [] w := by
  refine wpBind.mpr (wpBind.mpr fun w₁ same n => ?_)
  cases same
  have begun : Sends w {w with clock := w.clock + (n : Int)} [] := ⟨by show w.clock ≤ w.clock + n; omega,by simp⟩
  refine wpBind.mpr (listedRule fun soon apart₁ rows₁ => wpBind.mpr (wpMono (fun _ _ w₂ done₁ => ?_) (fun _ _ h => h)
    (remindAllRule (date w.clock) apart₁ (dateMono begun.clock) fun _ l _ => onceSent once rfl l.id _)))
  obtain ⟨rfl,m₁,sends₁,soonDone⟩ := done₁
  have upTo₂ := sendsTrans begun sends₁
  have few {type : NotificationType} (reminding : reminds type = true) (other : type ≠ .loanDueSoon)
      (here : date w₂.clock = date w.clock) (loanId : Uuid) : sentOn type loanId (date w.clock) w₂.db.notifications ≤ 1 := by
    rw [sends₁.db]
    show sentOn type loanId _ (w.db.notifications ++ m₁) ≤ 1
    rw [sentElsewhere (soonDone here) fun same => absurd same other]
    exact onceSent once reminding loanId _
  refine wpBind.mpr (listedRule fun today apart₂ rows₂ => wpBind.mpr (wpMono (fun _ _ w₃ done₂ => ?_) (fun _ _ h => h)
    (remindAllRule (date w.clock) apart₂ (dateMono upTo₂.clock) fun here l _ => few rfl (by decide) here l.id)))
  obtain ⟨rfl,m₂,sends₂,todayDone⟩ := done₂
  have few₃ (here : date w₃.clock = date w.clock) (loanId : Uuid) :
      sentOn .loanOverdue loanId (date w.clock) w₃.db.notifications ≤ 1 := by
    have before : date w₂.clock = date w.clock := by
      have := dateMono sends₂.clock
      have := dateMono upTo₂.clock
      omega
    rw [sends₂.db]
    show sentOn .loanOverdue loanId _ (w₂.db.notifications ++ m₂) ≤ 1
    rw [sentElsewhere (todayDone here) fun same => by contradiction]
    exact few rfl (by decide) before loanId
  refine wpBind.mpr fun w₄ same n' => ?_
  cases same
  have waited : Sends w₃ {w₃ with clock := w₃.clock + (n' : Int)} [] := ⟨by show w₃.clock ≤ w₃.clock + n'; omega,by simp⟩
  have upTo₄ := sendsTrans upTo₂ (sendsTrans sends₂ waited)
  have early (here : date (w₃.clock + n') = date w.clock) : date w₃.clock = date w.clock := by
    have later : date w₃.clock ≤ date (w₃.clock + n') := dateMono waited.clock
    have := dateMono (sendsTrans upTo₂ sends₂).clock
    omega
  refine wpBind.mpr (listedRule fun overdue apart₃ rows₃ => wpBind.mpr (wpMono (fun _ _ w₅ done₃ => ?_) (fun _ _ h => h)
    (remindAllRule (date w.clock) apart₃ (dateMono upTo₄.clock) fun here l _ => few₃ (early here) l.id)))
  obtain ⟨rfl,m₃,sends₃,overdueDone⟩ := done₃
  have whole := sendsTrans upTo₄ sends₃
  refine ⟨upTo₄.clock,sends₃.clock,m₁ ++ m₂ ++ m₃,by simpa using whole,fun here => ?_⟩
  have last : date (w₃.clock + n') = date w.clock := by
    have until₄ : date (w₃.clock + n') ≤ date w₅.clock := dateMono sends₃.clock
    have since : date w.clock ≤ date (w₃.clock + n') := dateMono upTo₄.clock
    omega
  have third := early last
  have second : date w₂.clock = date w.clock := by
    have := dateMono sends₂.clock
    have := dateMono upTo₂.clock
    omega
  have first : date (w.clock + n) = date w.clock := by
    have until₂ : date (w.clock + n) ≤ date w₂.clock := dateMono sends₁.clock
    have since : date w.clock ≤ date (w.clock + n) := dateMono begun.clock
    omega
  have soonDone : Reminded _ _ soon w.db.notifications m₁ := soonDone second
  have todayDone := todayDone third
  have overdueDone := overdueDone here
  rw [sends₁.db] at todayDone rows₂
  rw [show w₃.db = _ from sends₂.db,sends₁.db] at overdueDone rows₃
  refine loopsComplete soonDone todayDone overdueDone (fun l => ?_) (fun l => ?_) rows₃
  · simpa [remindable,utcDate,first,last] using rows₁ l
  · simpa [remindable,utcDate,first,last] using rows₂ l

theorem completeOnce (once : OncePerDay utc d) (complete : Complete d day t new) :
    OncePerDay utc {d with notifications := d.notifications ++ new} := by
  intro type loanId day' reminding
  simp only [utcDate]
  show sentOn type loanId day' (d.notifications ++ new) ≤ 1
  by_cases sent : ∃ n ∈ new, ofDay type loanId day' n = true
  · obtain ⟨n,mem,hit⟩ := sent
    obtain ⟨l,row,due,at_,l',inside,_,_,_,_,_,same⟩ := complete.only n mem
    obtain rfl := List.mem_singleton.mp inside
    simp only [ofDay,Bool.and_eq_true,beq_iff_eq] at hit
    have about : l'.id = loanId := Option.some.inj ((same ▸ rfl : n.loanId = some l'.id).symm.trans hit.1.1)
    have one := complete.each l' row n.type due
    rw [about,hit.1.2,show day = day' from at_.symm.trans hit.2] at one
    omega
  · have none : sentOn type loanId day' new = 0 :=
      List.countP_eq_zero.mpr fun n mem hit => sent ⟨n,mem,hit⟩
    rw [sentAppend,none]
    exact onceSent once reminding loanId day'

theorem runWithin (once : OncePerDay utc w.db) (env : Oracle)
    (within : date (runJob utc (w,env)).2.clock = date w.clock) :
    ∃ t new, overdueQueryAt (w,env) = .ok t ∧ w.clock ≤ t ∧ t ≤ (runJob utc (w,env)).2.clock ∧
      (runJob utc (w,env)).1 = .ok () ∧
      (runJob utc (w,env)).2.db = {w.db with notifications := w.db.notifications ++ new} ∧
      Complete w.db (date w.clock) t new := by
  have ended : Program.Ended alone _ _ (Program.alone 0 (executeTimed utc) [] w env) :=
    Program.loneEnded (fun _ => trivial) (executeRule once)
  have same : runJob utc (w,env) = ((Program.alone 0 (executeTimed utc) [] w env).1.map fun _ => (),
      (Program.alone 0 (executeTimed utc) [] w env).2) := by
    unfold runJob
    rw [executeTimes]
    exact Program.aloneMap (fun _ => ()) 0 (executeTimed utc) [] w env
  rw [same] at within ⊢
  unfold overdueQueryAt
  cases outcome : Program.alone 0 (executeTimed utc) [] w env with
  | mk result last =>
    rw [outcome] at ended within
    cases result with
    | error e =>
      obtain ⟨w',late,rfl⟩ := ended
      exact absurd within late
    | ok t =>
      obtain ⟨_,w',⟨start,stop,new,sends,complete⟩,rfl⟩ := ended
      exact ⟨t,new,rfl,start,stop,rfl,sends.db,complete within⟩

theorem secondRun {day t t₂ : Int} {d : Database} {new new₂ : List NotificationModel} (complete : Complete d day t new)
    (first : date t = day) (second : date t₂ = day)
    (again : Complete {d with notifications := d.notifications ++ new} day t₂ new₂) :
    ∀ n ∈ new₂, n.type = .loanOverdue ∧ ∃ l ∈ d.loans.rows, l.status = .active ∧ n.loanId = some l.id ∧
      t ≤ l.dueDate ∧ l.dueDate < t₂ := by
  intro n mem
  obtain ⟨l,row,due,_,l',inside,none,_,_,_,_,same⟩ := again.only n mem
  obtain rfl := List.mem_singleton.mp inside
  have unsent (before : remindable utc n.type t l' = true) : False := by
    have one := complete.each l' row n.type before
    have zero : sentOn n.type l'.id day (d.notifications ++ new) = 0 := none
    omega
  have of : n.type = .loanOverdue := by
    by_contra other
    refine unsent ?_
    revert due other
    cases n.type <;> simp [remindable,utcDate,first,second]
  rw [of] at due unsent
  simp only [remindable,Bool.and_eq_true,beq_iff_eq,decide_eq_true_eq] at due unsent
  refine ⟨of,l',row,due.1,by rw [same]; rfl,?_,due.2⟩
  by_contra early
  exact unsent ⟨due.1,by omega⟩

/-- Where no reminder of the day is there twice, a run within the day on a server that
keeps UTC leaves exactly one of each that is due, and sends nothing else; a second run
on the day sends only what has become overdue since. -/
theorem everyLoanReminded (w : World) (env : Oracle) (once : OncePerDay utc w.db)
    (within : date (runJob utc (w,env)).2.clock = date w.clock) :
    ∃ t new, overdueQueryAt (w,env) = .ok t ∧ (runJob utc (w,env)).1 = .ok () ∧
      (runJob utc (w,env)).2.db = {w.db with notifications := w.db.notifications ++ new} ∧
      (∀ l ∈ w.db.loans.rows, l.status = .active →
        (date l.dueDate = date w.clock + 2 →
          sentOn .loanDueSoon l.id (date w.clock) (w.db.notifications ++ new) = 1) ∧
        (date l.dueDate = date w.clock →
          sentOn .loanDueToday l.id (date w.clock) (w.db.notifications ++ new) = 1) ∧
        (l.dueDate < t → sentOn .loanOverdue l.id (date w.clock) (w.db.notifications ++ new) = 1)) ∧
      (∀ n ∈ new, ∃ l ∈ w.db.loans.rows, l.status = .active ∧ remindable utc n.type t l = true ∧
        Fresh n.type (date w.clock) [l] w.db.notifications n) ∧
      ∀ w₂ env₂, w₂.db = (runJob utc (w,env)).2.db → (runJob utc (w,env)).2.clock ≤ w₂.clock →
        date (runJob utc (w₂,env₂)).2.clock = date w.clock →
        ∃ t₂ new₂, overdueQueryAt (w₂,env₂) = .ok t₂ ∧ (runJob utc (w₂,env₂)).1 = .ok () ∧
          (runJob utc (w₂,env₂)).2.db = {w.db with notifications := w.db.notifications ++ new ++ new₂} ∧
          ∀ n ∈ new₂, n.type = .loanOverdue ∧ ∃ l ∈ w.db.loans.rows, l.status = .active ∧ n.loanId = some l.id ∧
            t ≤ l.dueDate ∧ l.dueDate < t₂ := by
  obtain ⟨t,new,query,start,stop,done,db,complete⟩ := runWithin once env within
  have first : date t = date w.clock := by
    have := dateMono start
    have := dateMono stop
    omega
  refine ⟨t,new,query,done,db,fun l row active => ⟨fun due => ?_,fun due => ?_,fun due => ?_⟩,fun n mem => ?_,
    fun w₂ env₂ kept later within₂ => ?_⟩
  · exact complete.each l row .loanDueSoon (by simp [remindable,utcDate,active,due,first])
  · exact complete.each l row .loanDueToday (by simp [remindable,utcDate,active,due,first])
  · exact complete.each l row .loanOverdue (by simp [remindable,active,due])
  · obtain ⟨l,row,due,fresh⟩ := complete.only n mem
    have active := due
    simp only [remindable,Bool.and_eq_true,beq_iff_eq] at active
    exact ⟨l,row,active.1,due,fresh⟩
  · rw [db] at kept
    have once₂ : OncePerDay utc w₂.db := kept ▸ completeOnce once complete
    have since : date w₂.clock = date w.clock := by
      have := dateMono (Int.le_trans start (Int.le_trans stop later))
      have : date w₂.clock ≤ date (runJob utc (w₂,env₂)).2.clock := dateMono (Program.aloneLater 0 _ [] w₂ env₂)
      omega
    obtain ⟨t₂,new₂,query₂,start₂,stop₂,done₂,db₂,complete₂⟩ := runWithin once₂ env₂ (within₂.trans since.symm)
    have second : date t₂ = date w.clock := by
      have := dateMono start₂
      have := dateMono stop₂
      omega
    rw [since,kept] at complete₂
    rw [kept] at db₂
    exact ⟨t₂,new₂,query₂,done₂,db₂,secondRun complete first second complete₂⟩

end Run
section Samples
open Runs (sampleId tick)

def noon : World := {overdue with clock := atHour 20 12}

theorem remindedAtNoonOnly : ∃ new, (runJob utc (noon,fun _ => tick 9)).1 = .ok () ∧
    (runJob utc (noon,fun _ => tick 9)).2.db = {noon.db with notifications := noon.db.notifications ++ new} ∧
    sentOn .loanOverdue (sampleId 4) 20 (noon.db.notifications ++ new) = 1 := by
  have before : reminders noon.db = [] := by decide +kernel
  have orderly : Orderly utc (reminders noon.db) 0 := by
    rw [before]; exact ⟨by simp,.nil,fun _ => .nil⟩
  have once : OncePerDay utc noon.db := orderlyOnce orderly
  have within : date (runJob utc (noon,fun _ => tick 9)).2.clock = date noon.clock := by decide +kernel
  have late : ∃ l ∈ noon.db.loans.rows, l.status = .active ∧ l.id = sampleId 4 ∧ l.dueDate < noon.clock := by
    decide +kernel
  obtain ⟨t,new,query,done,db,each,_⟩ := everyLoanReminded noon (fun _ => tick 9) once within
  have at_ : overdueQueryAt (noon,fun _ => tick 9) = .ok noon.clock := by decide +kernel
  obtain ⟨l,row,active,same,due⟩ := late
  obtain rfl := Except.ok.inj (at_.symm.trans query)
  refine ⟨new,done,db,?_⟩
  have one := (each l row active).2.2 due
  rw [same,show date noon.clock = 20 by decide +kernel] at one
  exact one

end Samples
end LibraryApi.ReminderRun
