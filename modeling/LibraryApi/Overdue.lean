import LibraryApi.CommittedRows
import LibraryApi.LoneRules
import LibraryApi.ReminderRun
import LibraryApi.Runs

/-! When a loan counts as overdue. The queries compare instants, the calculator counts
midnights: between the due instant and the end of its day they disagree. -/
namespace LibraryApi.Overdue
open Models CacheService Repositories LoanService Requests CommittedRows DueLoanNotificationJob DailyReminders ReminderRun
open FineCalculator (date dateMono calculateDaysLate days)
open Program (alone)

section Renewing
variable {i : Nat} {w : World} {env : Oracle} {l : LoanModel}

def renewal (d : Database) (l : LoanModel) (now : Int) : Except ApiError RenewView :=
  if 0 < calculateDaysLate l.dueDate now then
    .error (.businessRule "Empréstimos em atraso não podem ser renovados")
  else if maxRenewals ≤ l.renewalCount then
    .error (.businessRule "O empréstimo atingiu o número máximo de renovações")
  else if ReservationRepository.existsActiveForBook d l.bookId = true then
    .error (.businessRule "O empréstimo não pode ser renovado porque o livro possui reservas ativas")
  else .ok ⟨l.id,l.status,l.dueDate + days renewalDays,l.renewalCount + 1⟩

theorem aloneRefuse {α : Type} {bad : Prop} [Decidable bad] {e : ApiError} {f : Unit → Service α}
    {pending : List Write} : alone i (refuse bad e >>= f) pending w env =
      if bad then (.error e,w.release i) else alone i (f ()) pending w env := by
  unfold refuse
  split <;> rfl

theorem renewAlone (found : w.db.loans.find l.id.text = some l) (active : l.status = .active) :
    (alone i (renewLoan l.id.text) [] w env).1 = renewal w.db l (w.clock + (env 1).elapsed) := by
  have locked : (w.db.loans.find l.id.text).filter (fun l => l.status == .active) = some l := by
    rw [found]; simp [active]
  have stored : (storeLoan w.db.loans l (renewed l)).find l.id.text = some (renewed l) := loanReplaced found rfl
  unfold renewLoan LoanRepository.findActiveByIdForUpdate
  rw [Program.aloneLock locked]
  show (alone i (Program.now >>= _) [] _ _).1 = _
  rw [Program.aloneNow]
  show (alone i (refuse (0 < calculateDaysLate l.dueDate (w.clock + (env 1).elapsed)) _ >>= _) [] _ _).1 = _
  rw [aloneRefuse]
  unfold renewal
  by_cases late : 0 < calculateDaysLate l.dueDate (w.clock + (env 1).elapsed)
  · rw [if_pos late,if_pos late]
  rw [if_neg late,if_neg late,aloneRefuse]
  by_cases full : maxRenewals ≤ l.renewalCount
  · rw [if_pos full,if_pos full]
  rw [if_neg full,if_neg full]
  show (alone i (refuse (ReservationRepository.existsActiveForBook w.db l.bookId = true) _ >>= _) [] _ _).1 = _
  rw [aloneRefuse]
  by_cases reserved : ReservationRepository.existsActiveForBook w.db l.bookId = true
  · rw [if_pos reserved,if_pos reserved]
  rw [if_neg reserved,if_neg reserved]
  show Except.ok (let r := ((storeLoan w.db.loans l (renewed l)).find l.id.text).getD (renewed l)
    (⟨r.id,r.status,r.dueDate,r.renewalCount⟩ : RenewView)) = _
  rw [stored]; rfl

theorem renewalLate {d : Database} {now : Int} : renewal d l now =
    .error (.businessRule "Empréstimos em atraso não podem ser renovados") ↔ 0 < calculateDaysLate l.dueDate now := by
  unfold renewal
  split
  · rename_i late; exact ⟨fun _ => late,fun _ => rfl⟩
  · rename_i inTime
    refine ⟨fun same => ?_,fun late => absurd late inTime⟩
    split at same
    · simp at same
    split at same <;> simp at same

end Renewing

section Notions
variable {l : LoanModel} {t : Int}

def Listed (l : LoanModel) (t : Int) : Prop := LoanRepository.selects t ⟨none,none,none,some true⟩ l = true

def Shown (l : LoanModel) (t : Int) : Prop := (serializeAt l t).isOverdue = true

def Notified (l : LoanModel) (t : Int) : Prop := remindable utc .loanOverdue t l = true

def RefusedLate (l : LoanModel) (w : World) (env : Oracle) : Prop :=
  (alone 0 (renewLoan l.id.text) [] w env).1 =
    .error (.businessRule "Empréstimos em atraso não podem ser renovados")

def DueEarlierToday (l : LoanModel) (t : Int) : Prop := l.dueDate < t ∧ date l.dueDate = date t

theorem listedIff (active : l.status = .active) : Listed l t ↔ l.dueDate < t := by
  simp [Listed,LoanRepository.selects,given,active]

theorem notifiedIff (active : l.status = .active) : Notified l t ↔ l.dueDate < t := by
  simp [Notified,remindable,active]

theorem lateIff : 0 < calculateDaysLate l.dueDate t ↔ l.dueDate < t ∧ ¬ DueEarlierToday l t := by
  unfold calculateDaysLate DueEarlierToday
  split
  · constructor <;> intro late <;> omega
  · rename_i past
    have := dateMono (show l.dueDate ≤ t by omega)
    constructor <;> intro late <;> omega

theorem shownIff (active : l.status = .active) : Shown l t ↔ l.dueDate < t ∧ ¬ DueEarlierToday l t := by
  rw [← lateIff]
  simp [Shown,serializeAt,active]

end Notions

section Sent
variable {w : World} {env : Oracle} {l : LoanModel} {t : Int}

def SentBoth (w : World) (env : Oracle) (l : LoanModel) : Prop :=
  ∃ new, (runJob utc (w,env)).2.db.notifications = w.db.notifications ++ new ∧
    (∃ n ∈ new, n.loanId = some l.id ∧ n.type = .loanDueToday) ∧
    ∃ n ∈ new, n.loanId = some l.id ∧ n.type = .loanOverdue

theorem dueOfSent {day : Int} {d : Database} {new : List NotificationModel} {type : NotificationType}
    (complete : Complete d day t new) (row : l ∈ d.loans.rows)
    (sent : ∃ n ∈ new, n.loanId = some l.id ∧ n.type = type) : remindable utc type t l = true := by
  obtain ⟨n,mem,about,rfl⟩ := sent
  obtain ⟨l',row',due,_,l'',inside,_,_,_,_,_,same⟩ := complete.only n mem
  obtain rfl := List.mem_singleton.mp inside
  have id : l''.id = l.id := Option.some.inj ((same ▸ rfl : n.loanId = some l''.id).symm.trans about)
  have found := KeyedTable.Table.findComplete row'
  rw [show l''.id.text = l.id.text from congrArg Uuid.text id] at found
  obtain rfl := Option.some.inj (found.symm.trans (KeyedTable.Table.findComplete row))
  exact due

theorem sentOfDue {day : Int} {d : Database} {new : List NotificationModel} {type : NotificationType}
    (complete : Complete d day t new) (row : l ∈ d.loans.rows) (unsent : sentOn type l.id day d.notifications = 0)
    (due : remindable utc type t l = true) : ∃ n ∈ new, n.loanId = some l.id ∧ n.type = type := by
  have one := complete.each l row type due
  rw [sentAppend,unsent] at one
  obtain ⟨n,mem,hit⟩ := List.countP_pos_iff.mp (show 0 < new.countP (ofDay type l.id day) by
    have : sentOn type l.id day new = 1 := by omega
    unfold sentOn at this; omega)
  simp only [ofDay,Bool.and_eq_true,beq_iff_eq] at hit
  exact ⟨n,mem,hit.1.1,hit.1.2⟩

theorem bothIff (once : OncePerDay utc w.db) (within : date (runJob utc (w,env)).2.clock = date w.clock)
    (row : l ∈ w.db.loans.rows) (active : l.status = .active) (query : overdueQueryAt (w,env) = .ok t)
    (unsent : ∀ type, reminds type = true → sentOn type l.id (date w.clock) w.db.notifications = 0) :
    SentBoth w env l ↔ DueEarlierToday l t := by
  obtain ⟨t',new,query',start,stop,_,db,complete⟩ := runWithin once env within
  obtain rfl := Except.ok.inj (query.symm.trans query')
  have day : date t = date w.clock := by
    have := dateMono start
    have := dateMono stop
    omega
  have rows : (runJob utc (w,env)).2.db.notifications = w.db.notifications ++ new := by rw [db]
  constructor
  · rintro ⟨new',rows',today,overdue⟩
    obtain rfl := List.append_cancel_left (rows'.symm.trans rows)
    have dueToday := dueOfSent complete row today
    have late := dueOfSent complete row overdue
    simp only [remindable,utcDate,active,beq_self_eq_true,Bool.true_and,beq_iff_eq,decide_eq_true_eq] at dueToday late
    exact ⟨late,dueToday⟩
  · rintro ⟨late,today⟩
    refine ⟨new,rows,sentOfDue complete row (unsent _ rfl) ?_,sentOfDue complete row (unsent _ rfl) ?_⟩
    · simp [remindable,utcDate,active,today]
    · simp [remindable,active,late]

end Sent

/-- For an ACTIVE loan the four notions of overdue agree exactly when its due instant has
not passed earlier on the same day, and one run of the job sends both kinds of reminder
exactly when it has. -/
theorem overdueAgrees (l : LoanModel) (active : l.status = .active) (w : World) (env : Oracle)
    (stored : w.db.loans.find l.id.text = some l) :
    let t := w.clock + (env 1).elapsed
    ((Listed l t ↔ Shown l t) ∧ (Shown l t ↔ Notified l t) ∧ (Notified l t ↔ RefusedLate l w env) ↔
      ¬ DueEarlierToday l t) ∧
    ∀ env' t', OncePerDay utc w.db → date (runJob utc (w,env')).2.clock = date w.clock →
      (∀ type, reminds type = true → sentOn type l.id (date w.clock) w.db.notifications = 0) →
      overdueQueryAt (w,env') = .ok t' → (¬ SentBoth w env' l ↔ ¬ DueEarlierToday l t') := by
  intro t
  have row : l ∈ w.db.loans.rows := (KeyedTable.Table.findSound stored).1
  refine ⟨?_,fun env' t' once within unsent query => not_congr (bothIff once within row active query unsent)⟩
  have refused : RefusedLate l w env ↔ l.dueDate < t ∧ ¬ DueEarlierToday l t := by
    unfold RefusedLate
    rw [renewAlone stored active,renewalLate]
    exact lateIff
  rw [listedIff active,shownIff active,notifiedIff active,refused]
  unfold DueEarlierToday
  constructor
  · rintro ⟨⟨agree,_⟩,_⟩ both
    exact (agree both.1).2 both
  · intro apart
    refine ⟨⟨fun late => ⟨late,apart⟩,fun h => h.1⟩,⟨fun h => h.1,fun late => ⟨late,apart⟩⟩,
      ⟨fun late => ⟨late,apart⟩,fun h => h.1⟩⟩

section Samples
open Runs (sampleId tick lentOnce)

theorem neverSent {d : Database} (none : reminders d = []) : OncePerDay utc d ∧
    ∀ loanId day type, reminds type = true → sentOn type loanId day d.notifications = 0 := by
  have zero (loanId : Uuid) (day : Int) (type : NotificationType) (reminding : reminds type = true) :
      sentOn type loanId day d.notifications = 0 := by
    refine List.countP_eq_zero.mpr fun r mem hit => ?_
    simp only [ofDay,Bool.and_eq_true,beq_iff_eq] at hit
    have kept : r ∈ reminders d := List.mem_filter.mpr ⟨mem,by rw [hit.1.2]; exact reminding⟩
    rw [none] at kept; contradiction
  refine ⟨fun type loanId day reminding => ?_,zero⟩
  have few := zero loanId day type reminding
  unfold sentOn ofDay at few
  simp only [utcDate]
  omega

def dayAfter : World := {lentOnce with clock := atHour 15 1}

def hourAfter : World := {lentOnce with clock := atHour 14 1}

theorem lateTheDayAfter : ∃ l, dayAfter.db.loans.find (sampleId 4).text = some l ∧
    (Listed l dayAfter.clock ∧ Shown l dayAfter.clock ∧ Notified l dayAfter.clock ∧
      RefusedLate l dayAfter fun _ => tick 9) ∧ ¬ SentBoth dayAfter (fun _ => tick 9) l := by
  have lent : ∃ l ∈ dayAfter.db.loans.find (sampleId 4).text, l.status = .active ∧
      l.dueDate < dayAfter.clock ∧ date l.dueDate ≠ date dayAfter.clock := by decide +kernel
  obtain ⟨l,found,active,late,apart⟩ := lent
  have id : l.id.text = (sampleId 4).text := (KeyedTable.Table.findSound found).2
  obtain ⟨once,unsent⟩ := neverSent (show reminders dayAfter.db = [] by decide +kernel)
  obtain ⟨agree,sent⟩ := overdueAgrees l active dayAfter (fun _ => tick 9) (id ▸ found)
  have other : ¬ DueEarlierToday l dayAfter.clock := fun h => apart h.2
  obtain ⟨first,second,third⟩ := agree.mpr other
  have listed : Listed l dayAfter.clock := (listedIff active).mpr late
  refine ⟨l,found,⟨listed,first.mp listed,second.mp (first.mp listed),third.mp (second.mp (first.mp listed))⟩,?_⟩
  exact (sent (fun _ => tick 9) dayAfter.clock once (by decide +kernel) (unsent l.id _) (by decide +kernel)).mpr other

theorem listedButNotShown : ∃ l, hourAfter.db.loans.find (sampleId 4).text = some l ∧ l.status = .active ∧
    Listed l hourAfter.clock ∧ ¬ Shown l hourAfter.clock ∧ Notified l hourAfter.clock ∧
      ¬ RefusedLate l hourAfter (fun _ => tick 9) ∧ SentBoth hourAfter (fun _ => tick 9) l := by
  have lent : ∃ l ∈ hourAfter.db.loans.find (sampleId 4).text, l.status = .active ∧
      l.dueDate < hourAfter.clock ∧ date l.dueDate = date hourAfter.clock := by decide +kernel
  obtain ⟨l,found,active,late,same⟩ := lent
  have id : l.id.text = (sampleId 4).text := (KeyedTable.Table.findSound found).2
  have early : DueEarlierToday l hourAfter.clock := ⟨late,same⟩
  obtain ⟨once,unsent⟩ := neverSent (show reminders hourAfter.db = [] by decide +kernel)
  refine ⟨l,found,active,(listedIff active).mpr late,fun shown => ((shownIff active).mp shown).2 early,
    (notifiedIff active).mpr late,fun refused => ?_,?_⟩
  · unfold RefusedLate at refused
    rw [renewAlone (id ▸ found) active,renewalLate] at refused
    exact (lateIff.mp refused).2 early
  · exact (bothIff once (by decide +kernel) (KeyedTable.Table.findSound found).1 active (by decide +kernel)
      (unsent l.id _)).mpr early

end Samples
end LibraryApi.Overdue
