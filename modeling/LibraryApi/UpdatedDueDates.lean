import LibraryApi.CommittedRows
import LibraryApi.LoneRules
import LibraryApi.ServiceRules

/-! The due date of an update. A request body may give it with an offset; the stored
dates have none, and the two are compared as they are. -/
namespace LibraryApi.UpdatedDueDates
open Models CacheService Repositories LoanService Requests CommittedRows
open FineCalculator (days)
open Program (wp wpBind lone loneSelect)

namespace ReportService

/- `value.astimezone(timezone.utc).replace(tzinfo=None)` where there is an offset. -/
def normalizeDatetime : DateTime → Int
  | .naive t => t
  | .aware t offset => t - offset

end ReportService
open ReportService (normalizeDatetime)

section Alone
variable {i : Nat} {admits : Answer → Prop} {pending : List Write} {w : World} {α β : Type}
  {err : ApiError → World → Prop}

theorem redisAlone {act : Cache → β × Cache} {ok : β → List Write → World → Prop}
    (up : ∀ b x, ok b pending {w with ext := x})
    (down : ∀ a, admits a → a.redisUp = false → err .redisError w) :
    wp (lone i admits) ok err (redis act) pending w := by
  intro w' same a admitted
  cases same
  beta_reduce
  by_cases reached : a.redisUp = true
  · rw [if_pos reached]; exact up _ _
  · rw [if_neg reached]; exact down a admitted (by simpa using reached)

theorem deleteKeysAlone {ok : Unit → List Write → World → Prop} (keys : List String)
    (up : ∀ x, ok () pending {w with ext := x})
    (down : ∀ x a, admits a → a.redisUp = false → err .redisError {w with ext := x}) :
    wp (lone i admits) ok err (deleteKeys keys) pending w := by
  induction keys generalizing w with
  | nil => exact up w.ext
  | cons key rest ih => exact wpBind.mpr (redisAlone (fun _ x => ih up down) (down w.ext))

theorem deletePatternAlone {ok : Unit → List Write → World → Prop} (pattern : String)
    (up : ∀ x, ok () pending {w with ext := x})
    (down : ∀ x a, admits a → a.redisUp = false → err .redisError {w with ext := x}) :
    wp (lone i admits) ok err (deletePattern pattern) pending w :=
  wpBind.mpr (redisAlone (fun keys _ => deleteKeysAlone keys up down) (down w.ext))

theorem invalidateAlone {ok : Unit → List Write → World → Prop} (userId loanId : Uuid)
    (up : ∀ x, ok () pending {w with ext := x})
    (down : ∀ x a, admits a → a.redisUp = false → err .redisError {w with ext := x}) :
    wp (lone i admits) ok err (invalidateLoanCache userId loanId) pending w :=
  wpBind.mpr (redisAlone (fun _ _ => wpBind.mpr (deletePatternAlone _ (fun _ => deletePatternAlone _ up down) down))
    (down w.ext))

end Alone

section Updates
variable {l : LoanModel} {w : World} {env : Oracle} {v : DateTime} {t : Int}

def UpdatesTo (l : LoanModel) (v : DateTime) (w : World) (env : Oracle) : Prop :=
  let (result,w') := Program.alone 0 (updateLoan l.id.text ⟨some v⟩) [] w env
  if normalizeDatetime v ≤ l.loanDate then
    result = .error (.businessRule "A data de vencimento deve ser maior que a data do empréstimo") ∧ w'.db = w.db
  else w'.db.loans.find l.id.text = some {l with dueDate := normalizeDatetime v} ∧
    ((∃ view, result = .ok view ∧ view.dueDate = normalizeDatetime v) ∨
      result = .error .redisError ∧ ∃ n, (env n).answer.redisUp = false)

theorem updateNaive (stored : w.db.loans.find l.id.text = some l) (active : l.status = .active) :
    wp (lone 0 fun a => ∃ n, (env n).answer = a)
      (fun view _ w' => ¬ t ≤ l.loanDate ∧ w'.db.loans.find l.id.text = some {l with dueDate := t} ∧ view.dueDate = t)
      (fun e w' => (t ≤ l.loanDate ∧ w'.db = w.db ∧
          e = .businessRule "A data de vencimento deve ser maior que a data do empréstimo") ∨
        (¬ t ≤ l.loanDate ∧ w'.db.loans.find l.id.text = some {l with dueDate := t} ∧ e = .redisError ∧
          ∃ n, (env n).answer.redisUp = false))
      (updateLoan l.id.text ⟨some (.naive t)⟩) [] w := by
  refine wpBind.mpr (loneSelect ?_)
  show wp _ _ _ (require _ (w.db.loans.find l.id.text) >>= _) [] w
  rw [stored]
  refine ServiceRules.refuseRule (fun closed => absurd active closed) fun _ => ?_
  refine wpBind.mpr (ServiceRules.refuseRule (fun early => .inl ⟨early,rfl,rfl⟩) fun later => ?_)
  refine wpBind.mpr (wpBind.mpr fun w₁ same => wpBind.mpr fun w₂ same' => ⟨trivial,fun w₃ same₃ => ?_⟩)
  cases same₃
  cases same'
  cases same
  have row : (storeLoan w.db.loans l {l with dueDate := t}).find l.id.text = some {l with dueDate := t} :=
    loanReplaced stored rfl
  show wp _ _ _ (invalidateLoanCache _ _ >>= fun _ => serializeLoan
    (((storeLoan w.db.loans l {l with dueDate := t}).find l.id.text).getD {l with dueDate := t})) [] _
  rw [row]
  refine wpBind.mpr (invalidateAlone _ _ (fun x => ?_) fun x a admitted off => ?_)
  · unfold serializeLoan
    split
    · rename_i closed _
      rw [show l.status = .returned from closed] at active; contradiction
    · refine wpBind.mpr fun w₄ same n => ?_
      cases same
      exact ⟨later,row,rfl⟩
  · obtain ⟨n,rfl⟩ := admitted
    exact .inr ⟨later,row,rfl,n,off⟩

theorem updateAware {instant offset : Int} (stored : w.db.loans.find l.id.text = some l) (active : l.status = .active) :
    (Program.alone 0 (updateLoan l.id.text ⟨some (.aware instant offset)⟩) [] w env).1 = .error .typeError := by
  show (Program.alone 0 (require _ (w.db.loans.find l.id.text) >>= _) [] _ _).1 = _
  rw [stored]
  show (Program.alone 0 (refuse (l.status ≠ .active) _ >>= _) [] _ _).1 = _
  rw [active]
  rfl

theorem awareMisses {instant offset : Int} (stored : w.db.loans.find l.id.text = some l) (active : l.status = .active) :
    ¬ UpdatesTo l (.aware instant offset) w env := by
  have failed : (Program.alone 0 (updateLoan l.id.text ⟨some (.aware instant offset)⟩) [] w env).1 =
    .error .typeError := updateAware stored active
  unfold UpdatesTo
  cases outcome : Program.alone 0 (updateLoan l.id.text ⟨some (.aware instant offset)⟩) [] w env with
  | mk result last =>
    rw [outcome] at failed
    cases failed
    simp

/-- An update with a due date meets the instant that its value names exactly when the
value has no offset. -/
theorem updatesIffNaive (l : LoanModel) (active : l.status = .active) (v : DateTime) (w : World) (env : Oracle)
    (stored : w.db.loans.find l.id.text = some l) : UpdatesTo l v w env ↔ ∃ t, v = .naive t := by
  cases v with
  | naive t =>
    refine ⟨fun _ => ⟨t,rfl⟩,fun _ => ?_⟩
    unfold UpdatesTo
    have ended : Program.Ended (lone 0 fun a => ∃ n, (env n).answer = a) _ _
        (Program.alone 0 (updateLoan l.id.text ⟨some (.naive t)⟩) [] w env) :=
      Program.loneEnded (fun n => ⟨n,rfl⟩) (updateNaive stored active)
    cases outcome : Program.alone 0 (updateLoan l.id.text ⟨some (.naive t)⟩) [] w env with
    | mk result last =>
      rw [outcome] at ended
      show if t ≤ l.loanDate then _ else _
      cases result with
      | ok view =>
        obtain ⟨_,w',⟨later,row,due⟩,rfl⟩ := ended
        rw [if_neg later]
        exact ⟨row,.inl ⟨view,rfl,due⟩⟩
      | error e =>
        obtain ⟨w',⟨early,kept,rfl⟩ | ⟨later,row,rfl,down⟩,rfl⟩ := ended
        · rw [if_pos early]
          exact ⟨rfl,kept⟩
        · rw [if_neg later]
          exact ⟨row,.inr ⟨rfl,down⟩⟩
  | aware instant offset =>
    exact ⟨fun meets => absurd meets (awareMisses stored active),fun ⟨_,same⟩ => by contradiction⟩

end Updates
section Samples
open Runs (sampleId tick lentOnce)

theorem sampleLent : ∃ l, lentOnce.db.loans.find (sampleId 4).text = some l ∧ l.id = sampleId 4 ∧ l.status = .active ∧
    l.loanDate < days 20 := by
  have row : ∃ l ∈ lentOnce.db.loans.find (sampleId 4).text, l.id = sampleId 4 ∧ l.status = .active ∧
    l.loanDate < days 20 := by decide +kernel
  exact row

theorem naiveStored : ∃ l, lentOnce.db.loans.find (sampleId 4).text = some l ∧
    UpdatesTo l (.naive (days 20)) lentOnce fun _ => tick 9 := by
  obtain ⟨l,found,id,active,_⟩ := sampleLent
  exact ⟨l,found,(updatesIffNaive l active (.naive (days 20)) lentOnce (fun _ => tick 9) (id ▸ found)).mpr ⟨_,rfl⟩⟩

theorem zuluRaises : ∃ l, lentOnce.db.loans.find (sampleId 4).text = some l ∧ l.status = .active ∧
    l.loanDate < normalizeDatetime (.aware (days 20) 0) ∧
    (Program.alone 0 (updateLoan l.id.text ⟨some (.aware (days 20) 0)⟩) [] lentOnce fun _ => tick 9).1 = .error .typeError ∧
    ¬ UpdatesTo l (.aware (days 20) 0) lentOnce fun _ => tick 9 := by
  obtain ⟨l,found,id,active,later⟩ := sampleLent
  have later : l.loanDate < normalizeDatetime (.aware (days 20) 0) := by simpa [normalizeDatetime] using later
  exact ⟨l,found,active,later,updateAware (id ▸ found) active,awareMisses (id ▸ found) active⟩

end Samples
end LibraryApi.UpdatedDueDates
