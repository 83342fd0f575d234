import LibraryApi.Effects
import LibraryApi.FairRules

/-! Every request keeps to its effects, whatever other clients do in between: one
rule per service function, from the rules of the statements it awaits. -/
namespace LibraryApi.ServiceRules
open Models CacheService Repositories Requests Effects NotificationHandlers
open Program

abbrev Contract := Program.Contract Database Write RowKey Cache Answer

variable {c : Contract} {α : Type} {pending : List Write} {w : World}

section Cache

theorem downRedis (fair : c.Fair) {act : Cache → α × Cache} :
    Reading c (Down c.admits) (redis act) := by
  refine readingCall fair fun a x e admitted failed => ?_
  split at failed <;> cases failed
  rename_i off
  exact ⟨rfl,a,admitted,by simpa using off⟩

theorem deleteKeysReading (fair : c.Fair) (keys : List String) :
    Reading c (Down c.admits) (deleteKeys keys) := by
  induction keys with
  | nil => exact readingPure fair ()
  | cons key rest ih => exact readingBind fair (downRedis fair) fun _ => ih

theorem deletePatternReading (fair : c.Fair) (pattern : String) :
    Reading c (Down c.admits) (deletePattern pattern) :=
  readingBind fair (downRedis fair) fun keys => deleteKeysReading fair keys

theorem forgetBookReading (fair : c.Fair) (bookId : String) :
    Reading c (Down c.admits) (BookService.forgetBook bookId) :=
  readingBind fair (downRedis fair) fun _ => deletePatternReading fair _

theorem invalidateReading (fair : c.Fair) (userId loanId : Uuid) :
    Reading c (Down c.admits) (LoanService.invalidateLoanCache userId loanId) :=
  readingBind fair (downRedis fair) fun _ =>
    readingBind fair (deletePatternReading fair _) fun _ => deletePatternReading fair _

theorem serializeReading {R : ApiError → Prop} (fair : c.Fair) (loan : LoanModel) :
    Reading c R (LoanService.serializeLoan loan) := by
  unfold LoanService.serializeLoan
  split
  · exact readingPure fair _
  · exact readingBind fair (readingNow fair) fun _ => readingPure fair _

theorem serializeAllReading {raises : ApiError → Prop} (fair : c.Fair) (loans : List LoanModel) :
    Reading c raises (LoanService.serializeAll loans) := by
  induction loans with
  | nil => exact readingPure fair _
  | cons loan rest ih =>
    exact readingBind fair (serializeReading fair loan) fun _ =>
      readingBind fair ih fun _ => readingPure fair _

theorem uuidReading (fair : c.Fair) : Reading c (fun _ => False) newUuid :=
  readingCall fair fun _ _ _ _ failed => by cases failed

theorem hashReading (fair : c.Fair) (password : String) :
    Reading c (fun e => e = .valueError) (hashPassword password) :=
  readingCall fair fun _ _ _ _ failed => by
    split at failed <;> cases failed
    rfl

end Cache

structure Serving (seen : Log → Int → Seen) (c : Contract) (r : Request) (w : World) : Prop where
  fair : c.Fair
  idle : mine c.client w.history = []
  effect : ∀ h m, m.client = c.client →
    Effect (seen h m.clock) (mine c.client h) m.before r m.writes → c.effect h m
  witnessed : Witnessed c w seen

section Serving
variable {seen : Log → Int → Seen} {r : Request}

theorem Serving.still (s : Serving seen c r w) {w' : World} (later : c.rely w w') :
    mine c.client w'.history = [] := (s.fair.frame later).mine.trans s.idle

theorem Serving.early (s : Serving seen c r w) {w' : World} (later : c.rely w w') (e : ApiError) :
    Failed c.admits e (mine c.client w'.history) := .inl (s.still later)

theorem servingLater (s : Serving seen c r w) {w' : World} (later : c.rely w w') : Serving seen c r w' :=
  ⟨s.fair,s.still later,s.effect,fun w₁ w₂ P r₁ r₂ held => s.witnessed w₁ w₂ P (s.fair.trans later r₁) r₂ held⟩

def Serves (c : Contract) (r : Request) (respond : α → Response) (p : Service α) (w : World) : Prop :=
  wp c (fun a _ w' => Completed r (respond a) (mine c.client w'.history))
    (fun e w' => Failed c.admits e (mine c.client w'.history)) p [] w

section Lookups
variable {β : Type} {ok : α → List Write → World → Prop} {err : ApiError → World → Prop}

theorem refuseRule {bad : Prop} [Decidable bad] {e : ApiError} {f : Unit → Service α}
    (refused : bad → err e w) (good : ¬ bad → wp c ok err (f ()) pending w) :
    wp c ok err (refuse bad e >>= f) pending w := by
  unfold refuse
  split
  · rename_i h; exact refused h
  · rename_i h; exact good h

theorem findRule {query : Database → Option β} {e : ApiError} {f : β → Service α}
    (missing : ∀ w', c.rely w w' → query w'.db = none → err e w')
    (good : ∀ w' row, c.rely w w' → query w'.db = some row → wp c ok err (f row) [] w') :
    wp c ok err (do let row ← require e (← select query); f row) [] w := by
  refine wpBind.mpr (selectRule fun w₁ r₁ => ?_)
  rw [viewNil]
  cases found : query w₁.db with
  | none => exact missing w₁ r₁ found
  | some row => exact good w₁ row r₁ found

theorem findUniqueRule {query : Database → List β} {f : Option β → Service α}
    (several : ∀ w' e, c.rely w w' → err e w')
    (good : ∀ w', c.rely w w' → wp c ok err (f (query w'.db).head?) [] w') :
    wp c ok err (do let row ← scalarOneOrNone (← select query); f row) [] w := by
  refine wpBind.mpr (selectRule fun w₁ r₁ => ?_)
  have here := good w₁ r₁
  rw [viewNil]
  cases found : query w₁.db with
  | nil => rw [found] at here; exact here
  | cons row rest =>
    rw [found] at here
    cases rest with
    | nil => exact here
    | cons _ _ => exact several w₁ _ r₁

theorem lockLoanRule (fair : c.Fair) {loanId : String} {e : ApiError} {f : LoanModel → Service α}
    (missing : ∀ w', c.rely w w' →
      (∀ loan, w'.db.loans.find loanId = some loan → loan.status ≠ .active) → err e w')
    (good : ∀ w' loan, c.rely w w' → w'.db.loans.find loanId = some loan → loan.status = .active →
      w'.locks (.loan loan.id) = some c.client → wp c ok err (f loan) [] w') :
    wp c ok err (do let loan ← require e (← LoanRepository.findActiveByIdForUpdate loanId); f loan)
      [] w := by
  refine wpBind.mpr (lockRule fair (fun w₁ r₁ absent => missing w₁ r₁ fun loan found => ?_)
    fun w₁ loan r₁ row held => ?_)
  · rw [viewNil,found,Option.filter_eq_none_iff] at absent
    simpa using absent loan rfl
  obtain ⟨found,active⟩ := Option.filter_eq_some_iff.mp row
  exact good w₁ loan r₁ found (by simpa using active) held

theorem lockBookRule (fair : c.Fair) {bookId : String} {e : ApiError} {f : BookModel → Service α}
    (missing : ∀ w', c.rely w w' →
      (∀ book, w'.db.books.find bookId = some book → book.isActive = false) → err e w')
    (good : ∀ w' book, c.rely w w' → w'.db.books.find bookId = some book → book.isActive = true →
      w'.locks (.book book.id) = some c.client → wp c ok err (f book) [] w') :
    wp c ok err (do let book ← require e (← LoanRepository.getBookForUpdate bookId); f book) [] w := by
  refine wpBind.mpr (lockRule fair (fun w₁ r₁ absent => missing w₁ r₁ fun book found => ?_)
    fun w₁ book r₁ row held => ?_)
  · rw [viewNil,found,Option.filter_eq_none_iff] at absent
    simpa using absent book rfl
  obtain ⟨found,active⟩ := Option.filter_eq_some_iff.mp row
  exact good w₁ book r₁ found active held

end Lookups

theorem lockedLoan (fair : c.Fair) {w w' : World} (later : c.rely w w') {loan : LoanModel}
    {loanId : String} (held : w.locks (.loan loan.id) = some c.client)
    (found : w.db.loans.find loanId = some loan) : w'.db.loans.find loanId = some loan := by
  obtain rfl := (KeyedTable.Table.findSound found).2
  exact ((fair.frame later).locks _ held).2 loan found

theorem lockedBook (fair : c.Fair) {w w' : World} (later : c.rely w w') {book : BookModel}
    {bookId : String} (held : w.locks (.book book.id) = some c.client)
    (found : w.db.books.find bookId = some book) : w'.db.books.find bookId = some book := by
  obtain rfl := (KeyedTable.Table.findSound found).2
  exact ((fair.frame later).locks _ held).2 book found

theorem commitOnce (fair : c.Fair) {ok : Unit → List Write → World → Prop}
    {err : ApiError → World → Prop}
    (effect : ∀ w' d, c.rely w w' → execAll pending w'.db = .ok d →
      c.effect w'.history ⟨c.client,w'.db,pending,d,w'.clock⟩)
    (good : ∀ w' m, mine c.client w'.history = m :: mine c.client w.history → m.writes = pending →
      ok () [] w')
    (bad : ∀ e w', c.rely w w' → execAll pending w'.db = .error e → err e w') :
    wp c ok err commit pending w := by
  refine commitRule (fun w₁ d r₁ ran => ⟨effect w₁ d r₁ ran,?_⟩) fun w₁ e r₁ => bad e w₁ r₁
  refine good _ ⟨c.client,w₁.db,pending,d,w₁.clock⟩ ?_ rfl
  rw [World.record,mineCons,if_pos rfl]
  exact congrArg _ (fair.frame r₁).mine

theorem ownAfter (fair : c.Fair) {w w' : World} (later : c.rely w w') {own : Log}
    (h : mine c.client w.history = own) : mine c.client w'.history = own :=
  (fair.frame later).mine.trans h

theorem storeRule (fair : c.Fair) {x : Write} {query : Database → α}
    {ok : α → List Write → World → Prop} {err : ApiError → World → Prop}
    (effect : ∀ w' d, c.rely w w' → execAll [x] w'.db = .ok d →
      c.effect w'.history ⟨c.client,w'.db,[x],d,w'.clock⟩)
    (good : ∀ b w' m, mine c.client w'.history = m :: mine c.client w.history → m.writes = [x] →
      ok b [] w')
    (bad : ∀ e w', c.rely w w' → x.exec w'.db = .error e → err e w') :
    wp c ok err (do write x; commit; select query) [] w := by
  refine wpBind.mpr (writeRule fair (fun w₁ r₁ _ => ?_) fun w₁ e r₁ => bad e w₁ r₁)
  refine wpBind.mpr (commitOnce fair (fun w₂ d r₂ => effect w₂ d (fair.trans r₁ r₂))
    (fun w₂ m own writes => ?_) fun e w₂ r₂ failed => bad e w₂ (fair.trans r₁ r₂) ?_)
  case refine_2 =>
    simp only [List.nil_append,execAll] at failed
    split at failed <;> cases failed
    assumption
  refine selectRule fun w₃ r₃ => good _ w₃ m ?_ writes
  exact ownAfter fair r₃ (own.trans (congrArg _ (fair.frame r₁).mine))

def Tells (note : NotificationModel) : DomainEvent → Prop
  | .loanCreated _ loanId _ _ => note.type = .loanCreated ∧ note.loanId = some loanId
  | .loanReturned _ loanId _ _ => note.type = .loanReturned ∧ note.loanId = some loanId
  | .loanCancelled _ loanId _ _ => note.type = .loanCancelled ∧ note.loanId = some loanId
  | .reservationCreated _ reservationId _ _ =>
      note.type = .reservationCreated ∧ note.reservationId = some reservationId
  | .reservationCancelled _ reservationId _ _ =>
      note.type = .reservationCancelled ∧ note.reservationId = some reservationId

theorem sendNotificationRule (fair : c.Fair) {userId : Uuid} {kind : NotificationType}
    {message : String} {loanId reservationId : Option Uuid}
    {ok : NotificationModel → List Write → World → Prop} {err : ApiError → World → Prop}
    (effect : ∀ note w' d, c.rely w w' → note.type = kind → note.loanId = loanId →
      note.reservationId = reservationId →
      c.effect w'.history ⟨c.client,w'.db,[.insertNotification note],d,w'.clock⟩)
    (good : ∀ b w' m, mine c.client w'.history = m :: mine c.client w.history → ok b [] w') :
    wp c ok err (NotificationService.sendNotification userId kind message loanId reservationId)
      [] w := by
  refine wpBind.mpr (nowRule fair fun w₁ r₁ => ?_)
  refine readingThen (uuidReading fair) (fun id w₂ r₂ => ?_) fun _ _ _ none => none.elim
  refine wpBind.mpr (nowRule fair fun w₃ r₃ => ?_)
  have r₁₃ := fair.trans r₁ (fair.trans r₂ r₃)
  exact storeRule fair (fun w₄ d r₄ _ => effect _ w₄ d (fair.trans r₁₃ r₄) rfl rfl rfl)
    (fun b w₄ m own _ => good b w₄ m (own.trans (congrArg _ (fair.frame r₁₃).mine)))
    fun _ _ _ failed => nomatch failed

theorem publishRule (fair : c.Fair) {event : DomainEvent} {ok : Unit → List Write → World → Prop}
    {err : ApiError → World → Prop}
    (effect : ∀ note w' d, c.rely w w' → Tells note event →
      c.effect w'.history ⟨c.client,w'.db,[.insertNotification note],d,w'.clock⟩)
    (good : ∀ w' m, mine c.client w'.history = m :: mine c.client w.history → ok () [] w') :
    wp c ok err (publish event) [] w := by
  rw [publishDelivers]
  cases event <;> refine wpBind.mpr (wpBind.mpr (sendNotificationRule fair
    (fun note w₁ d r₁ kind loan reservation => effect note w₁ d r₁ ⟨kind,?_⟩)
    fun _ w₁ m own => good w₁ m own)) <;> first | exact loan | exact reservation

theorem refreshedLoan (d : Database) (l : LoanModel) : ((d.loans.find l.id.text).getD l).id = l.id := by
  cases found : d.loans.find l.id.text with
  | none => rfl
  | some row => exact uuidExt (KeyedTable.Table.findSound found).2

theorem counted {answer : Response} {own : Log} (length : own.length = commitsOf r)
    (other : ∀ loanId, r ≠ .payFine loanId) : Completed r answer own :=
  ⟨length,fun loanId same => absurd same (other loanId)⟩

theorem announceRule {w₀ : World} (s : Serving seen c r w₀) {m : Commit} {event : DomainEvent}
    (own : mine c.client w.history = [m])
    (about : ∀ note, Tells note event → Announces r m.writes note)
    {ok : Unit → List Write → World → Prop} {err : ApiError → World → Prop}
    (good : ∀ w' n, mine c.client w'.history = [n,m] → ok () [] w') :
    wp c ok err (publish event) [] w := by
  refine publishRule s.fair (fun note w₁ d r₁ tells => s.effect _ _ rfl ?_)
    fun w₁ n own₁ => good w₁ n (own₁.trans (by rw [own]))
  exact .notify (ownAfter s.fair r₁ own) (about note tells)

theorem loanTailRule {w₀ : World} (s : Serving seen c r w₀) {m : Commit} {bookId : String}
    {userId loanId : Uuid} {event : Int → DomainEvent} {k : Service α}
    (own : mine c.client w.history = [m])
    (about : ∀ t note, Tells note (event t) → Announces r m.writes note)
    {ok : α → List Write → World → Prop} {err : ApiError → World → Prop}
    (good : ∀ w' n, mine c.client w'.history = [n,m] → wp c ok err k [] w')
    (down : ∀ e w', Down c.admits e → err e w') :
    wp c ok err (do
      BookService.forgetBook bookId
      LoanService.invalidateLoanCache userId loanId
      let t ← now
      publish (event t)
      k) [] w := by
  refine readingThen (forgetBookReading s.fair _) (fun _ w₁ r₁ => ?_) fun e w₁ _ => down e w₁
  refine readingThen (invalidateReading s.fair _ _) (fun _ w₂ r₂ => ?_) fun e w₂ _ => down e w₂
  refine wpBind.mpr (nowRule s.fair fun w₃ r₃ => wpBind.mpr ?_)
  exact announceRule s (ownAfter s.fair (s.fair.trans r₁ (s.fair.trans r₂ r₃)) own) (about _) good

theorem closeRule {w₀ : World} (s : Serving seen c r w₀) (later : c.rely w₀ w)
    {book book' : BookModel} {loan loan' : LoanModel} {event : LoanModel → Int → DomainEvent}
    {respond : α → Response} {answer : LoanModel → α} (id : loan'.id = loan.id)
    (two : commitsOf r = 2) (other : ∀ loanId, r ≠ .payFine loanId)
    (effect : ∀ w', c.rely w w' → Effect (seen w'.history w'.clock) [] w'.db r
      [.updateBook book book',.updateLoan loan loan'])
    (about : ∀ l t note, l.id = loan.id → Tells note (event l t) →
      Announces r [.updateBook book book',.updateLoan loan loan'] note) :
    wp c (fun a _ w' => Completed r (respond a) (mine c.client w'.history))
      (fun e w' => Failed c.admits e (mine c.client w'.history)) (do
      write (.updateBook book book')
      write (.updateLoan loan loan')
      commit
      let l ← LoanRepository.refresh loan'
      BookService.forgetBook l.bookId.text
      LoanService.invalidateLoanCache l.userId l.id
      let t ← now
      publish (event l t)
      return answer l) [] w := by
  refine wpBind.mpr (writeRule s.fair (fun w₁ r₁ _ => ?_)
    fun w₁ e r₁ _ => s.early (s.fair.trans later r₁) e)
  refine wpBind.mpr (writeRule s.fair (fun w₂ r₂ _ => ?_)
    fun w₂ e r₂ _ => s.early (s.fair.trans later (s.fair.trans r₁ r₂)) e)
  have r₁₂ := s.fair.trans r₁ r₂
  have later₂ := s.fair.trans later r₁₂
  refine wpBind.mpr (commitOnce s.fair (fun w₃ d r₃ _ => s.effect _ _ rfl ?_)
    (fun w₃ m own writes => ?_) fun e w₃ r₃ _ => s.early (s.fair.trans later₂ r₃) e)
  · rw [s.still (s.fair.trans later₂ r₃)]
    exact effect w₃ (s.fair.trans r₁₂ r₃)
  · rw [s.still later₂] at own
    refine wpBind.mpr (selectRule fun w₄ r₄ => ?_)
    refine loanTailRule s (ownAfter s.fair r₄ own) (fun t note tells => ?_)
      (fun w₅ n own₅ => counted (by rw [own₅,two]; rfl) other) fun e w₅ => .inr
    rw [writes]
    exact about _ t note ((refreshedLoan _ _).trans id) tells

theorem returnLoanRule {loanId : String} (s : Serving seen c (.returnLoan loanId) w) :
    Serves c (.returnLoan loanId) .loanReturned (LoanService.returnLoan loanId) w := by
  refine lockLoanRule s.fair (fun w₁ r₁ _ => s.early r₁ _) fun w₁ loan r₁ found active held => ?_
  refine wpBind.mpr (nowRule s.fair fun w₂ r₂ => ?_)
  have r₁₂ := s.fair.trans r₁ r₂
  refine refuseRule (fun _ => s.early r₁₂ _) fun settled => ?_
  refine lockBookRule s.fair (fun w₃ r₃ _ => s.early (s.fair.trans r₁₂ r₃) _)
    fun w₃ book r₃ stock shelved kept => ?_
  refine closeRule s (s.fair.trans r₁₂ r₃) rfl rfl nofun (fun w₄ r₄ => ?_)
    fun l t note same tells => ⟨book,_,loan,_,rfl,tells.1,by rw [tells.2,same]⟩
  have r₃₄ := s.fair.trans r₃ r₄
  exact .returnLoan rfl (lockedLoan s.fair (s.fair.trans r₂ r₃₄) held found) active
    (lockedBook s.fair r₄ kept stock) shelved
    (s.witnessed w₂ w₄ (fun _ t => t = w₂.clock) r₁₂ r₃₄ rfl) settled

theorem cancelLoanRule {loanId : String} (s : Serving seen c (.cancelLoan loanId) w) :
    Serves c (.cancelLoan loanId) .loanCancelled (LoanService.cancelLoan loanId) w := by
  refine lockLoanRule s.fair (fun w₁ r₁ _ => s.early r₁ _) fun w₁ loan r₁ found active held => ?_
  refine lockBookRule s.fair (fun w₂ r₂ _ => s.early (s.fair.trans r₁ r₂) _)
    fun w₂ book r₂ stock shelved kept => ?_
  have r₁₂ := s.fair.trans r₁ r₂
  refine wpBind.mpr (nowRule s.fair fun w₃ r₃ => ?_)
  refine closeRule s (s.fair.trans r₁₂ r₃) rfl rfl nofun (fun w₄ r₄ => ?_)
    fun l t note same tells => ⟨book,_,loan,_,rfl,tells.1,by rw [tells.2,same]⟩
  have r₃₄ := s.fair.trans r₃ r₄
  exact .cancelLoan rfl (lockedLoan s.fair (s.fair.trans r₂ r₃₄) held found) active
    (lockedBook s.fair r₃₄ kept stock) shelved
    (s.witnessed w₃ w₄ (fun _ t => t = w₃.clock) (s.fair.trans r₁₂ r₃) r₄ rfl)

theorem createLoanRule {data : LoanService.CreateLoanSchema}
    (s : Serving seen c (.createLoan data) w) :
    Serves c (.createLoan data) .loan (LoanService.createLoan data) w := by
  refine findRule (fun w₁ r₁ _ => s.early r₁ _) fun w₁ user r₁ reader => ?_
  refine wpBind.mpr (selectRule fun w₂ r₂ => ?_)
  have r₁₂ := s.fair.trans r₁ r₂
  refine refuseRule (fun _ => s.early r₁₂ _) fun below => ?_
  refine lockBookRule s.fair (fun w₃ r₃ _ => s.early (s.fair.trans r₁₂ r₃) _)
    fun w₃ book r₃ stock shelved kept => ?_
  have r₁₃ := s.fair.trans r₁₂ r₃
  refine refuseRule (fun _ => s.early r₁₃ _) fun available => ?_
  refine wpBind.mpr (nowRule s.fair fun w₄ r₄ => ?_)
  have r₁₄ := s.fair.trans r₁₃ r₄
  refine wpBind.mpr (writeRule s.fair (fun w₅ r₅ _ => ?_)
    fun w₅ e r₅ _ => s.early (s.fair.trans r₁₄ r₅) e)
  have r₁₅ := s.fair.trans r₁₄ r₅
  refine readingThen (uuidReading s.fair) (fun id w₆ r₆ => ?_) fun _ _ _ none => none.elim
  have r₁₆ := s.fair.trans r₁₅ r₆
  refine wpBind.mpr (nowRule s.fair fun w₇ r₇ => ?_)
  have r₁₇ := s.fair.trans r₁₆ r₇
  refine wpBind.mpr (writeRule s.fair (fun w₈ r₈ _ => ?_)
    fun w₈ e r₈ _ => s.early (s.fair.trans r₁₇ r₈) e)
  have r₁₈ := s.fair.trans r₁₇ r₈
  refine wpBind.mpr (selectRule fun w₉ r₉ => ?_)
  have r₁₉ := s.fair.trans r₁₈ r₉
  have r₅₉ := s.fair.trans r₅ (s.fair.trans r₆ (s.fair.trans r₇ (s.fair.trans r₈ r₉)))
  refine wpBind.mpr (commitOnce s.fair (fun w d r _ => s.effect _ _ rfl ?_)
    (fun w m own writes => ?_) fun e w r _ => s.early (s.fair.trans r₁₉ r) e)
  · rw [s.still (s.fair.trans r₁₉ r)]
    have rest := s.fair.trans r₅₉ r
    have quota := s.witnessed w₂ w
      (fun d _ => LoanRepository.countActiveByUser d data.userId < LoanService.maxActiveLoans)
      r₁₂ (s.fair.trans r₃ (s.fair.trans r₄ rest)) (by simpa using below)
    exact .createLoan rfl
      (s.witnessed w₁ w (fun d _ => UserRepository.findById d data.userId = some user) r₁
        (s.fair.trans r₂ (s.fair.trans r₃ (s.fair.trans r₄ rest))) reader) quota
      (lockedBook s.fair (s.fair.trans r₄ rest) kept stock) shelved (by omega)
      (s.witnessed w₄ w (fun _ t => t = w₄.clock) r₁₄ rest rfl)
  · rw [s.still r₁₉] at own
    refine wpBind.mpr (selectRule fun w' r' => ?_)
    refine loanTailRule s (ownAfter s.fair r' own) (fun t note tells => ?_) (fun v n own' => ?_)
      fun e v => .inr
    · rw [writes]
      refine ⟨book,_,_,rfl,tells.1,?_⟩
      rw [tells.2,refreshedLoan]
      exact congrArg _ (refreshedLoan _ (LoanService.newLoan id user book w₄.clock w₇.clock))
    · exact serializeReading (R := fun _ => False) s.fair _ _ _ _ _
        (fun a v' r'' => counted (by rw [ownAfter s.fair r'' own']; rfl) nofun)
        fun _ _ _ none => none.elim

theorem payFineRule {loanId : String} (s : Serving seen c (.payFine loanId) w) :
    Serves c (.payFine loanId) .finePaid (LoanService.payFine loanId) w := by
  refine lockLoanRule s.fair (fun w₁ r₁ _ => s.early r₁ _) fun w₁ loan r₁ found active held => ?_
  refine wpBind.mpr (nowRule s.fair fun w₂ r₂ => ?_)
  have r₁₂ := s.fair.trans r₁ r₂
  refine refuseRule (fun _ => s.early r₁₂ _) fun positive => ?_
  refine refuseRule (fun _ => s.early r₁₂ _) fun owed => ?_
  refine wpBind.mpr (storeRule s.fair (fun w₃ d r₃ _ => ?_) (fun b w₃ m own writes => ?_)
    fun e w₃ r₃ _ => s.early (s.fair.trans r₁₂ r₃) e)
  · refine s.effect _ _ rfl ?_
    rw [s.still (s.fair.trans r₁₂ r₃)]
    exact .payFine rfl (lockedLoan s.fair (s.fair.trans r₂ r₃) held found) active
      (s.witnessed w₂ w₃ (fun _ t => t = w₂.clock) r₁₂ r₃ rfl) (by omega) (by omega)
  · rw [s.still r₁₂] at own
    refine readingThen (invalidateReading s.fair _ _) (fun _ w₄ r₄ => ?_) fun e w₄ _ down => .inr down
    have own₄ := ownAfter s.fair r₄ own
    exact ⟨by rw [own₄]; rfl,fun _ _ => ⟨_,m,loan,w₂.clock,rfl,own₄,writes,rfl⟩⟩

theorem renewLoanRule {loanId : String} (s : Serving seen c (.renewLoan loanId) w) :
    Serves c (.renewLoan loanId) .loanRenewed (LoanService.renewLoan loanId) w := by
  refine lockLoanRule s.fair (fun w₁ r₁ _ => s.early r₁ _) fun w₁ loan r₁ found active held => ?_
  refine wpBind.mpr (nowRule s.fair fun w₂ r₂ => ?_)
  have r₁₂ := s.fair.trans r₁ r₂
  refine refuseRule (fun _ => s.early r₁₂ _) fun inTime => ?_
  refine refuseRule (fun _ => s.early r₁₂ _) fun below => ?_
  refine wpBind.mpr (selectRule fun w₃ r₃ => ?_)
  have r₁₃ := s.fair.trans r₁₂ r₃
  refine refuseRule (fun _ => s.early r₁₃ _) fun unreserved => ?_
  refine wpBind.mpr (storeRule s.fair (fun w₄ d r₄ _ => s.effect _ _ rfl ?_) (fun b w₄ m own _ => ?_)
    fun e w₄ r₄ _ => s.early (s.fair.trans r₁₃ r₄) e)
  · rw [s.still (s.fair.trans r₁₃ r₄)]
    have r₃₄ := s.fair.trans r₃ r₄
    exact .renewLoan rfl (lockedLoan s.fair (s.fair.trans r₂ r₃₄) held found) active
      (s.witnessed w₂ w₄ (fun _ t => t = w₂.clock) r₁₂ r₃₄ rfl) (by omega) (by omega)
      (s.witnessed w₃ w₄
        (fun d _ => ReservationRepository.existsActiveForBook d loan.bookId = false) r₁₃ r₄
        (by simpa using unreserved))
  · exact counted (by rw [own,s.still r₁₃]; rfl) nofun

theorem updateLoanRule {loanId : String} {data : LoanService.UpdateLoanSchema}
    (s : Serving seen c (.updateLoan loanId data) w) :
    Serves c (.updateLoan loanId data) .loan (LoanService.updateLoan loanId data) w := by
  refine findRule (fun w₁ r₁ _ => s.early r₁ _) fun w₁ loan r₁ found => ?_
  refine refuseRule (fun _ => s.early r₁ _) fun active => ?_
  have stored (changed : LoanModel) (checked : (data.dueDate = none ∧ changed = loan) ∨
      ∃ t, data.dueDate = some (.naive t) ∧ loan.loanDate < t ∧ changed = {loan with dueDate := t}) :
      wp c (fun a _ w' => Completed (.updateLoan loanId data) (.loan a) (mine c.client w'.history))
        (fun e w' => Failed c.admits e (mine c.client w'.history)) (do
          let l ← LoanRepository.update loan changed
          LoanService.invalidateLoanCache l.userId l.id
          LoanService.serializeLoan l) [] w₁ := by
    refine wpBind.mpr (storeRule s.fair (fun w₂ d r₂ _ => s.effect _ _ rfl ?_)
      (fun b w₂ m own _ => ?_) fun e w₂ r₂ _ => s.early (s.fair.trans r₁ r₂) e)
    · rw [s.still (s.fair.trans r₁ r₂)]
      exact .updateLoan rfl (s.witnessed w₁ w₂
        (fun d _ => LoanRepository.findById d loanId = some loan) r₁ r₂ found)
        (KeyedTable.Table.findSound found).2
        (Decidable.not_not.mp active) checked
    · rw [s.still r₁] at own
      refine readingThen (invalidateReading s.fair _ _) (fun _ w₃ r₃ => ?_) fun e w₃ _ => .inr
      have own₃ := ownAfter s.fair r₃ own
      exact serializeReading (R := fun _ => False) s.fair _ _ _ _ _
        (fun a v r => counted (by rw [ownAfter s.fair r own₃]; rfl) nofun)
        fun _ _ _ none => none.elim
  cases due : data.dueDate with
  | none => exact stored loan (.inl ⟨due,rfl⟩)
  | some instant =>
    cases instant with
    | naive t =>
      refine wpBind.mpr (refuseRule (fun _ => s.early r₁ _) fun late => ?_)
      exact stored _ (.inr ⟨t,due,by omega,rfl⟩)
    | aware t offset => exact s.early r₁ _

section Catalogue

theorem createBookRule {data : BookService.CreateBookSchema}
    (s : Serving seen c (.createBook data) w) :
    Serves c (.createBook data) .createdBook (BookService.createBook data) w := by
  refine findUniqueRule (fun w₁ e r₁ => s.early r₁ e) fun w₁ r₁ => ?_
  refine refuseRule (fun _ => s.early r₁ _) fun free => ?_
  refine findRule (fun w₂ r₂ _ => s.early (s.fair.trans r₁ r₂) _) fun w₂ author r₂ found => ?_
  have r₁₂ := s.fair.trans r₁ r₂
  refine readingThen (uuidReading s.fair) (fun id w₃ r₃ => ?_) fun _ _ _ none => none.elim
  refine wpBind.mpr (nowRule s.fair fun w₄ r₄ => ?_)
  have r₃₄ := s.fair.trans r₃ r₄
  have r₁₄ := s.fair.trans r₁₂ r₃₄
  refine wpBind.mpr (writeRule s.fair (fun w₅ r₅ _ => ?_)
    fun w₅ e r₅ _ => s.early (s.fair.trans r₁₄ r₅) e)
  refine wpBind.mpr (commitOnce s.fair (fun w₆ d r₆ _ => s.effect _ _ rfl ?_)
    (fun w₆ m own _ => ?_) fun e w₆ r₆ _ => s.early (s.fair.trans r₁₄ (s.fair.trans r₅ r₆)) e)
  · have rest := s.fair.trans r₃₄ (s.fair.trans r₅ r₆)
    rw [s.still (s.fair.trans r₁₂ rest)]
    exact .createBook rfl
      (s.witnessed w₁ w₆ (fun d _ => BookRepository.findByIsbn d data.isbn = []) r₁
        (s.fair.trans r₂ rest) (by simpa using free))
      (s.witnessed w₂ w₆ (fun d _ => AuthorRepository.findById d data.authorId = some author)
        r₁₂ rest found)
  · rw [s.still (s.fair.trans r₁₄ r₅)] at own
    refine wpBind.mpr (selectRule fun w₇ r₇ => ?_)
    refine readingThen (deletePatternReading s.fair _) (fun _ w₈ r₈ => ?_) fun e w₈ _ => .inr
    exact counted (by rw [ownAfter s.fair (s.fair.trans r₇ r₈) own]; rfl) nofun

theorem visibleBook {d : Database} {bookId : String} {row : BookModel × AuthorModel}
    (h : BookRepository.findById d bookId = some row) :
    d.books.find bookId = some row.1 ∧ row.1.isActive = true ∧ row.1.id.text = bookId := by
  simp only [BookRepository.findById,bind,Option.bind_eq_some_iff] at h
  obtain ⟨b,found,a,_,last⟩ := h
  split at last <;> cases last
  rename_i active
  exact ⟨found,(Bool.and_eq_true _ _ ▸ active).1,(KeyedTable.Table.findSound found).2⟩

theorem updateBookRule {bookId : String} {data : BookService.UpdateBookSchema}
    (s : Serving seen c (.updateBook bookId data) w) :
    Serves c (.updateBook bookId data) .book (BookService.updateBook bookId data) w := by
  refine findRule (fun w₁ r₁ _ => s.early r₁ _) fun w₁ row r₁ found => ?_
  refine refuseRule (fun _ => s.early r₁ _) fun enough => ?_
  refine wpBind.mpr (storeRule s.fair (fun w₂ d r₂ _ => s.effect _ _ rfl ?_) (fun b w₂ m own _ => ?_)
    fun e w₂ r₂ _ => s.early (s.fair.trans r₁ r₂) e)
  · rw [s.still (s.fair.trans r₁ r₂)]
    exact .updateBook rfl (s.witnessed w₁ w₂
      (fun d _ => BookRepository.findById d bookId = some row) r₁ r₂ found) (visibleBook found).2.2
      fun n given => by simpa using fun h => enough ⟨n,given,h⟩
  · rw [s.still r₁] at own
    refine readingThen (forgetBookReading s.fair _) (fun _ w₃ r₃ => ?_) fun e w₃ _ => .inr
    exact counted (by rw [ownAfter s.fair r₃ own]; rfl) nofun

theorem deleteBookRule {bookId : String} (s : Serving seen c (.deleteBook bookId) w) :
    Serves c (.deleteBook bookId) (fun _ => .nothing) (BookService.deleteBook bookId) w := by
  refine findRule (fun w₁ r₁ _ => s.early r₁ _) fun w₁ row r₁ found => ?_
  refine wpBind.mpr (wpBind.mpr (writeRule s.fair (fun w₂ r₂ _ => ?_)
    fun w₂ e r₂ _ => s.early (s.fair.trans r₁ r₂) e))
  have r₁₂ := s.fair.trans r₁ r₂
  refine commitOnce s.fair (fun w₃ d r₃ _ => s.effect _ _ rfl ?_) (fun w₃ m own _ => ?_)
    fun e w₃ r₃ _ => s.early (s.fair.trans r₁₂ r₃) e
  · rw [s.still (s.fair.trans r₁₂ r₃)]
    exact .deleteBook rfl (s.witnessed w₁ w₃
      (fun d _ => BookRepository.findById d bookId = some row) r₁ (s.fair.trans r₂ r₃) found)
      (visibleBook found).2.2
  · rw [s.still r₁₂] at own
    exact forgetBookReading s.fair _ _ _ _ _
      (fun _ w₄ r₄ => counted (by rw [ownAfter s.fair r₄ own]; rfl) nofun) fun e w₄ _ => .inr

theorem createAuthorRule {data : AuthorService.CreateAuthorSchema}
    (s : Serving seen c (.createAuthor data) w) :
    Serves c (.createAuthor data) .author (AuthorService.createAuthor data) w := by
  refine readingThen (uuidReading s.fair) (fun id w₁ r₁ => ?_) fun _ _ _ none => none.elim
  refine wpBind.mpr (nowRule s.fair fun w₂ r₂ => ?_)
  have r₁₂ := s.fair.trans r₁ r₂
  refine storeRule s.fair (fun w₃ d r₃ _ => s.effect _ _ rfl ?_)
    (fun b w₃ m own _ => counted (by rw [own,s.still r₁₂]; rfl) nofun)
    fun e w₃ r₃ _ => s.early (s.fair.trans r₁₂ r₃) e
  rw [s.still (s.fair.trans r₁₂ r₃)]
  exact .createAuthor rfl

theorem forgetBooksReading (fair : c.Fair) :
    Reading c (Down c.admits) AuthorService.forgetBooks :=
  readingBind fair (deletePatternReading fair _) fun _ => deletePatternReading fair _

theorem updateAuthorRule {authorId : String} {data : AuthorService.UpdateAuthorSchema}
    (s : Serving seen c (.updateAuthor authorId data) w) :
    Serves c (.updateAuthor authorId data) .author (AuthorService.updateAuthor authorId data) w := by
  refine findRule (fun w₁ r₁ _ => s.early r₁ _) fun w₁ author r₁ found => ?_
  refine wpBind.mpr (storeRule s.fair (fun w₂ d r₂ _ => s.effect _ _ rfl ?_) (fun b w₂ m own _ => ?_)
    fun e w₂ r₂ _ => s.early (s.fair.trans r₁ r₂) e)
  · rw [s.still (s.fair.trans r₁ r₂)]
    exact .updateAuthor rfl (s.witnessed w₁ w₂
      (fun d _ => AuthorRepository.findById d authorId = some author) r₁ r₂ found)
  · rw [s.still r₁] at own
    refine readingThen (forgetBooksReading s.fair) (fun _ w₃ r₃ => ?_) fun e w₃ _ => .inr
    exact counted (by rw [ownAfter s.fair r₃ own]; rfl) nofun

theorem writeAllRule (fair : c.Fair) {xs : List Write} {ok : Unit → List Write → World → Prop}
    {err : ApiError → World → Prop} (good : ∀ w', c.rely w w' → ok () (pending ++ xs) w')
    (bad : ∀ e w', c.rely w w' → err e w') :
    wp c ok err (AuthorRepository.writeAll xs) pending w := by
  induction xs generalizing pending w with
  | nil => exact (List.append_nil pending ▸ good w (laterRefl fair w) : ok () pending w)
  | cons x rest ih =>
    refine wpBind.mpr (writeRule fair (fun w₁ r₁ _ => ih (fun w₂ r₂ => ?_)
      fun e w₂ r₂ => bad e w₂ (fair.trans r₁ r₂)) fun w₁ e r₁ _ => bad e w₁ r₁)
    rw [List.append_assoc]
    exact good w₂ (fair.trans r₁ r₂)

theorem deleteAuthorRule {authorId : String} (s : Serving seen c (.deleteAuthor authorId) w) :
    Serves c (.deleteAuthor authorId) (fun _ => .nothing) (AuthorService.deleteAuthor authorId) w := by
  refine findRule (fun w₁ r₁ _ => s.early r₁ _) fun w₁ row r₁ found => ?_
  refine wpBind.mpr (wpBind.mpr (writeAllRule s.fair (fun w₂ r₂ => ?_)
    fun e w₂ r₂ => s.early (s.fair.trans r₁ r₂) e))
  have r₁₂ := s.fair.trans r₁ r₂
  refine commitOnce s.fair (fun w₃ d r₃ _ => s.effect _ _ rfl ?_) (fun w₃ m own _ => ?_)
    fun e w₃ r₃ _ => s.early (s.fair.trans r₁₂ r₃) e
  · rw [s.still (s.fair.trans r₁₂ r₃)]
    exact .deleteAuthor rfl (s.witnessed w₁ w₃
      (fun d _ => AuthorRepository.findByIdWithBooks d authorId = some row) r₁
      (s.fair.trans r₂ r₃) found)
  · rw [s.still r₁₂] at own
    exact forgetBooksReading s.fair _ _ _ _
      (fun _ w₄ r₄ => counted (by rw [ownAfter s.fair r₄ own]; rfl) nofun) fun e w₄ _ => .inr

end Catalogue

section Accounts

theorem createUserRule {data : UserService.CreateUserSchema} (s : Serving seen c (.createUser data) w) :
    Serves c (.createUser data) .user (UserService.createUser data) w := by
  refine findUniqueRule (fun w₁ e r₁ => s.early r₁ e) fun w₁ r₁ => ?_
  refine refuseRule (fun _ => s.early r₁ _) fun free => ?_
  refine readingThen (hashReading s.fair _) (fun password w₂ r₂ => ?_) fun e _ r₂ _ => s.early (s.fair.trans r₁ r₂) e
  refine readingThen (uuidReading s.fair) (fun id w₃ r₃ => ?_) fun _ _ _ none => none.elim
  refine wpBind.mpr (nowRule s.fair fun w₄ r₄ => ?_)
  have r₂₄ := s.fair.trans r₂ (s.fair.trans r₃ r₄)
  have r₁₄ := s.fair.trans r₁ r₂₄
  refine storeRule s.fair (fun w₅ d r₅ _ => s.effect _ _ rfl ?_)
    (fun b w₅ m own _ => counted (by rw [own,s.still r₁₄]; rfl) nofun)
    fun e w₅ r₅ _ => s.early (s.fair.trans r₁₄ r₅) e
  rw [s.still (s.fair.trans r₁₄ r₅)]
  exact .createUser rfl rfl (s.witnessed w₁ w₅
    (fun d _ => UserRepository.findByEmail d data.email = []) r₁ (s.fair.trans r₂₄ r₅)
    (by simpa using free))

theorem changeUserRule (s : Serving seen c r w) {userId : String} {f : UserModel → UserModel}
    {g : UserModel → Response} (one : commitsOf r = 1) (other : ∀ loanId, r ≠ .payFine loanId)
    (effect : ∀ {seen : Seen} {before user},
      seen (fun d _ => UserRepository.findById d userId = some user) →
      Effect seen [] before r [.updateUser user (f user)]) :
    Serves c r g (do
      let user ← UserService.getById userId
      UserRepository.update user (f user)) w := by
  refine wpBind.mpr (wpBind.mpr (selectRule fun w₁ r₁ => ?_))
  rw [viewNil]
  cases found : UserRepository.findById w₁.db userId with
  | none => exact s.early r₁ _
  | some user =>
    show wp c _ _ (UserRepository.update user (f user)) [] w₁
    refine storeRule s.fair (fun w₂ d r₂ _ => s.effect _ _ rfl ?_)
      (fun b w₂ m own _ => ?_) fun e w₂ r₂ _ => s.early (s.fair.trans r₁ r₂) e
    · rw [s.still (s.fair.trans r₁ r₂)]
      exact effect (s.witnessed w₁ w₂ (fun d _ => UserRepository.findById d userId = some user)
        r₁ r₂ found)
    · exact counted (by rw [own,s.still r₁,one]; rfl) other

theorem updateUserRule {userId : String} {name : Option String}
    (s : Serving seen c (.updateUser userId name) w) :
    Serves c (.updateUser userId name) .user (UserService.updateUser userId name) w :=
  changeUserRule s rfl nofun (.updateUser rfl)

theorem updateRoleRule {userId : String} {role : UserRole}
    (s : Serving seen c (.updateRole userId role) w) :
    Serves c (.updateRole userId role) .user (UserService.updateRole userId role) w :=
  changeUserRule s rfl nofun (.updateRole rfl)

theorem deleteUserRule {userId : String} (s : Serving seen c (.deleteUser userId) w) :
    Serves c (.deleteUser userId) (fun _ => .nothing) (UserService.deleteUser userId) w := by
  have changed := changeUserRule (f := fun user => {user with isActive := false})
    (g := fun _ => .nothing) s rfl nofun (.deleteUser rfl)
  exact wpBind.mpr (wpMono (fun _ _ _ h => wpBind.mpr h) (fun _ _ h => h) (wpBind.mp changed))

end Accounts

section Reservations

theorem refreshedReservation (d : Database) (row : ReservationModel) {x : ReservationModel}
    (same : x.id = row.id) : ((d.reservations.find row.id.text).getD x).id = row.id := by
  cases found : d.reservations.find row.id.text with
  | none => exact same
  | some stored => exact uuidExt (KeyedTable.Table.findSound found).2

theorem createReservationRule {bookId userId : String}
    (s : Serving seen c (.createReservation bookId userId) w) :
    Serves c (.createReservation bookId userId) .reservation
      (ReservationService.createReservation bookId userId) w := by
  refine findRule (fun w₁ r₁ _ => s.early r₁ _) fun w₁ user r₁ reader => ?_
  refine findRule (fun w₂ r₂ _ => s.early (s.fair.trans r₁ r₂) _) fun w₂ row r₂ visible => ?_
  have r₁₂ := s.fair.trans r₁ r₂
  refine refuseRule (fun _ => s.early r₁₂ _) fun exhausted => ?_
  refine findUniqueRule (fun w₃ e r₃ => s.early (s.fair.trans r₁₂ r₃) e) fun w₃ r₃ => ?_
  have r₁₃ := s.fair.trans r₁₂ r₃
  refine refuseRule (fun _ => s.early r₁₃ _) fun single => ?_
  refine readingThen (uuidReading s.fair) (fun id w₄ r₄ => ?_) fun _ _ _ none => none.elim
  refine wpBind.mpr (nowRule s.fair fun w₅ r₅ => ?_)
  have r₃₅ := s.fair.trans r₄ r₅
  have r₁₅ := s.fair.trans r₁₃ r₃₅
  refine wpBind.mpr (writeRule s.fair (fun w₆ r₆ _ => ?_)
    fun w₆ e r₆ _ => s.early (s.fair.trans r₁₅ r₆) e)
  have r₁₆ := s.fair.trans r₁₅ r₆
  refine wpBind.mpr (commitOnce s.fair (fun w₇ d r₇ _ => s.effect _ _ rfl ?_)
    (fun w₇ m own writes => ?_) fun e w₇ r₇ _ => s.early (s.fair.trans r₁₆ r₇) e)
  · rw [s.still (s.fair.trans r₁₆ r₇)]
    have r₃₇ := s.fair.trans r₃₅ (s.fair.trans r₆ r₇)
    exact .createReservation rfl
      (s.witnessed w₁ w₇ (fun d _ => UserRepository.findById d userId = some user) r₁
        (s.fair.trans r₂ (s.fair.trans r₃ r₃₇)) reader)
      (s.witnessed w₂ w₇ (fun d _ => BookRepository.findById d bookId = some row) r₁₂
        (s.fair.trans r₃ r₃₇) visible) (by omega)
      (s.witnessed w₃ w₇
        (fun d _ => ReservationRepository.findActiveByUserAndBook d userId bookId = []) r₁₃ r₃₇
        (by simpa using single))
  · rw [s.still r₁₆] at own
    refine wpBind.mpr (selectRule fun w₈ r₈ => wpBind.mpr (nowRule s.fair fun w₉ r₉ => ?_))
    refine wpBind.mpr (announceRule s (ownAfter s.fair (s.fair.trans r₈ r₉) own)
      (fun note tells => ?_) fun w' n own' => counted (by rw [own']; rfl) nofun)
    rw [writes]
    refine ⟨_,rfl,tells.1,?_⟩
    rw [tells.2]
    exact congrArg _ (refreshedReservation _ (ReservationService.newReservation id user row.1 w₅.clock) rfl)

theorem cancelLoadedRule {reservationId : String} {row : ReservationModel}
    (s : Serving seen c (.cancelReservation reservationId) w) (id : row.id.text = reservationId)
    (read : ∀ w', c.rely w w' →
      seen w'.history w'.clock fun d _ => ReservationRepository.findById d reservationId = some row) :
    Serves c (.cancelReservation reservationId) .reservationCancelled (ReservationService.cancelLoaded row) w := by
  refine refuseRule (fun _ => .inl s.idle) fun active => ?_
  refine wpBind.mpr (nowRule s.fair fun w₁ r₁ => ?_)
  refine wpBind.mpr (wpBind.mpr (writeRule s.fair (fun w₂ r₂ _ => ?_)
    fun w₂ e r₂ _ => s.early (s.fair.trans r₁ r₂) e))
  have r₁₂ := s.fair.trans r₁ r₂
  refine wpBind.mpr (commitOnce s.fair (fun w₃ d r₃ _ => s.effect _ _ rfl ?_)
    (fun w₃ m own writes => ?_) fun e w₃ r₃ _ => s.early (s.fair.trans r₁₂ r₃) e)
  · rw [s.still (s.fair.trans r₁₂ r₃)]
    exact .cancelReservation rfl (read w₃ (s.fair.trans r₁₂ r₃)) id (Decidable.not_not.mp active)
      (s.witnessed w₁ w₃ (fun _ t => t = w₁.clock) r₁ (s.fair.trans r₂ r₃) rfl)
  · rw [s.still r₁₂] at own
    refine selectRule fun w₄ r₄ => wpBind.mpr (nowRule s.fair fun w₅ r₅ => ?_)
    refine wpBind.mpr (announceRule s (ownAfter s.fair (s.fair.trans r₄ r₅) own)
      (fun note tells => ?_) fun w' n own' => counted (by rw [own']; rfl) nofun)
    rw [writes]
    refine ⟨row,_,rfl,tells.1,?_⟩
    rw [tells.2]
    exact congrArg _ (refreshedReservation _ row rfl)

theorem heldReservationRule {reservationId : String} {row : ReservationModel}
    (s : Serving seen c (.cancelReservation reservationId) w) {w₁ : World} (r₁ : c.rely w w₁)
    (found : ReservationRepository.findById w₁.db reservationId = some row) :
    Serves c (.cancelReservation reservationId) .reservationCancelled (do
      let _ ← ReservationService.getReservation reservationId
      ReservationService.cancelLoaded row) w₁ := by
  refine findRule (fun w₂ r₂ _ => s.early (s.fair.trans r₁ r₂) _) fun w₂ _ r₂ _ => ?_
  refine cancelLoadedRule (servingLater s (s.fair.trans r₁ r₂)) (KeyedTable.Table.findSound found).2 fun w₃ r₃ => ?_
  exact s.witnessed w₁ w₃ (fun d _ => ReservationRepository.findById d reservationId = some row) r₁
    (s.fair.trans r₂ r₃) found

theorem cancelReservationRule {reservationId : String}
    (s : Serving seen c (.cancelReservation reservationId) w) :
    Serves c (.cancelReservation reservationId) .reservationCancelled
      (ReservationService.cancelReservation reservationId) w := by
  refine findRule (fun w₁ r₁ _ => s.early r₁ _) fun w₁ row r₁ found => ?_
  exact cancelLoadedRule (servingLater s r₁) (KeyedTable.Table.findSound found).2 fun w₂ r₂ =>
    s.witnessed w₁ w₂ (fun d _ => ReservationRepository.findById d reservationId = some row) r₁ r₂ found

end Reservations

section Reads

theorem anyRedis (fair : c.Fair) {act : Cache → α × Cache} :
    Reading c (fun _ => True) (redis act) :=
  readingCall fair fun _ _ _ _ _ => trivial

theorem requireReading (fair : c.Fair) (e : ApiError) (row : Option α) :
    Reading c (fun _ => True) (require e row) := by
  cases row with
  | none => exact readingRaise fair trivial
  | some row => exact readingPure fair row

theorem getBookReading (fair : c.Fair) (bookId : String) :
    Reading c (fun _ => True) (BookService.getBook bookId) := by
  refine readingBind fair (anyRedis fair) fun cached => ?_
  cases cached with
  | some view => exact readingPure fair view
  | none =>
    exact readingBind fair (readingSelect _) fun row =>
      readingBind fair (requireReading fair _ row) fun _ =>
      readingBind fair (anyRedis fair) fun _ => readingPure fair _

theorem listBooksReading (fair : c.Fair) (p : Pagination) (f : BookRepository.Filters) :
    Reading c (fun _ => True) (BookService.listBooksPaginated p f) := by
  refine readingBind fair (anyRedis fair) fun cached => ?_
  cases cached with
  | some view => exact readingPure fair view
  | none =>
    have listed : Reading c (fun _ => True) (BookRepository.listBooksPaginated p f) :=
      readingBind fair (readingCall fair fun _ _ _ _ _ => trivial) fun _ =>
      readingBind fair (readingCall fair fun _ _ _ _ _ => trivial) fun _ =>
      readingBind fair (readingSelect _) fun _ => readingBind fair (readingSelect _) fun _ =>
      readingPure fair _
    exact readingBind fair listed fun _ => readingBind fair (anyRedis fair) fun _ => readingPure fair _

theorem getLoanReading (fair : c.Fair) (loanId : String) :
    Reading c (fun _ => True) (LoanService.getLoan loanId) := by
  refine readingBind fair (anyRedis fair) fun cached => ?_
  cases cached with
  | some view => exact readingPure fair view
  | none =>
    exact readingBind fair (readingSelect _) fun row =>
      readingBind fair (requireReading fair _ row) fun loan =>
      readingBind fair (serializeReading fair loan) fun _ =>
      readingBind fair (anyRedis fair) fun _ => readingPure fair _

theorem listedReading (fair : c.Fair) (p : Pagination) (f : LoanRepository.Filters) :
    Reading c (fun _ => True) (LoanRepository.listPaginated p f) :=
  readingBind fair (readingNow fair) fun _ =>
  readingBind fair (readingCall fair fun _ _ _ _ _ => trivial) fun _ =>
  readingBind fair (readingSelect _) fun _ => readingBind fair (readingSelect _) fun _ =>
  readingPure fair _

theorem listLoansReading (fair : c.Fair) (p : Pagination) (f : LoanRepository.Filters) :
    Reading c (fun _ => True) (LoanService.listPaginated p f) := by
  refine readingBind fair (anyRedis fair) fun cached => ?_
  cases cached with
  | some view => exact readingPure fair view
  | none =>
    exact readingBind fair (listedReading fair p f) fun listed =>
      readingBind fair (serializeAllReading fair listed.1) fun _ =>
      readingBind fair (anyRedis fair) fun _ => readingPure fair _

theorem listLoansByUserReading (fair : c.Fair) (userId : String) (p : Pagination)
    (status : Option LoanStatus) :
    Reading c (fun _ => True) (LoanService.listByUserPaginated userId p status) := by
  refine readingBind fair (anyRedis fair) fun cached => ?_
  cases cached with
  | some view => exact readingPure fair view
  | none =>
    exact readingBind fair (readingSelect _) fun row =>
      readingBind fair (requireReading fair _ row) fun _ =>
      readingBind fair (listedReading fair p _) fun listed =>
      readingBind fair (serializeAllReading fair listed.1) fun _ =>
      readingBind fair (anyRedis fair) fun _ => readingPure fair _

theorem readRule (s : Serving seen c r w) {respond : α → Response} {p : Service α}
    (none : commitsOf r = 0) (other : ∀ loanId, r ≠ .payFine loanId)
    (reading : Reading c (fun _ => True) p) : Serves c r respond p w :=
  reading _ _ _ _ (fun _ _ later => counted (by rw [s.still later,none]; rfl) other)
    fun e _ later _ => s.early later e

end Reads

theorem answered {respond : α → Response} {p : Service α} (h : Serves c r respond p w) :
    Serves c r id (answer respond p) w := wpBind.mpr h

theorem handleRule (s : Serving seen c r w) : Serves c r id (handle r) w := by
  cases r with
  | createBook data => exact answered (createBookRule s)
  | updateBook bookId data => exact answered (updateBookRule s)
  | deleteBook bookId => exact answered (deleteBookRule s)
  | getBook bookId => exact answered (readRule s rfl nofun (getBookReading s.fair bookId))
  | listBooks page filters =>
    exact answered (readRule s rfl nofun (listBooksReading s.fair page filters))
  | createAuthor data => exact answered (createAuthorRule s)
  | updateAuthor authorId data => exact answered (updateAuthorRule s)
  | deleteAuthor authorId => exact answered (deleteAuthorRule s)
  | createUser data => exact answered (createUserRule s)
  | updateUser userId name => exact answered (updateUserRule s)
  | updateRole userId role => exact answered (updateRoleRule s)
  | deleteUser userId => exact answered (deleteUserRule s)
  | createReservation bookId userId => exact answered (createReservationRule s)
  | cancelReservation reservationId => exact answered (cancelReservationRule s)
  | createLoan data => exact answered (createLoanRule s)
  | returnLoan loanId => exact answered (returnLoanRule s)
  | cancelLoan loanId => exact answered (cancelLoanRule s)
  | renewLoan loanId => exact answered (renewLoanRule s)
  | payFine loanId => exact answered (payFineRule s)
  | updateLoan loanId data => exact answered (updateLoanRule s)
  | getLoan loanId => exact answered (readRule s rfl nofun (getLoanReading s.fair loanId))
  | listLoans page filters =>
    exact answered (readRule s rfl nofun (listLoansReading s.fair page filters))
  | listLoansByUser userId page status =>
    exact answered (readRule s rfl nofun (listLoansByUserReading s.fair userId page status))

end Serving
end LibraryApi.ServiceRules
