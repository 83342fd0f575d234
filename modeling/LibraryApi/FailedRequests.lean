import LibraryApi.Runs
import LibraryApi.ServiceExits

/-! What a failed request leaves behind. Everything a writing operation can object to
comes before its one commit; the cache calls come after it and are not guarded, so a
failing one reports an error for a change that has been made. -/
namespace LibraryApi.FailedRequests
open Models CacheService Repositories Requests Effects Runs ServiceExits
open Program (Raises execAll seenLast aloneRaises)

def invalidates : Request → Bool
  | .createBook _ => true
  | .updateBook _ _ => true
  | .deleteBook _ => true
  | .updateAuthor _ _ => true
  | .deleteAuthor _ => true
  | .createLoan _ => true
  | .returnLoan _ => true
  | .cancelLoan _ => true
  | .payFine _ => true
  | .updateLoan _ _ => true
  | _ => false

def Exits (n : Nat) (e : ApiError) : Prop := if e = .redisError then n = 1 else n = 0

@[simp] theorem exitsBefore {e : ApiError} : Exits 0 e ↔ e ≠ .redisError := by
  unfold Exits; split <;> simp [*]

@[simp] theorem exitsAfter {e : ApiError} : Exits 1 e ↔ e = .redisError := by
  unfold Exits; split <;> simp [*]

theorem handleExits {r : Request} (writes : invalidates r = true) : Raises Exits 0 [] (handle r) := by
  unfold handle answer
  cases r with
  | createBook data =>
    simp only [BookService.createBook,Program.bindBind,Program.raisesSelect]
    refine fun rows => raisesScalar (by simp) fun existing => ?_
    simp
  | updateBook bookId data => simp [BookService.updateBook,BookRepository.update,BookService.forgetBook]
  | deleteBook bookId => simp [BookService.deleteBook,BookRepository.softDelete,BookService.forgetBook]
  | updateAuthor authorId data =>
    simp [AuthorService.updateAuthor,AuthorRepository.update,AuthorService.forgetBooks]
  | deleteAuthor authorId =>
    simp [AuthorService.deleteAuthor,AuthorRepository.softDelete,AuthorService.forgetBooks,raisesWriteAll]
  | createLoan data =>
    simp [LoanService.createLoan,LoanRepository.getBookForUpdate,LoanRepository.refresh,
      BookService.forgetBook,LoanService.invalidateLoanCache,raisesSerialize,raisesPublish]
  | returnLoan loanId =>
    simp [LoanService.returnLoan,LoanRepository.findActiveByIdForUpdate,LoanRepository.getBookForUpdate,
      LoanRepository.refresh,BookService.forgetBook,LoanService.invalidateLoanCache,raisesPublish]
  | cancelLoan loanId =>
    simp [LoanService.cancelLoan,LoanRepository.findActiveByIdForUpdate,LoanRepository.getBookForUpdate,
      LoanRepository.refresh,BookService.forgetBook,LoanService.invalidateLoanCache,raisesPublish]
  | payFine loanId =>
    simp [LoanService.payFine,LoanRepository.findActiveByIdForUpdate,LoanRepository.update,
      LoanRepository.refresh,LoanService.invalidateLoanCache]
  | updateLoan loanId data =>
    simp [LoanService.updateLoan,LoanRepository.update,LoanRepository.refresh,
      LoanService.invalidateLoanCache,raisesDueDate,raisesSerialize]
  | _ => contradiction

variable {d : Database} {x : Cache} {t : Int} {r : Request} {env : Oracle} {e : ApiError}

theorem settledReached (d : Database) (x : Cache) (t : Int) (r : Request) : Reached (fun _ => some r) d t 0 (settled d x t) :=
  ⟨.start,⟨rfl,Int.le_refl t⟩,nofun⟩

theorem failedCommits (writes : invalidates r = true) (failed : (serve 0 r (settled d x t) env).1 = .error e) :
    Exits (serve 0 r (settled d x t) env).2.history.length e := by
  obtain ⟨k,exits,counted⟩ := aloneRaises (handleExits writes) (Prod.ext failed rfl)
  have none : (settled d x t).history.length = 0 := rfl
  rw [none,Nat.zero_add,Nat.add_zero] at counted
  exact counted ▸ exits

theorem historyOwn : Program.mine 0 (serve 0 r (settled d x t) env).2.history =
    (serve 0 r (settled d x t) env).2.history := by
  obtain ⟨later,grown,_,own⟩ := (serveAny (settledReached d x t r) rfl env).2.own
  rw [own,grown]
  exact (List.append_nil later).symm

theorem upNotDown (up : ∀ n, (env n).answer.redisUp = true)
    (failed : (serve 0 r (settled d x t) env).1 = .error e) :
    (serve 0 r (settled d x t) env).2.history = [] := by
  have ended := (serveReached (A := fun a => a.redisUp = true) (settledReached d x t r) rfl up).2.ended
  rw [failed] at ended
  rcases ended with nothing | ⟨_,a,admitted,down⟩
  · exact historyOwn.symm.trans nothing
  · rw [admitted] at down; contradiction

theorem nothingStored (none : (serve 0 r (settled d x t) env).2.history = []) :
    (serve 0 r (settled d x t) env).2.db = d := by
  have root := (serveAny (settledReached d x t r) rfl env).1.root
  rw [root.db,none]; rfl

/-- An operation that fails for any reason but Redis leaves the database as it was.
One whose cache call fails has made its change, all of it, and announced nothing. -/
theorem failureLeaves (d : Database) (x : Cache) (t : Int) (r : Request) (env : Oracle) (e : ApiError)
    (writes : invalidates r = true) (failed : (serve 0 r (settled d x t) env).1 = .error e) :
    let w := (serve 0 r (settled d x t) env).2
    (e ≠ .redisError → w.db = d) ∧ ((∀ n, (env n).answer.redisUp = true) → w.db = d) ∧
      (e = .redisError → ∃ main, w.history = [main] ∧
        Effect (seenLast d t ([] : Log) main.clock) [] d r main.writes ∧ execAll main.writes d = .ok w.db) := by
  intro w
  have exits : Exits w.history.length e := failedCommits writes failed
  refine ⟨fun other => ?_,fun up => nothingStored (upNotDown up failed),fun down => ?_⟩
  · unfold Exits at exits
    rw [if_neg other] at exits
    exact nothingStored (List.length_eq_zero_iff.mp exits)
  · unfold Exits at exits
    rw [if_pos down] at exits
    obtain ⟨main,one⟩ := List.length_eq_one_iff.mp exits
    have own : Program.mine 0 w.history = [main] := historyOwn.trans one
    obtain ⟨_,_,_,effect,ran⟩ := servedOnce (settledReached d x t r) rfl own
    exact ⟨main,one,effect,ran⟩

def offline (n : Nat) : Program.Env Answer := {tick n with answer := {(tick n).answer with redisUp := false}}

def lending : Request := .createLoan ⟨(sampleId 2).text,(sampleId 3).text⟩

theorem lendingFails : (serve 0 lending (settled (sampleShelf 1) [] 0) fun _ => offline 4).1 =
      .error .redisError ∧
    ∃ main, (serve 0 lending (settled (sampleShelf 1) [] 0) fun _ => offline 4).2.history = [main] := by
  have failed : (serve 0 lending (settled (sampleShelf 1) [] 0) fun _ => offline 4).1 =
      .error .redisError := by decide +kernel
  obtain ⟨main,one,_⟩ := (failureLeaves (sampleShelf 1) [] 0 lending (fun _ => offline 4) .redisError rfl
    failed).2.2 rfl
  exact ⟨failed,main,one⟩

theorem lentThoughRefused : let done := serve 0 lending (settled (sampleShelf 1) [] 0) fun _ => offline 4
    done.1 = .error .redisError ∧ done.2.db.loans.rows.length = 1 ∧
      (done.2.db.books.find (sampleId 3).text).map (·.availableCopies) = some 0 ∧
      done.2.db ≠ sampleShelf 1 := by
  refine ⟨by decide +kernel,by decide +kernel,by decide +kernel,fun same => ?_⟩
  have lent : (serve 0 lending (settled (sampleShelf 1) [] 0) fun _ => offline 4).2.db.loans.rows.length
      = 1 := by decide +kernel
  rw [same] at lent
  contradiction

end LibraryApi.FailedRequests
