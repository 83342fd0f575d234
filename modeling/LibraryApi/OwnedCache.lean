import LibraryApi.OwnerRules

/-! Every session keeps the cache owned, whoever asks: only the reads of loans file an
entry that shows loans, and they file what they have read. -/
namespace LibraryApi.OwnedCache
open Models CacheService Requests CacheRules Controllers Sessions OwnerRules
open Program (Duty upholds upholdsBind)

section Others
variable {I : Database → Prop} {last : Database} {α β : Type} {pending : List Write}

abbrev Free (I : Database → Prop) (last : Database) (p : Service α) (pending : List Write) : Prop :=
  upholds I (Owned last) ⟨fun _ => True,fun _ => True⟩ (fun _ _ => True) (fun _ => True) p pending

theorem filedOwned {r : Request} {e : String × Payload} (other : readsLoans r = false) (filed : filedBy r e) :
    Entry last e := by
  cases r with
  | getBook k =>
    obtain ⟨key,view,same⟩ := filed
    refine otherEntry (by rw [same]; rfl) fun item => ?_
    have head := bookKind k
    rw [← key,item] at head
    exact absurd head (by decide)
  | listBooks p f =>
    obtain ⟨key,books,same⟩ := filed
    refine otherEntry (by rw [same]; rfl) fun item => ?_
    rw [key,booksKind] at item
    exact absurd item (by decide)
  | getLoan => contradiction
  | listLoans => contradiction
  | listLoansByUser => contradiction
  | _ => exact filed.elim

theorem callsFree {P : String × Payload → Prop} {p : Service α} (owned : ∀ e, P e → Entry last e)
    (h : Program.Calls (Files P) p) : Free I last p pending := by
  refine Program.upholdsCalls (fun _ => trivial) (fun x x' files old e mem => ?_) h
  rcases files e mem with before | new
  · exact old e before
  · exact owned e new

variable (placed : ∀ d, I d → Placed d last)
include placed

theorem requestFree (r : Request) : Free I last (handle r) [] := by
  have answered {p : Service Payload} {respond : Payload → Response} (h : Free I last p []) :
      Free I last (answer respond p) [] :=
    upholdsBind.mpr (Program.upholdsMono (fun _ h => h) (fun _ _ _ => trivial) (fun _ h => h) h)
  have any : Bears ⟨fun _ => True,fun _ => True⟩ fun _ => True := fun _ _ _ => trivial
  cases reads : readsLoans r with
  | false => exact callsFree (fun e => filedOwned reads) (handleFiles r)
  | true =>
    cases r with
    | getLoan => exact answered (getLoanRule placed any (fun _ _ _ => trivial) fun _ _ _ => trivial)
    | listLoans => exact answered (listLoansRule placed any fun _ _ => trivial)
    | listLoansByUser => exact answered (listByUserRule placed any (fun _ _ _ => trivial) fun _ _ => trivial)
    | _ => contradiction

omit placed in
theorem anyUserRule {token : Token} {f : UserModel → Service α} {duty : Duty Write Answer}
    {ok : α → List Write → Prop} {err : ApiError → Prop} (any : ∀ e, err e)
    (here : ∀ row, upholds I (Owned last) duty ok err (f row) []) :
    upholds I (Owned last) duty ok err (getCurrentUser token >>= f) [] := by
  cases token with
  | expired => exact any _
  | invalid => exact any _
  | payload sub role =>
    exact upholdsBind.mpr fun d _ => upholdsBind.mp (requireRule (fun _ => any _) fun row _ => here row)

omit placed in
theorem adminOnlyFree {token : Token} {proceed : Service α} (here : Free I last proceed []) :
    Free I last (LoanController.adminOnly proceed token) [] :=
  upholdsBind.mpr (anyUserRule (fun _ => trivial) fun _ => refuseRule (fun _ => trivial) fun _ => here)

theorem ownLoanFree {token : Token} {message k : String} {proceed : String → Service α}
    (here : Free I last (proceed k) []) : Free I last (LoanController.ownLoan message proceed k token) [] := by
  refine anyUserRule (fun _ => trivial) fun user => upholdsBind.mpr ?_
  refine getLoanRule placed (fun _ _ _ => trivial) (fun _ _ _ => trivial) fun v _ _ => ?_
  exact refuseRule (fun _ => trivial) fun _ => here

omit placed in
theorem ownReservationFree {token : Token} {message k : String} {proceed : ReservationModel → Service α}
    (here : ∀ row, Free I last (proceed row) []) :
    Free I last (ReservationController.ownReservation message proceed k token) [] :=
  anyUserRule (fun _ => trivial) fun _ _ _ =>
    requireRule (fun _ => trivial) fun row _ => refuseRule (fun _ => trivial) fun _ => here row

omit placed in
theorem partFree {r : Request} {respond : α → Response} {p : Service α} (same : handle r = answer respond p)
    (other : readsLoans r = false) : Free I last p [] := by
  have whole := handleFiles r
  rw [same] at whole
  exact callsFree (fun e => filedOwned other) (Program.callsLeft whole)

theorem endpointFree (e : Endpoint) (token : Token) : Free I last (e.serve token) [] := by
  have responded {α : Type} {reply : α → Reply} {p : Service α} (h : Free I last p []) :
      Free I last (respond reply p) [] :=
    upholdsBind.mpr (Program.upholdsMono (fun _ h => h) (fun _ _ _ => trivial) (fun _ h => h) h)
  have any : Bears ⟨fun _ => True,fun _ => True⟩ fun _ => True := fun _ _ _ => trivial
  cases e with
  | listLoans => exact responded (adminOnlyFree (listLoansRule placed any fun _ _ => trivial))
  | listActiveLoans => exact responded (adminOnlyFree (listLoansRule placed any fun _ _ => trivial))
  | listOverdueLoans => exact responded (adminOnlyFree (listLoansRule placed any fun _ _ => trivial))
  | listLoansByUser =>
    refine responded (anyUserRule (fun _ => trivial) fun _ => refuseRule (fun _ => trivial) fun _ => ?_)
    exact listByUserRule placed any (fun _ _ _ => trivial) fun _ _ => trivial
  | updateLoan loanId data =>
    exact responded (adminOnlyFree (partFree (r := .updateLoan loanId data) rfl rfl))
  | createLoan data =>
    exact responded (adminOnlyFree (partFree (r := .createLoan data) rfl rfl))
  | cancelLoan k => exact responded (ownLoanFree placed (partFree (r := .cancelLoan k) rfl rfl))
  | payLoanFine k => exact responded (ownLoanFree placed (partFree (r := .payFine k) rfl rfl))
  | returnLoan k => exact responded (ownLoanFree placed (partFree (r := .returnLoan k) rfl rfl))
  | renewLoan k => exact responded (ownLoanFree placed (partFree (r := .renewLoan k) rfl rfl))
  | getLoan k =>
    exact responded (ownLoanFree placed (getLoanRule placed any (fun _ _ _ => trivial) fun _ _ _ => trivial))
  | listReservations p f =>
    refine responded (anyUserRule (fun _ => trivial) fun _ => refuseRule (fun _ => trivial) fun _ => ?_)
    exact fun a _ x owned => ⟨owned,fun _ _ _ _ => trivial⟩
  | getReservation => exact responded (ownReservationFree fun _ => trivial)
  | cancelReservation k =>
    exact responded (ownReservationFree fun _ => callsFree (fun _ => False.elim) heldReservationFiles)

theorem callFree (call : Call) : Free I last call.serve [] := by
  cases call with
  | request r =>
    exact upholdsBind.mpr (Program.upholdsMono (fun _ h => h) (fun _ _ _ => trivial) (fun _ h => h) (requestFree placed r))
  | endpoint e token => exact endpointFree placed e token

end Others
end LibraryApi.OwnedCache
