import LibraryApi.Models

/-! The database as a backend for programs: which row each statement locks, and
that a statement leaves every other row as it was. The inversion lemmas say what
a successful statement did, one per kind of statement. -/
namespace LibraryApi.Database
open Models
open KeyedTable (Table)
open Program (Backend execAll)

def Same : RowKey → Database → Database → Prop
  | .user id,d,d' => ∀ r, d.users.find id.text = some r → d'.users.find id.text = some r
  | .author id,d,d' => ∀ r, d.authors.find id.text = some r → d'.authors.find id.text = some r
  | .book id,d,d' => ∀ r, d.books.find id.text = some r → d'.books.find id.text = some r
  | .loan id,d,d' => ∀ r, d.loans.find id.text = some r → d'.loans.find id.text = some r
  | .reservation id,d,d' =>
      ∀ r, d.reservations.find id.text = some r → d'.reservations.find id.text = some r

theorem sameRefl (κ : RowKey) (d : Database) : Same κ d d := by
  cases κ <;> exact fun _ h => h

theorem sameTrans {κ : RowKey} {a b c : Database} (left : Same κ a b) (right : Same κ b c) :
    Same κ a c := by
  cases κ <;> exact fun r h => right r (left r h)

section Keeps
variable {ρ : Type} {key : ρ → String}

theorem insertedRow {t t' : Table key} {row : ρ} (h : inserted t row = .ok t') :
    t.insert row = some t' := by
  unfold inserted at h
  split at h <;> cases h
  assumption

theorem insertedInto {t : Table key} {row : ρ} {mk : Table key → Database} {d' : Database}
    (h : (do return mk (← inserted t row)) = (.ok d' : Except ApiError Database)) :
    ∃ t', t.insert row = some t' ∧ d' = mk t' := by
  cases ran : inserted t row with
  | error e => simp [ran,bind,Except.bind] at h
  | ok t' =>
    simp only [ran,bind,Except.bind,pure,Except.pure,Except.ok.injEq] at h
    exact ⟨t',insertedRow ran,h.symm⟩

theorem insertKeeps {t t' : Table key} {row : ρ} (ran : t.insert row = some t') {k r}
    (found : t.find k = some r) : t'.find k = some r := by
  rw [Table.findInsert ran,if_neg]
  · exact found
  · rintro rfl
    rw [(Table.insertRows ran).2] at found
    contradiction

theorem modifyKeeps {t : Table key} {k : String} (f : ρ → ρ) (keep : ∀ r, key (f r) = key r)
    {k' : String} {r : ρ} (untouched : k' = k → f r = r) (found : t.find k' = some r) :
    (t.modify k f keep).find k' = some r := by
  rw [Table.findModify]
  split
  · rename_i same; rw [found,Option.map_some,untouched same]
  · exact found

end Keeps

theorem userUnchanged (l s : UserModel) : l.flush l s = s := by simp [UserModel.flush]
theorem authorUnchanged (l s : AuthorModel) : l.flush l s = s := by simp [AuthorModel.flush]
theorem bookUnchanged (l s : BookModel) : l.flush l s = s := by simp [BookModel.flush]
theorem loanUnchanged (l s : LoanModel) : l.flush l s = s := by simp [LoanModel.flush]
theorem reservationUnchanged (l s : ReservationModel) : l.flush l s = s := by
  simp [ReservationModel.flush]

theorem unlockedUpdate {ρ : Type} [DecidableEq ρ] {loaded current : ρ} {flush : ρ → ρ → ρ → ρ}
    {mk : Uuid → RowKey} {id target : Uuid} (same : ∀ s, flush loaded loaded s = s)
    (outside : mk id ∉ if current = loaded then [] else [mk target]) {r : ρ} :
    id.text = target.text → flush loaded current r = r := by
  intro text
  split at outside
  · rename_i h; rw [h]; exact same r
  · exact absurd (by rw [uuidExt text]; exact List.mem_singleton_self _) outside

theorem fittingRan {x : Write} {d d' : Database} (h : x.exec d = .ok d') : x.fits = true ∧ x.run d = .ok d' := by
  unfold Write.exec at h
  split at h
  · rename_i fits
    exact ⟨fits,h⟩
  · contradiction

theorem insertUserRan {row : UserModel} {d d' : Database}
    (h : (Write.insertUser row).exec d = .ok d') :
    (∀ r ∈ d.users.rows, r.email ≠ row.email) ∧
      ∃ t, d.users.insert row = some t ∧ d' = {d with users := t} := by
  replace h := (fittingRan h).2
  simp only [Write.run] at h
  split at h <;> try contradiction
  rename_i free
  exact ⟨by simpa using free,insertedInto h⟩

theorem insertAuthorRan {row : AuthorModel} {d d' : Database}
    (h : (Write.insertAuthor row).exec d = .ok d') :
    ∃ t, d.authors.insert row = some t ∧ d' = {d with authors := t} := insertedInto (fittingRan h).2

theorem insertBookRan {row : BookModel} {d d' : Database}
    (h : (Write.insertBook row).exec d = .ok d') :
    (∀ r ∈ d.books.rows, r.isbn ≠ row.isbn) ∧
      ∃ t, d.books.insert row = some t ∧ d' = {d with books := t} := by
  replace h := (fittingRan h).2
  simp only [Write.run] at h
  split at h <;> try contradiction
  rename_i free
  exact ⟨by simpa using free,insertedInto h⟩

theorem insertLoanRan {row : LoanModel} {d d' : Database}
    (h : (Write.insertLoan row).exec d = .ok d') :
    ∃ t, d.loans.insert row = some t ∧ d' = {d with loans := t} := insertedInto h

theorem insertReservationRan {row : ReservationModel} {d d' : Database}
    (h : (Write.insertReservation row).exec d = .ok d') :
    ∃ t, d.reservations.insert row = some t ∧ d' = {d with reservations := t} := insertedInto h

theorem updateBookRuns {l c : BookModel} (fits : (Write.updateBook l c).fits = true) (d : Database) :
    (Write.updateBook l c).exec d = .ok {d with books := d.books.modify l.id.text (l.flush c) fun _ => rfl} := if_pos fits

theorem updateUserRan {l c : UserModel} {d d' : Database} (h : (Write.updateUser l c).exec d = .ok d') :
    d' = {d with users := d.users.modify l.id.text (l.flush c) fun _ => rfl} := (Except.ok.inj (fittingRan h).2).symm

theorem updateAuthorRan {l c : AuthorModel} {d d' : Database} (h : (Write.updateAuthor l c).exec d = .ok d') :
    d' = {d with authors := d.authors.modify l.id.text (l.flush c) fun _ => rfl} := (Except.ok.inj (fittingRan h).2).symm

theorem updateBookRan {l c : BookModel} {d d' : Database} (h : (Write.updateBook l c).exec d = .ok d') :
    d' = {d with books := d.books.modify l.id.text (l.flush c) fun _ => rfl} := (Except.ok.inj (fittingRan h).2).symm

theorem execSame {x : Write} {d d' : Database} {κ : RowKey} (h : x.exec d = .ok d')
    (outside : κ ∉ x.keys) : Same κ d d' := by
  cases x with
  | insertUser row =>
    obtain ⟨_,t,ran,rfl⟩ := insertUserRan h
    cases κ <;> first | exact fun _ found => found | exact fun _ found => insertKeeps ran found
  | insertAuthor row =>
    obtain ⟨t,ran,rfl⟩ := insertAuthorRan h
    cases κ <;> first | exact fun _ found => found | exact fun _ found => insertKeeps ran found
  | insertBook row =>
    obtain ⟨_,t,ran,rfl⟩ := insertBookRan h
    cases κ <;> first | exact fun _ found => found | exact fun _ found => insertKeeps ran found
  | insertLoan row =>
    obtain ⟨t,ran,rfl⟩ := insertLoanRan h
    cases κ <;> first | exact fun _ found => found | exact fun _ found => insertKeeps ran found
  | insertReservation row =>
    obtain ⟨t,ran,rfl⟩ := insertReservationRan h
    cases κ <;> first | exact fun _ found => found | exact fun _ found => insertKeeps ran found
  | insertNotification row => cases h; cases κ <;> exact fun _ found => found
  | updateUser loaded current =>
    obtain rfl := updateUserRan h
    cases κ <;> first
      | exact fun _ found => found
      | exact fun r found => modifyKeeps (loaded.flush current) (fun _ => rfl) (unlockedUpdate (userUnchanged loaded) outside) found
  | updateAuthor loaded current =>
    obtain rfl := updateAuthorRan h
    cases κ <;> first
      | exact fun _ found => found
      | exact fun r found => modifyKeeps (loaded.flush current) (fun _ => rfl) (unlockedUpdate (authorUnchanged loaded) outside) found
  | updateBook loaded current =>
    obtain rfl := updateBookRan h
    cases κ <;> first
      | exact fun _ found => found
      | exact fun r found => modifyKeeps (loaded.flush current) (fun _ => rfl) (unlockedUpdate (bookUnchanged loaded) outside) found
  | updateLoan loaded current =>
    cases h
    cases κ <;> first
      | exact fun _ found => found
      | exact fun r found => modifyKeeps (loaded.flush current) (fun _ => rfl) (unlockedUpdate (loanUnchanged loaded) outside) found
  | updateReservation loaded current =>
    cases h
    cases κ <;> first
      | exact fun _ found => found
      | exact fun r found =>
        modifyKeeps (loaded.flush current) (fun _ => rfl) (unlockedUpdate (reservationUnchanged loaded) outside) found

theorem insertedFails {ρ : Type} {key : ρ → String} {t : Table key} {row : ρ}
    {mk : Table key → Database} {e : ApiError}
    (h : (do return mk (← inserted t row)) = (.error e : Except ApiError Database)) :
    e = .integrityError := by
  unfold inserted at h
  split at h <;> cases h
  rfl

theorem runFails {x : Write} {d : Database} {e : ApiError} (h : x.run d = .error e) : e = .integrityError := by
  cases x with
  | insertUser row =>
    simp only [Write.run] at h
    split at h
    · cases h; rfl
    · exact insertedFails h
  | insertBook row =>
    simp only [Write.run] at h
    split at h
    · cases h; rfl
    · exact insertedFails h
  | insertAuthor row => exact insertedFails h
  | insertLoan row => exact insertedFails h
  | insertReservation row => exact insertedFails h
  | _ => cases h

theorem execFails {x : Write} {d : Database} {e : ApiError} (h : x.exec d = .error e) :
    e = .integrityError ∨ x.fits = false ∧ e = .dataError := by
  unfold Write.exec at h
  split at h
  · exact .inl (runFails h)
  · rename_i long
    cases h
    exact .inr ⟨by simpa using long,rfl⟩

instance : Backend Database Write RowKey ApiError where
  keys := Write.keys
  exec := Write.exec
  Same := Same
  sameRefl := sameRefl
  sameTrans := sameTrans
  execSame := execSame

end LibraryApi.Database
