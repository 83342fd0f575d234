import LibraryApi.CommittedRows

/-! The life of the table of reservations. A row comes with `create_reservation`,
is closed by `cancel_reservation`, and the closing is told in a second commit of
the same session. Nothing else touches the table. -/
namespace LibraryApi.ReservationHistory
open Models KeyedTable Repositories Requests Effects CommittedRows
open ReservationService (newReservation cancelled)
open Program (execAll Path stateAfter mine mineCons)

abbrev Reservations := Table (fun r : ReservationModel => r.id.text)

def aside : Write → Bool
  | .insertReservation _ => false
  | .updateReservation _ _ => false
  | _ => true

theorem reservationKey (l c s : ReservationModel) : (l.flush c s).id.text = s.id.text := rfl

def storeReservation (rows : Reservations) (l c : ReservationModel) : Reservations :=
  rows.modify l.id.text (l.flush c) (reservationKey l c)

inductive Change (seen : Seen) (own : Log) (rows : Reservations) :
    Request → List Write → Reservations → Prop where
  | same {r writes} (others : ∀ x ∈ writes, aside x = true) : Change seen own rows r writes rows
  | opened {bookId userId user book id createdAt rows'} (first : own = [])
      (added : rows.insert (newReservation id user book createdAt) = some rows') :
      Change seen own rows (.createReservation bookId userId)
        [.insertReservation (newReservation id user book createdAt)] rows'
  | closed {k loaded now} (first : own = [])
      (read : seen fun d _ => d.reservations.find k = some loaded) (id : loaded.id.text = k)
      (active : loaded.status = .active) : Change seen own rows (.cancelReservation k)
        [.updateReservation loaded (cancelled loaded now)]
        (storeReservation rows loaded (cancelled loaded now))

def cancels (k : String) (writes : List Write) : Bool := writes.any fun
  | .updateReservation l c => l.id.text == k && c.status == .cancelled
  | _ => false

def tellsCancel (k : String) (n : NotificationModel) : Bool :=
  n.type == .reservationCancelled && n.reservationId.map Uuid.text == some k

def told (d : Database) (k : String) : Nat := d.notifications.countP (tellsCancel k)

def tells (k : String) (writes : List Write) : Bool := writes.any fun
  | .insertNotification n => tellsCancel k n
  | _ => false

section Steps
variable {seen : Seen} {own : Log} {before after : Database} {r : Request} {writes : List Write}
  {k : String} {row : ReservationModel}

theorem asideRan {x : Write} {d d' : Database} (other : aside x = true) (h : x.exec d = .ok d') :
    d'.reservations = d.reservations := by
  cases x with
  | insertUser row => obtain ⟨_,_,_,rfl⟩ := Database.insertUserRan h; rfl
  | insertAuthor row => obtain ⟨_,_,rfl⟩ := Database.insertAuthorRan h; rfl
  | insertBook row => obtain ⟨_,_,_,rfl⟩ := Database.insertBookRan h; rfl
  | insertLoan row => obtain ⟨_,_,rfl⟩ := Database.insertLoanRan h; rfl
  | insertReservation row => contradiction
  | updateReservation loaded current => contradiction
  | updateUser l c => obtain rfl := Database.updateUserRan h; rfl
  | updateAuthor l c => obtain rfl := Database.updateAuthorRan h; rfl
  | updateBook l c => obtain rfl := Database.updateBookRan h; rfl
  | _ => cases h; rfl

theorem asideAll {xs : List Write} {d d' : Database} (others : ∀ x ∈ xs, aside x = true)
    (h : execAll xs d = .ok d') : d'.reservations = d.reservations :=
  Program.execAllKeeps (R := fun d d' : Database => d'.reservations = d.reservations) (fun _ => rfl)
    (fun {a b c} (x : b.reservations = a.reservations) (y : c.reservations = b.reservations) => y.trans x)
    (fun x mem _ _ ran => asideRan (others x mem) ran) h

theorem notesKept {xs : List Write} {d d' : Database} (others : ∀ x ∈ xs, ∀ n, x ≠ .insertNotification n)
    (h : execAll xs d = .ok d') : d'.notifications = d.notifications := by
  refine Program.execAllKeeps (R := fun d d' : Database => d'.notifications = d.notifications)
    (fun _ => rfl) (fun {a b c} (x : b.notifications = a.notifications)
      (y : c.notifications = b.notifications) => y.trans x) (fun x mem d d' ran => ?_) h
  cases x with
  | insertNotification n => exact absurd rfl (others _ mem n)
  | insertUser row => obtain ⟨_,_,_,rfl⟩ := Database.insertUserRan ran; rfl
  | insertAuthor row => obtain ⟨_,_,rfl⟩ := Database.insertAuthorRan ran; rfl
  | insertBook row => obtain ⟨_,_,_,rfl⟩ := Database.insertBookRan ran; rfl
  | insertLoan row => obtain ⟨_,_,rfl⟩ := Database.insertLoanRan ran; rfl
  | insertReservation row => obtain ⟨_,_,rfl⟩ := Database.insertReservationRan ran; rfl
  | updateUser l c => obtain rfl := Database.updateUserRan ran; rfl
  | updateAuthor l c => obtain rfl := Database.updateAuthorRan ran; rfl
  | updateBook l c => obtain rfl := Database.updateBookRan ran; rfl
  | _ => cases ran; rfl

theorem reservationsChanged (e : Effect seen own before r writes) (ran : execAll writes before = .ok after) :
    Change seen own before.reservations r writes after.reservations := by
  have others (h : ∀ x ∈ writes, aside x = true) :
      Change seen own before.reservations r writes after.reservations := by
    rw [asideAll h ran]; exact .same h
  cases e with
  | createReservation first =>
    obtain ⟨rows,added,rfl⟩ := Database.insertReservationRan (ranOne ran)
    exact .opened first added
  | cancelReservation first read id active =>
    cases ran
    exact .closed first read id active
  | deleteAuthor =>
    refine others fun x mem => ?_
    rcases List.mem_cons.mp mem with rfl | inside
    · rfl
    · obtain ⟨b,_,rfl⟩ := List.mem_map.mp inside; rfl
  | _ => exact others (by simp [aside])

theorem closedStatus {loaded stored : ReservationModel} {now : Int} (active : loaded.status = .active) :
    (loaded.flush (cancelled loaded now) stored).status = .cancelled := by
  simp [ReservationModel.flush,cancelled,flushed,active]

theorem reservationStep (e : Effect seen own before r writes) (ran : execAll writes before = .ok after)
    (found : before.reservations.find k = some row) :
    ∃ row', after.reservations.find k = some row' ∧
      (cancels k writes = false → row' = row) ∧ (cancels k writes = true → row'.status = .cancelled) := by
  have change := reservationsChanged e ran
  generalize after.reservations = rows' at change ⊢
  cases change with
  | same others =>
    refine ⟨row,found,fun _ => rfl,fun closing => ?_⟩
    obtain ⟨x,mem,hit⟩ := List.any_eq_true.mp closing
    have away := others x mem
    cases x <;> simp [aside] at away hit
  | opened _ added =>
    exact ⟨row,Database.insertKeeps added found,fun _ => rfl,fun closing => by simp [cancels] at closing⟩
  | @closed k' loaded now _ read id active =>
    unfold storeReservation
    rw [Table.findModify,found]
    split
    · rename_i same
      have hit : cancels k [.updateReservation loaded (cancelled loaded now)] = true := by
        simp [cancels,cancelled,same]
      exact ⟨_,rfl,fun quiet => by rw [hit] at quiet; contradiction,fun _ => closedStatus active⟩
    · rename_i other
      refine ⟨row,rfl,fun _ => rfl,fun closing => ?_⟩
      have here : loaded.id.text = k := by simpa [cancels,cancelled] using closing
      exact absurd here.symm other

theorem cancelling (e : Effect seen own before r writes) (closing : cancels k writes = true) :
    r = .cancelReservation k ∧ own = [] := by
  cases e with
  | @cancelReservation asked loaded now first _ id =>
    have here : loaded.id.text = k := by simpa [cancels,cancelled] using closing
    exact ⟨by rw [← here,id],first⟩
  | deleteAuthor => simp [cancels,AuthorRepository.deactivate] at closing
  | _ => simp [cancels] at closing

theorem mainCancels (e : Effect seen [] before (.cancelReservation k) writes) :
    cancels k writes = true := by
  cases e with
  | cancelReservation _ _ id => simp [cancels,cancelled,id]
  | notify second => contradiction

theorem telling (e : Effect seen own before r writes) (tell : tells k writes = true) :
    ∃ main n, own = [main] ∧ Announces r main.writes n ∧ tellsCancel k n = true := by
  cases e with
  | @notify _ main note second about => exact ⟨main,note,second,about,by simpa [tells] using tell⟩
  | deleteAuthor => simp [tells,AuthorRepository.deactivate] at tell
  | _ => simp [tells] at tell

theorem mainSilent (e : Effect seen [] before r writes) : tells k writes = false := by
  by_contra tell
  obtain ⟨_,_,second,_⟩ := telling e (by simpa using tell)
  contradiction

theorem announcedCancel {n : NotificationModel} (e : Effect seen [] before r writes)
    (about : Announces r writes n) (tell : tellsCancel k n = true) : r = .cancelReservation k := by
  have facts : n.type = .reservationCancelled ∧ n.reservationId.map Uuid.text = some k := by
    simpa [tellsCancel] using tell
  obtain ⟨type,named⟩ := facts
  cases e with
  | cancelReservation _ _ id =>
    obtain ⟨row,_,same,_,id'⟩ := about
    simp only [List.cons.injEq,Write.updateReservation.injEq] at same
    obtain ⟨⟨rfl,_⟩,_⟩ := same
    rw [id',Option.map_some,Option.some.injEq] at named
    rw [← id,named]
  | createReservation => obtain ⟨_,_,other,_⟩ := about; rw [type] at other; contradiction
  | createLoan => obtain ⟨_,_,_,_,other,_⟩ := about; rw [type] at other; contradiction
  | returnLoan => obtain ⟨_,_,_,_,_,other,_⟩ := about; rw [type] at other; contradiction
  | cancelLoan => obtain ⟨_,_,_,_,_,other,_⟩ := about; rw [type] at other; contradiction
  | notify second => contradiction
  | _ => exact about.elim

theorem cancelAnnounced {n : NotificationModel} (e : Effect seen [] before (.cancelReservation k) writes)
    (about : Announces (.cancelReservation k) writes n) : tellsCancel k n = true := by
  cases e with
  | cancelReservation _ _ id =>
    obtain ⟨row,_,same,type,id'⟩ := about
    simp only [List.cons.injEq,Write.updateReservation.injEq] at same
    obtain ⟨⟨rfl,_⟩,_⟩ := same
    simp [tellsCancel,type,id',id]
  | notify second => contradiction

theorem toldRan (e : Effect seen own before r writes) (ran : execAll writes before = .ok after) :
    told after k = told before k + if tells k writes then 1 else 0 := by
  have quiet (others : ∀ x ∈ writes, ∀ n, x ≠ .insertNotification n) :
      told after k = told before k + if tells k writes then 1 else 0 := by
    have none : tells k writes = false := by
      refine List.any_eq_false.mpr fun x mem hit => ?_
      cases x with
      | insertNotification n => exact others _ mem n rfl
      | _ => contradiction
    rw [none,told,told,notesKept others ran]; rfl
  cases e with
  | notify =>
    cases ran
    simp [told,tells,List.countP_append,List.countP_singleton]
  | deleteAuthor =>
    refine quiet fun x mem n same => ?_
    subst same
    simp [AuthorRepository.deactivate] at mem
  | _ => exact quiet (by simp)

end Steps
end LibraryApi.ReservationHistory
