import LibraryApi.ExitRules
import LibraryApi.Requests

/-! Where the service programs can fail. A statement fails on a taken key or on a text
too long for its column, a cache call only with Redis down; what comes after the
notification of a request cannot fail any more. -/
namespace LibraryApi.ServiceExits
open Models CacheService Repositories NotificationHandlers
open Program (Raises raisesWrite raisesCommit raisesCall execAll execAllCons)

theorem execAllFails {xs : List Write} {d : Database} {e : ApiError} (h : execAll xs d = .error e) :
    e = .integrityError ∨ (∃ x ∈ xs, x.fits = false) ∧ e = .dataError := by
  induction xs generalizing d with
  | nil => cases h
  | cons x rest ih =>
    simp only [execAll] at h
    split at h
    · rcases ih h with broken | ⟨⟨y,mem,long⟩,same⟩
      · exact .inl broken
      · exact .inr ⟨⟨y,List.mem_cons_of_mem x mem,long⟩,same⟩
    · rename_i failed
      cases h
      rcases Database.execFails failed with broken | ⟨long,same⟩
      · exact .inl broken
      · exact .inr ⟨⟨x,List.mem_cons_self,long⟩,same⟩

section Exits
variable {S : Nat → ApiError → Prop} {n : Nat} {pending : List Write} {α β : Type}

@[simp] theorem raisesRequire {error : ApiError} {row : Option α} {f : α → Service β} :
    Raises S n pending (require error row >>= f) ↔
      (row = none → S n error) ∧ ∀ a, row = some a → Raises S n pending (f a) := by
  cases row with
  | none => exact ⟨fun h => ⟨fun _ => h,nofun⟩,fun h => h.1 rfl⟩
  | some a => exact ⟨fun h => ⟨nofun,fun _ same => Option.some.inj same ▸ h⟩,fun h => h.2 a rfl⟩

@[simp] theorem raisesRefuse {bad : Prop} [Decidable bad] {error : ApiError} {f : Unit → Service β} :
    Raises S n pending (refuse bad error >>= f) ↔
      (bad → S n error) ∧ (¬ bad → Raises S n pending (f ())) := by
  unfold refuse
  split
  · rename_i h; exact ⟨fun r => ⟨fun _ => r,fun none => absurd h none⟩,fun r => r.1 h⟩
  · rename_i h; exact ⟨fun r => ⟨fun bad => absurd bad h,fun _ => r⟩,fun r => r.2 h⟩

theorem raisesScalar {rows : List α} {f : Option α → Service β} (several : S n .multipleResultsFound)
    (h : ∀ a, Raises S n pending (f a)) : Raises S n pending (scalarOneOrNone rows >>= f) := by
  unfold scalarOneOrNone
  split
  · exact h _
  · exact h _
  · exact several

theorem raisesUnique {rows : List α} {f : Option α → Service β} (few : rows.length ≤ 1)
    (h : ∀ a, Raises S n pending (f a)) : Raises S n pending (scalarOneOrNone rows >>= f) := by
  match rows,few with
  | [],_ => exact h none
  | [row],_ => exact h (some row)

@[simp] theorem raisesStatement {x : Write} (taken : S n .integrityError) (long : x.fits = true ∨ S n .dataError)
    {f : Unit → Service β} : Raises S n pending (Program.write x >>= f) ↔ Raises S n (pending ++ [x]) (f ()) := by
  refine raisesWrite.trans (and_iff_right fun d e failed => ?_)
  rcases Database.execFails failed with rfl | ⟨unfit,rfl⟩
  · exact taken
  · exact long.resolve_left (by simp [unfit])

@[simp] theorem raisesStored (taken : S n .integrityError) (long : (∀ x ∈ pending, x.fits = true) ∨ S n .dataError)
    {f : Unit → Service β} : Raises S n pending (Program.commit >>= f) ↔ Raises S (n+1) [] (f ()) := by
  refine raisesCommit.trans (and_iff_right fun d e failed => ?_)
  rcases execAllFails failed with rfl | ⟨⟨x,mem,unfit⟩,rfl⟩
  · exact taken
  · exact long.resolve_left fun fits => by simp [fits x mem] at unfit

theorem raisesWriteAll (taken : S n .integrityError) (long : S n .dataError) {xs : List Write} {f : Unit → Service β}
    (h : ∀ pending, Raises S n pending (f ())) :
    Raises S n pending (AuthorRepository.writeAll xs >>= f) := by
  induction xs generalizing pending with
  | nil => exact h pending
  | cons x rest ih =>
    unfold AuthorRepository.writeAll
    rw [Program.bindBind,raisesStatement taken (.inr long)]; exact ih

theorem raisesRedis (down : S n .redisError) {act : Cache → α × Cache} {f : α → Service β} :
    Raises S n pending (redis act >>= f) ↔ ∀ a, Raises S n pending (f a) := by
  refine raisesCall.trans (and_iff_right fun a x e failed => ?_)
  split at failed <;> cases failed
  exact down

@[simp] theorem raisesDelete (down : S n .redisError) {key : String} {f : Unit → Service β} :
    Raises S n pending (delete key >>= f) ↔ Raises S n pending (f ()) :=
  (raisesRedis down).trans ⟨fun h => h (),fun h _ => h⟩

@[simp] theorem raisesDeletePattern (down : S n .redisError) {pattern : String} {f : Unit → Service β} :
    Raises S n pending (deletePattern pattern >>= f) ↔ Raises S n pending (f ()) := by
  unfold deletePattern
  rw [Program.bindBind]
  refine (raisesRedis down).trans ⟨fun h => h [],fun h keys => ?_⟩
  induction keys with
  | nil => exact h
  | cons key rest ih =>
    unfold deleteKeys
    rw [Program.bindBind,raisesDelete down]; exact ih

@[simp] theorem raisesUuid {f : Uuid → Service β} :
    Raises S n pending (newUuid >>= f) ↔ ∀ id, Raises S n pending (f id) :=
  raisesCall.trans (and_iff_right fun _ _ _ failed => by cases failed)

theorem raisesSerialize {loan : LoanModel} {f : LoanView → Service β}
    (h : ∀ a, Raises S n pending (f a)) :
    Raises S n pending (LoanService.serializeLoan loan >>= f) := by
  unfold LoanService.serializeLoan
  split <;> simp [h]

theorem raisesDueDate {loan : LoanModel} {due : Option LoanService.DateTime} {f : LoanModel → Service β}
    (unfit : S n .typeError)
    (early : S n (.businessRule "A data de vencimento deve ser maior que a data do empréstimo"))
    (h : ∀ a, Raises S n pending (f a)) :
    Raises S n pending (LoanService.dueDateChecked loan due >>= f) := by
  unfold LoanService.dueDateChecked
  split <;> simp [h,unfit,early]

theorem raisesSure {x : Write} (sure : ∀ d, ∃ d', x.exec d = .ok d') {f : Unit → Service β} :
    Raises S n [] (Program.write x >>= fun _ => Program.commit >>= f) ↔ Raises S (n+1) [] (f ()) := by
  refine raisesWrite.trans ((and_iff_right fun d e failed => ?_).trans
    (raisesCommit.trans (and_iff_right fun d e failed => ?_)))
  · obtain ⟨d',ran⟩ := sure d
    cases ran.symm.trans failed
  · obtain ⟨d',ran⟩ := sure d
    cases (execAllCons.mpr ⟨d',ran,rfl⟩).symm.trans failed

theorem raisesSend {userId : Uuid} {type : NotificationType} {message : String}
    {loanId reservationId : Option Uuid} {f : NotificationModel → Service β}
    (h : ∀ a, Raises S (n+1) [] (f a)) :
    Raises S n [] (NotificationService.sendNotification userId type message loanId reservationId >>= f) := by
  simp only [NotificationService.sendNotification,NotificationRepository.create,Program.bindBind,
    Program.raisesNow,raisesUuid]
  refine fun sentAt id createdAt => (raisesSure fun d => ⟨_,rfl⟩).mpr ?_
  simp [h]

theorem raisesPublish {event : DomainEvent} {f : Unit → Service β} (h : Raises S (n+1) [] (f ())) :
    Raises S n [] (publish event >>= f) := by
  rw [publishDelivers,Program.bindBind]
  cases event <;> exact (Program.bindBind _ _ _ ▸ raisesSend fun _ => h)

end Exits
end LibraryApi.ServiceExits
