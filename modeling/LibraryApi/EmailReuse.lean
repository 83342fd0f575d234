import LibraryApi.LoneRules
import LibraryApi.Overdue
import LibraryApi.Runs

/-! The e-mail of a new user. `find_by_email` looks at active users only, the unique
constraint at all of them: the two disagree about the e-mail of a deleted user, and the
database refuses what the service has let through. So it does with a name that is too long
for its column. -/
namespace LibraryApi.EmailReuse
open Models CacheService KeyedTable Repositories UserService Requests Effects Runs
open Overdue (aloneRefuse)
open Program (alone aloneMap execAll)

def taken : ApiError := .businessRule "E-mail já cadastrado"

structure Registers (k : Nat) (data : CreateUserSchema) (w : World) (env : Oracle) : Prop where
  refused : (∃ u ∈ w.db.users.rows, u.email = data.email) →
    (serve k (.createUser data) w env).1 = .error taken ∧ (serve k (.createUser data) w env).2.db = w.db
  stored : (∀ u ∈ w.db.users.rows, u.email ≠ data.email) → ∃ user, (serve k (.createUser data) w env).1 = .ok (.user user) ∧
    user.name = data.name ∧ user.email = data.email ∧ user.isActive = true ∧ user.role = .user ∧
    (serve k (.createUser data) w env).2.db.users.rows = w.db.users.rows ++ [user]

section Alone
variable {k : Nat} {w : World} {env : Oracle} {data : CreateUserSchema} {userId : String}

/- None where passlib refuses the password. -/
def newUser (data : CreateUserSchema) (w : World) (env : Oracle) : Option UserModel :=
  ((env 1).answer.hash data.password).map fun password =>
    ⟨(env 2).answer.uuid,data.name,data.email,password,w.clock + (env 3).elapsed,true,.user⟩

def insertion (d : Database) : Option UserModel → Except ApiError UserModel × Database
  | none => (.error .valueError,d)
  | some user => match (Write.insertUser user).exec d with
    | .ok d' => (.ok user,d')
    | .error e => (.error e,d)

def creation (d : Database) (email : String) (made : Option UserModel) : Except ApiError UserModel × Database :=
  match UserRepository.findByEmail d email with
  | [] => insertion d made
  | [_] => (.error taken,d)
  | _ => (.error .multipleResultsFound,d)

theorem writeAlone {β : Type} (k : Nat) (w : World) (env : Oracle) (x : Write) (query : Database → β) :
    let p : Service β := do
      Program.write x
      Program.commit
      Program.select query
    ((alone k p [] w env).1,(alone k p [] w env).2.db) = match x.exec w.db with
      | .ok d => (.ok (query d),d)
      | .error e => (.error e,w.db) := by
  intro p
  cases ran : x.exec w.db with
  | error e =>
    rw [Program.aloneRejected ran]
    rfl
  | ok d =>
    have whole : execAll ([] ++ [x]) (w.acquire k (Program.Backend.keys Database x)).db = .ok d := Program.execAllCons.mpr ⟨d,ran,rfl⟩
    rw [Program.aloneWrite ran,Program.aloneCommit whole]
    rfl

theorem insertAlone {user : UserModel} (none : UserRepository.findByEmail w.db data.email = [])
    (made : newUser data w env = some user) : alone k (createUser data) [] w env =
    alone k (do
      Program.write (.insertUser user)
      Program.commit
      Program.select fun d : Database => (d.users.find user.id.text).getD user) []
        {w with clock := w.clock + (env 3).elapsed} fun n => env (n+4) := by
  obtain ⟨password,hashed,rfl⟩ := Option.map_eq_some_iff.mp made
  unfold createUser
  show alone k (scalarOneOrNone (UserRepository.findByEmail w.db data.email) >>= _) [] w _ = _
  rw [none]
  show alone k (refuse _ _ >>= _) [] w _ = _
  rw [aloneRefuse,if_neg (by simp)]
  unfold hashPassword
  rw [Program.aloneCalled (b := password) (x := w.ext) (by simp only [hashed])]
  rfl

theorem refusedAlone (none : UserRepository.findByEmail w.db data.email = []) (made : newUser data w env = Option.none) :
    (alone k (createUser data) [] w env).1 = .error .valueError ∧ (alone k (createUser data) [] w env).2.db = w.db := by
  have refused : (env 1).answer.hash data.password = Option.none := Option.map_eq_none_iff.mp made
  unfold createUser
  show (alone k (scalarOneOrNone (UserRepository.findByEmail w.db data.email) >>= _) [] w _).1 = _ ∧
    (alone k (scalarOneOrNone (UserRepository.findByEmail w.db data.email) >>= _) [] w _).2.db = _
  rw [none]
  show (alone k (refuse _ _ >>= _) [] w _).1 = _ ∧ (alone k (refuse _ _ >>= _) [] w _).2.db = _
  rw [aloneRefuse,if_neg (by simp)]
  unfold hashPassword
  rw [Program.aloneRefused (e := .valueError) (by simp only [refused])]
  exact ⟨rfl,rfl⟩

theorem createAlone (k : Nat) (w : World) (env : Oracle) (data : CreateUserSchema) :
    ((alone k (createUser data) [] w env).1,(alone k (createUser data) [] w env).2.db) =
      creation w.db data.email (newUser data w env) := by
  unfold creation
  cases found : UserRepository.findByEmail w.db data.email with
  | nil =>
    cases made : newUser data w env with
    | none =>
      obtain ⟨refused,kept⟩ := refusedAlone (k := k) found made
      rw [refused,kept]
      rfl
    | some user =>
      rw [insertAlone found made,writeAlone k {w with clock := w.clock + (env 3).elapsed}]
      simp only [insertion]
      cases ran : (Write.insertUser user).exec w.db with
      | error e => rfl
      | ok d =>
        obtain ⟨_,users,added,rfl⟩ := Database.insertUserRan ran
        have stored : users.find user.id.text = some user := by
          rw [Table.findInsert added,if_pos rfl]
        simp only [stored,Option.getD_some]
  | cons first others =>
    unfold createUser
    show ((alone k (scalarOneOrNone (UserRepository.findByEmail w.db data.email) >>= _) [] w _).1,
      (alone k (scalarOneOrNone (UserRepository.findByEmail w.db data.email) >>= _) [] w _).2.db) = _
    rw [found]
    cases others with
    | nil => rfl
    | cons second rest => rfl

end Alone

def EmailsUnique (d : Database) : Prop := (d.users.rows.map UserModel.email).Nodup

section Creating
variable {d : Database} {u : UserModel}

theorem findsNone (unique : EmailsUnique d) (mem : u ∈ d.users.rows) (gone : u.isActive = false) :
    UserRepository.findByEmail d u.email = [] := by
  refine List.filter_eq_nil_iff.mpr fun x other found => ?_
  simp only [Bool.and_eq_true,beq_iff_eq] at found
  rw [Table.sameKey unique other mem found.1,gone] at found
  exact absurd found.2 nofun

theorem findsOne (unique : EmailsUnique d) (mem : u ∈ d.users.rows) (active : u.isActive = true) :
    UserRepository.findByEmail d u.email = [u] := by
  have all : ∀ x ∈ UserRepository.findByEmail d u.email, x = u := fun x found =>
    Table.sameKey unique (List.mem_filter.mp found).1 mem (by simpa using And.left (by simpa using (List.mem_filter.mp found).2))
  have here : u ∈ UserRepository.findByEmail d u.email := List.mem_filter.mpr ⟨mem,by simp [active]⟩
  have once : (UserRepository.findByEmail d u.email).Nodup := (List.Nodup.of_map _ unique).filter _
  exact List.perm_singleton.mp ((List.perm_ext_iff_of_nodup once (List.nodup_singleton u)).mpr fun x =>
    ⟨fun found => List.mem_singleton.mpr (all x found),fun same => List.mem_singleton.mp same ▸ here⟩)

theorem findsFree {email : String} (free : ∀ u ∈ d.users.rows, u.email ≠ email) : UserRepository.findByEmail d email = [] :=
  List.filter_eq_nil_iff.mpr fun x mem found => free x mem (by simpa using And.left (by simpa using found))

theorem creationNew (user : UserModel) (fits : (Write.insertUser user).fits = true)
    (free : ∀ u ∈ d.users.rows, u.email ≠ user.email) (fresh : d.users.find user.id.text = none) :
    ∃ users, d.users.insert user = some users ∧ creation d user.email (some user) = (.ok user,{d with users := users}) := by
  have unused : d.users.rows.any (fun r => r.email == user.email) = false := by
    rw [List.any_eq_false]
    exact fun x mem => by simpa using free x mem
  obtain ⟨users,added⟩ := Table.insertFresh fresh
  refine ⟨users,added,?_⟩
  have ran : (Write.insertUser user).exec d = .ok {d with users := users} := by
    rw [Write.exec,if_pos fits]
    simp [Write.run,unused,inserted,added]
  rw [creation,findsFree free]
  simp only [insertion,ran]

theorem creationStored {email : String} {made : Option UserModel} {user : UserModel}
    (stored : (creation d email made).1 = .ok user) : made = some user ∧ (Write.insertUser user).fits = true := by
  unfold creation at stored
  split at stored
  · cases made with
    | none => cases stored
    | some new =>
      unfold insertion at stored
      cases ran : (Write.insertUser new).exec d with
      | error e => simp [ran] at stored
      | ok d' =>
        simp only [ran,Except.ok.injEq] at stored
        exact ⟨congrArg some stored,stored ▸ (Database.fittingRan ran).1⟩
  · cases stored
  · cases stored

theorem creationTaken (made : Option UserModel) (unique : EmailsUnique d) (mem : u ∈ d.users.rows) (active : u.isActive = true) :
    creation d u.email made = (.error taken,d) := by
  rw [creation,findsOne unique mem active]

theorem creationUntaken (made : Option UserModel) (unique : EmailsUnique d) (mem : u ∈ d.users.rows) (gone : u.isActive = false) :
    (creation d u.email made).1 ≠ .error taken := by
  rw [creation,findsNone unique mem gone]
  cases made with
  | none => exact fun same => nomatch same
  | some user =>
    unfold insertion
    cases ran : (Write.insertUser user).exec d with
    | ok d' => simp [ran]
    | error e => rcases Database.execFails ran with rfl | ⟨_,rfl⟩ <;> simp [ran,taken]

end Creating

section Registering
variable {k : Nat} {w : World} {env : Oracle} {data : CreateUserSchema}

theorem serveCreate (k : Nat) (w : World) (env : Oracle) (data : CreateUserSchema) :
    (serve k (.createUser data) w env).1 = (creation w.db data.email (newUser data w env)).1.map .user ∧
    (serve k (.createUser data) w env).2.db = (creation w.db data.email (newUser data w env)).2 := by
  have served : serve k (.createUser data) w env =
      ((alone k (createUser data) [] w env).1.map .user,(alone k (createUser data) [] w env).2) :=
    aloneMap Response.user k (createUser data) [] w env
  have created := createAlone k w env data
  rw [served]
  exact ⟨congrArg (fun x => x.1.map Response.user) created,congrArg Prod.snd created⟩

/-- The name and the e-mail fit their columns and passlib hashes the password. -/
structure Storable (data : CreateUserSchema) (hash : String → Option String) : Prop where
  name : varchar 255 data.name = true
  email : varchar 255 data.email = true
  password : hash data.password ≠ none

theorem storableMade : Storable data (env 1).answer.hash ↔
    ∃ user, newUser data w env = some user ∧ (Write.insertUser user).fits = true := by
  constructor
  · rintro ⟨name,email,accepted⟩
    obtain ⟨password,hashed⟩ := Option.ne_none_iff_exists'.mp accepted
    refine ⟨_,by rw [newUser,hashed]; rfl,?_⟩
    simp [Write.fits,name,email]
  · rintro ⟨user,made,fits⟩
    obtain ⟨password,hashed,rfl⟩ := Option.map_eq_some_iff.mp made
    simp only [Write.fits,Bool.and_eq_true] at fits
    exact ⟨fits.1,fits.2,by rw [hashed]; exact Option.some_ne_none _⟩

theorem registersIff (unique : EmailsUnique w.db) (fresh : w.db.users.find (env 2).answer.uuid.text = none) :
    Registers k data w env ↔ (∀ u ∈ w.db.users.rows, u.email = data.email → u.isActive = true) ∧
      ((∃ u ∈ w.db.users.rows, u.email = data.email) ∨ Storable data (env 1).answer.hash) := by
  obtain ⟨result,last⟩ := serveCreate k w env data
  constructor
  · intro registers
    refine ⟨fun u mem same => ?_,?_⟩
    · by_contra gone
      obtain ⟨refused,_⟩ := registers.refused ⟨u,mem,same⟩
      rw [result,← same] at refused
      have untaken := creationUntaken (newUser data w env) unique mem (by simpa using gone)
      cases made : (creation w.db u.email (newUser data w env)).1 with
      | ok user => rw [made] at refused; cases refused
      | error e =>
        rw [made] at refused untaken
        exact untaken (congrArg Except.error (Except.error.inj refused))
    · refine or_iff_not_imp_left.mpr fun none => ?_
      obtain ⟨user,answered,_⟩ := registers.stored fun u mem same => none ⟨u,mem,same⟩
      rw [result] at answered
      cases made : (creation w.db data.email (newUser data w env)).1 with
      | ok stored => exact storableMade.mpr ⟨stored,creationStored made⟩
      | error e => rw [made] at answered; cases answered
  · rintro ⟨active,stored⟩
    refine ⟨?_,fun free => ?_⟩
    · rintro ⟨u,mem,same⟩
      rw [result,last,← same,creationTaken (newUser data w env) unique mem (active u mem same)]
      exact ⟨rfl,rfl⟩
    · have storable := stored.resolve_left fun ⟨u,mem,same⟩ => free u mem same
      obtain ⟨user,made,fits⟩ := storableMade.mp storable
      obtain ⟨password,_,rfl⟩ := Option.map_eq_some_iff.mp made
      obtain ⟨users,added,created⟩ := creationNew _ fits free fresh
      rw [result,last,made,created]
      exact ⟨_,rfl,rfl,rfl,rfl,rfl,(Table.insertRows added).1⟩

end Registering
section Steps
variable {k : Nat} {w : World} {env : Oracle} {userId : String}

abbrev Users := Table (fun r : UserModel => r.id.text)

theorem userKey (l c s : UserModel) : (l.flush c s).id.text = s.id.text := rfl

def storeUser (users : Users) (l c : UserModel) : Users := users.modify l.id.text (l.flush c) (userKey l c)

inductive UsersStep (d : Database) : Request → Users → Prop where
  | kept {r} (alive : ∀ userId, r = .deleteUser userId → UserRepository.findById d userId = none) : UsersStep d r d.users
  | added {data user users} (free : ∀ u ∈ d.users.rows, u.email ≠ user.email) (active : user.isActive = true)
      (inserted : d.users.insert user = some users) : UsersStep d (.createUser data) users
  | changed {r} {user current : UserModel} (email : current.email = user.email) (active : current.isActive = user.isActive)
      (other : ∀ userId, r ≠ .deleteUser userId) : UsersStep d r (storeUser d.users user current)
  | deleted {userId user} (found : UserRepository.findById d userId = some user) :
      UsersStep d (.deleteUser userId) (storeUser d.users user {user with isActive := false})

def onUsers : Request → Bool
  | .createUser _ => true
  | .updateUser _ _ => true
  | .updateRole _ _ => true
  | .deleteUser _ => true
  | _ => false

def offUsers : Write → Bool
  | .insertUser _ => false
  | .updateUser _ _ => false
  | _ => true

theorem offUsersRan {x : Write} {d d' : Database} (off : offUsers x = true) (h : x.exec d = .ok d') : d'.users = d.users := by
  cases x with
  | insertUser row => contradiction
  | updateUser loaded current => contradiction
  | insertAuthor row => obtain ⟨_,_,rfl⟩ := Database.insertAuthorRan h; rfl
  | insertBook row => obtain ⟨_,_,_,rfl⟩ := Database.insertBookRan h; rfl
  | insertLoan row => obtain ⟨_,_,rfl⟩ := Database.insertLoanRan h; rfl
  | insertReservation row => obtain ⟨_,_,rfl⟩ := Database.insertReservationRan h; rfl
  | updateAuthor l c => obtain rfl := Database.updateAuthorRan h; rfl
  | updateBook l c => obtain rfl := Database.updateBookRan h; rfl
  | _ => cases h; rfl

theorem usersSame {seen : Seen} {own : Log} {before after : Database} {r : Request} {writes : List Write}
    (e : Effect seen own before r writes) (other : onUsers r = false) (ran : execAll writes before = .ok after) :
    after.users = before.users := by
  refine Program.execAllKeeps (R := fun d d' : Database => d'.users = d.users) (fun _ => rfl)
    (fun {a b c} (x : b.users = a.users) (y : c.users = b.users) => y.trans x) (fun x mem d d' step => offUsersRan ?_ step) ran
  cases e with
  | createUser => contradiction
  | updateUser => contradiction
  | updateRole => contradiction
  | deleteUser => contradiction
  | deleteAuthor =>
    rcases List.mem_cons.mp mem with rfl | inside
    · rfl
    · obtain ⟨b,_,rfl⟩ := List.mem_map.mp inside
      rfl
  | createLoan => rcases List.mem_pair.mp mem with rfl | rfl <;> rfl
  | returnLoan => rcases List.mem_pair.mp mem with rfl | rfl <;> rfl
  | cancelLoan => rcases List.mem_pair.mp mem with rfl | rfl <;> rfl
  | _ => rw [List.mem_singleton.mp mem]; rfl

theorem changeAlone (f : UserModel → UserModel) :
    let p : Service UserModel := do
      let user ← getById userId
      UserRepository.update user (f user)
    (alone k p [] w env).2.db = match UserRepository.findById w.db userId with
      | none => w.db
      | some user => if (Write.updateUser user (f user)).fits
        then {w.db with users := storeUser w.db.users user (f user)} else w.db := by
  intro p
  show (alone k (require _ (UserRepository.findById w.db userId) >>= _) [] w fun n => env (n+1)).2.db = _
  cases found : UserRepository.findById w.db userId with
  | none => rfl
  | some user =>
    refine (congrArg Prod.snd (writeAlone k w (fun n => env (n+1)) (.updateUser user (f user))
      fun d => (d.users.find user.id.text).getD (f user))).trans ?_
    cases fits : (Write.updateUser user (f user)).fits with
    | true => simp [Write.exec,fits]; rfl
    | false => simp [Write.exec,fits]

theorem renamedSame (user : UserModel) (name : Option String) : (renamed user name).email = user.email ∧
    (renamed user name).isActive = user.isActive := by
  unfold renamed
  split
  · exact ⟨rfl,rfl⟩
  · split <;> exact ⟨rfl,rfl⟩

theorem creationStep {d : Database} {made : Option UserModel} {data : CreateUserSchema}
    (active : ∀ user, made = some user → user.isActive = true) :
    UsersStep d (.createUser data) (creation d data.email made).2.users := by
  have same : UsersStep d (.createUser data) d.users := .kept fun _ => nofun
  unfold creation
  split
  · cases made with
    | none => exact same
    | some user =>
      simp only [insertion]
      split
      · rename_i ran
        obtain ⟨free,users,added,rfl⟩ := Database.insertUserRan ran
        exact .added free (active user rfl) added
      · exact same
  · exact same
  · exact same

theorem serveUsers {requests : Nat → Option Request} {t : Int} {r : Request} (h : Reached requests .empty t k w)
    (sent : requests k = some r) : UsersStep w.db r (serve k r w env).2.db.users := by
  cases kind : onUsers r with
  | false =>
    have same : (serve k r w env).2.db.users = w.db.users := servedKeeps (P := fun d => d.users = w.db.users) h sent rfl
      fun _ _ _ _ _ _ _ e ran start => (usersSame e kind ran).trans start
    rw [same]
    exact .kept fun userId other => by rw [other] at kind; contradiction
  | true =>
    cases r with
    | createUser data =>
      rw [(serveCreate k w env data).2]
      refine creationStep fun user made => ?_
      obtain ⟨password,_,rfl⟩ := Option.map_eq_some_iff.mp made
      rfl
    | updateUser userId name =>
      have served : (serve k (.updateUser userId name) w env).2.db = _ :=
        (congrArg (fun x => x.2.db) (aloneMap Response.user k (updateUser userId name) [] w env)).trans
          (changeAlone fun user => renamed user name)
      rw [served]
      cases UserRepository.findById w.db userId with
      | none => exact .kept fun _ => nofun
      | some user =>
        dsimp only
        split
        · exact .changed (renamedSame user name).1 (renamedSame user name).2 fun _ => nofun
        · exact .kept fun _ => nofun
    | updateRole userId role =>
      have served : (serve k (.updateRole userId role) w env).2.db = _ :=
        (congrArg (fun x => x.2.db) (aloneMap Response.user k (updateRole userId role) [] w env)).trans
          (changeAlone fun user => {user with role := role})
      rw [served]
      cases UserRepository.findById w.db userId with
      | none => exact .kept fun _ => nofun
      | some user =>
        dsimp only
        rw [if_pos (by simp [Write.fits])]
        exact .changed rfl rfl fun _ => nofun
    | deleteUser userId =>
      let p : Service UserModel := do
        let user ← getById userId
        UserRepository.update user {user with isActive := false}
      have rest : deleteUser userId = p >>= fun _ => pure () := (Program.bindBind _ _ _).symm
      have served : (serve k (.deleteUser userId) w env).2.db = _ :=
        (congrArg (fun x => x.2.db) (aloneMap (fun _ => Response.nothing) k (deleteUser userId) [] w env)).trans
          ((congrArg (fun x => x.2.db) (rest ▸ aloneMap (fun _ => ()) k p [] w env)).trans
            (changeAlone fun user => {user with isActive := false}))
      rw [served]
      cases found : UserRepository.findById w.db userId with
      | none => exact .kept fun _ same => by cases same; exact found
      | some user =>
        dsimp only
        rw [if_pos (by simp [Write.fits])]
        exact .deleted found
    | _ => contradiction

def Retired (email : String) (users : Users) : Prop := ∃ u ∈ users.rows, u.email = email ∧ u.isActive = false

def Deletes (email : String) (d : Database) : Request → Prop
  | .deleteUser userId => ∃ user, UserRepository.findById d userId = some user ∧ user.email = email
  | _ => False

theorem storedEmails {users : Users} {l c : UserModel} (email : c.email = l.email) :
    (storeUser users l c).rows.map UserModel.email = users.rows.map UserModel.email := by
  unfold storeUser Table.modify
  rw [List.map_map]
  refine List.map_congr_left fun u _ => ?_
  simp only [Function.comp_apply]
  split
  · simp [UserModel.flush,email]
  · rfl

theorem uniqueStep {d : Database} {r : Request} {users : Users} (step : UsersStep d r users) (unique : EmailsUnique d) :
    (users.rows.map UserModel.email).Nodup := by
  cases step with
  | kept => exact unique
  | changed email => rwa [storedEmails email]
  | @deleted _ user => rwa [storedEmails (show ({user with isActive := false} : UserModel).email = user.email from rfl)]
  | @added _ user _ free _ added =>
    rw [(Table.insertRows added).1,List.map_append]
    refine List.Nodup.append unique (List.nodup_singleton _) fun e old new => ?_
    obtain ⟨u,mem,rfl⟩ := List.mem_map.mp old
    exact free u mem (List.mem_singleton.mp new)

theorem retiredStored {users : Users} {l c : UserModel} {email : String} (same : c.email = l.email) :
    Retired email (storeUser users l c) ↔ ∃ u ∈ users.rows, u.email = email ∧
      (if u.id.text = l.id.text then flushed l.isActive c.isActive u.isActive else u.isActive) = false := by
  unfold Retired storeUser Table.modify
  simp only [List.mem_map,exists_exists_and_eq_and]
  refine exists_congr fun u => and_congr_right fun _ => ?_
  split
  · simp [UserModel.flush,same]
  · rfl

theorem retiredStep {d : Database} {r : Request} {users : Users} {email : String} (step : UsersStep d r users) :
    Retired email users ↔ Retired email d.users ∨ Deletes email d r := by
  cases step with
  | kept alive =>
    refine ⟨.inl,fun h => h.elim id fun deletes => ?_⟩
    cases r with
    | deleteUser userId =>
      obtain ⟨user,found,_⟩ := deletes
      rw [alive userId rfl] at found
      contradiction
    | _ => exact deletes.elim
  | @added data user _ _ active added =>
    unfold Retired
    rw [(Table.insertRows added).1]
    simp [Deletes,active]
  | @changed _ user current email active other =>
    rw [retiredStored email,active]
    simp only [flushedSame,ite_self]
    refine ⟨.inl,fun h => h.elim id fun deletes => ?_⟩
    cases r with
    | deleteUser userId => exact absurd rfl (other userId)
    | _ => exact deletes.elim
  | @deleted userId user found =>
    obtain ⟨stored,active⟩ := Option.filter_eq_some_iff.mp found
    obtain ⟨mem,_⟩ := Table.findSound stored
    rw [retiredStored (show ({user with isActive := false} : UserModel).email = user.email from rfl)]
    constructor
    · rintro ⟨u,inside,same,gone⟩
      split at gone
      · rename_i here
        obtain rfl := Table.sameKey d.users.unique inside mem here
        exact .inr ⟨u,found,same⟩
      · exact .inl ⟨u,inside,same,gone⟩
    · rintro (⟨u,inside,same,gone⟩ | ⟨other,again,same⟩)
      · refine ⟨u,inside,same,?_⟩
        rw [if_neg]
        · exact gone
        · intro here
          obtain rfl := Table.sameKey d.users.unique inside mem here
          rw [gone] at active
          contradiction
      · cases Option.some.inj (found.symm.trans again)
        exact ⟨user,mem,same,by rw [if_pos rfl,flushedFresh]⟩

end Steps

section Runs
variable {t : Int} {calls : List (Request × Oracle)} {email : String}

def DeletedBefore (t : Int) (calls : List (Request × Oracle)) (email : String) : Prop :=
  ∃ n r env, calls[n]? = some (r,env) ∧ Deletes email (serveAll 0 (opening t) (calls.take n)).2.db r

theorem deletedLast (call : Request × Oracle) : DeletedBefore t (calls ++ [call]) email ↔
    DeletedBefore t calls email ∨ Deletes email (serveAll 0 (opening t) calls).2.db call.1 := by
  unfold DeletedBefore
  constructor
  · rintro ⟨n,r,env,sent,deletes⟩
    rcases Nat.lt_or_ge n calls.length with early | last
    · rw [List.getElem?_append_left early] at sent
      rw [List.take_append_of_le_length early.le] at deletes
      exact .inl ⟨n,r,env,sent,deletes⟩
    · have here : n = calls.length := by
        have := (List.getElem?_eq_some_iff.mp sent).1
        rw [List.length_append,List.length_singleton] at this
        omega
      subst here
      rw [List.getElem?_concat_length] at sent
      rw [List.take_left] at deletes
      cases sent
      exact .inr deletes
  · rintro (⟨n,r,env,sent,deletes⟩ | deletes)
    · have early := (List.getElem?_eq_some_iff.mp sent).1
      exact ⟨n,r,env,by rw [List.getElem?_append_left early]; exact sent,
        by rw [List.take_append_of_le_length early.le]; exact deletes⟩
    · exact ⟨calls.length,call.1,call.2,List.getElem?_concat_length,by rw [List.take_left]; exact deletes⟩

theorem runUsers (t : Int) (calls : List (Request × Oracle)) : EmailsUnique (serveAll 0 (opening t) calls).2.db ∧
    ∀ email, Retired email (serveAll 0 (opening t) calls).2.db.users ↔ DeletedBefore t calls email := by
  induction calls using List.reverseRecOn with
  | nil =>
    refine ⟨List.nodup_nil,fun email => ⟨?_,?_⟩⟩
    · rintro ⟨u,none,_⟩
      exact absurd none List.not_mem_nil
    · rintro ⟨n,r,env,none,_⟩
      simp at none
  | append_singleton calls call ih =>
    obtain ⟨r,env⟩ := call
    have reached : Reached (requestsOf (calls ++ [(r,env)])) .empty t calls.length (serveAll 0 (opening t) calls).2 :=
      reachedAll fun _ _ => requestsEarlier
    have step : UsersStep _ r (serve calls.length r (serveAll 0 (opening t) calls).2 env).2.db.users :=
      serveUsers reached (requestsLast calls r env)
    rw [serveLast]
    refine ⟨uniqueStep step ih.1,fun email => ?_⟩
    rw [retiredStep step,ih.2 email,deletedLast]

/-- After requests served one after another, create_user keeps its promise for an e-mail
exactly when no row of a deleted user has it (no request of the run deleted a user who had
it) and a new user, where he is one, can be stored. -/
theorem registersIffNeverDeleted (t : Int) (calls : List (Request × Oracle)) (data : CreateUserSchema) (k : Nat) (env : Oracle)
    (fresh : (serveAll 0 (opening t) calls).2.db.users.find (env 2).answer.uuid.text = none) :
    let w := (serveAll 0 (opening t) calls).2
    let stored := (∃ u ∈ w.db.users.rows, u.email = data.email) ∨ Storable data (env 1).answer.hash
    (Registers k data w env ↔ (∀ u ∈ w.db.users.rows, u.email = data.email → u.isActive = true) ∧ stored) ∧
    (Registers k data w env ↔ ¬ DeletedBefore t calls data.email ∧ stored) := by
  intro w stored
  obtain ⟨unique,retired⟩ := runUsers t calls
  have state : Registers k data w env ↔ (∀ u ∈ w.db.users.rows, u.email = data.email → u.isActive = true) ∧ stored :=
    registersIff unique fresh
  refine ⟨state,state.trans (and_congr_left' ?_)⟩
  rw [← retired]
  constructor
  · rintro active ⟨u,mem,same,gone⟩
    rw [active u mem same] at gone
    contradiction
  · intro none u mem same
    by_contra gone
    exact none ⟨u,mem,same,by simpa using gone⟩

end Runs

section Samples

def ana : CreateUserSchema := ⟨"Ana","ana@example.com","segredo"⟩

def enrolled : List (Request × Oracle) := [(.createUser ana,fun _ => tick 2)]

theorem secondRefused : Registers 1 ana (serveAll 0 (opening 0) enrolled).2 (fun _ => tick 3) ∧
    (serve 1 (.createUser ana) (serveAll 0 (opening 0) enrolled).2 fun _ => tick 3).1 = .error taken := by
  have active : ∀ u ∈ (serveAll 0 (opening 0) enrolled).2.db.users.rows, u.email = ana.email → u.isActive = true := by
    decide +kernel
  have registers := (registersIffNeverDeleted 0 enrolled ana 1 (fun _ => tick 3) (by decide +kernel)).1.mpr
    ⟨active,.inl (by decide +kernel)⟩
  exact ⟨registers,(registers.refused (by decide +kernel)).1⟩

def withdrawn : World := (serveAll 0 (opening 0) (enrolled ++ [(.deleteUser (sampleId 2).text,fun _ => tick 3)])).2

theorem returningRejected : (serve 2 (.createUser ana) withdrawn fun _ => tick 4).1 = .error .integrityError ∧
    ¬ Registers 2 ana withdrawn fun _ => tick 4 := by
  have rejected : (serve 2 (.createUser ana) withdrawn fun _ => tick 4).1 = .error .integrityError := by decide +kernel
  have kept : ∃ u ∈ withdrawn.db.users.rows, u.email = ana.email := by decide +kernel
  refine ⟨rejected,fun registers => ?_⟩
  have refused := (registers.refused kept).1
  rw [rejected] at refused
  cases refused

end Samples
end LibraryApi.EmailReuse
