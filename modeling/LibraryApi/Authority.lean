import LibraryApi.EmailReuse
import LibraryApi.FirstTurns
import LibraryApi.Particulars

/-! Who may do what, over whole runs. Every commit is owed to a client that was entitled to
it. In particular a role is given by an ADMIN only: where there is none, none ever appears,
and no route that takes one commits anything. -/
namespace LibraryApi.Authority
open Models CacheService KeyedTable Requests Effects Runs Security Api Application FirstTurns Particulars
open EmailReuse (userKey offUsersRan)
open Program (execAll stateAfter seenIn firstTurn)

section Roles
variable {d d' : Database} {k : String} {u' : UserModel}

def promotes (k : String) : Write → Prop
  | .insertUser row => row.role = .admin
  | .updateUser l c => l.id.text = k ∧ c.role ≠ l.role ∧ c.role = .admin
  | _ => False

def Ruled (d : Database) (k : String) : Prop := ∃ u, d.users.find k = some u ∧ u.role = .admin

theorem ruledRan {x : Write} (ran : x.exec d = .ok d') (ruled : Ruled d' k) : Ruled d k ∨ promotes k x := by
  obtain ⟨u',found,admin⟩ := ruled
  cases x with
  | insertUser row =>
    obtain ⟨_,_,added,rfl⟩ := Database.insertUserRan ran
    rw [Table.findInsert added] at found
    split at found
    · cases found; exact .inr admin
    · exact .inl ⟨u',found,admin⟩
  | updateUser l c =>
    obtain rfl := Database.updateUserRan ran
    replace found : (d.users.modify l.id.text (l.flush c) (userKey l c)).find k = some u' := found
    rw [Table.findModify] at found
    split at found
    · rename_i here
      obtain ⟨u,stored,rfl⟩ := Option.map_eq_some_iff.mp found
      by_cases same : c.role = l.role
      · exact .inl ⟨u,stored,by simpa [UserModel.flush,same] using admin⟩
      · exact .inr ⟨here.symm,same,by simpa [UserModel.flush,flushed,same] using admin⟩
    · exact .inl ⟨u',found,admin⟩
  | _ => exact .inl ⟨u',offUsersRan rfl ran ▸ found,admin⟩

theorem ruledAll {xs : List Write} (ran : execAll xs d = .ok d') (ruled : Ruled d' k) : Ruled d k ∨ ∃ x ∈ xs, promotes k x := by
  refine Program.execAllKeeps (R := fun d d' => Ruled d' k → Ruled d k ∨ ∃ x ∈ xs, promotes k x) (fun _ => .inl)
    (fun left right ruled => (right ruled).elim left .inr) (fun x mem _ _ ran ruled => ?_) ran ruled
  exact (ruledRan ran ruled).imp_right fun promoted => ⟨x,mem,promoted⟩

variable {seen : Seen} {own : Log} {before : Database} {r : Request} {writes : List Write}

theorem promotesBy (real : ∀ P, seen P → ∃ d t, P d t) (particular : Particular before writes)
    (e : Effect seen own before r writes) {x : Write} (mem : x ∈ writes) (promoted : promotes k x) : r = .updateRole k .admin := by
  cases e with
  | createUser =>
    cases List.mem_singleton.mp mem
    have plain := particular.users _ mem
    rw [show UserModel.role _ = .admin from promoted] at plain
    contradiction
  | updateUser =>
    cases List.mem_singleton.mp mem
    refine absurd ?_ promoted.2.1
    unfold UserService.renamed
    split
    · rfl
    · split <;> rfl
  | updateRole _ visible =>
    cases List.mem_singleton.mp mem
    obtain ⟨_,_,found⟩ := real _ visible
    obtain ⟨row,_⟩ := Option.filter_eq_some_iff.mp found
    rw [← promoted.1,(Table.findSound row).2,← promoted.2.2]
  | deleteUser =>
    cases List.mem_singleton.mp mem
    exact absurd rfl promoted.2.1
  | deleteAuthor =>
    rcases List.mem_cons.mp mem with rfl | inside
    · exact promoted.elim
    · obtain ⟨_,_,rfl⟩ := List.mem_map.mp inside
      exact promoted.elim
  | createLoan | returnLoan | cancelLoan => rcases List.mem_pair.mp mem with rfl | rfl <;> exact promoted.elim
  | _ => cases List.mem_singleton.mp mem; exact promoted.elim

end Roles
section Runs
variable {s : Deployment} {clients : Nat → Option Client} {d : Database} {t : Int} {h : Log} {k : String}

theorem taskRole {client : Client} {role : UserRole} (task : Client.task s client = some (.request (.updateRole k role))) :
    ∃ credentials, client = .bearer credentials (.updateUserRole k role) := by
  cases client with
  | scheduler => cases task
  | anonymous r => cases r <;> cases task
  | bearer credentials r =>
    cases r with
    | updateUserRole userId role' => cases task; exact ⟨credentials,rfl⟩
    | createReservation bookId =>
      obtain ⟨_,_,other⟩ := Option.map_eq_some_iff.mp task
      cases other
    | endpoint e => cases e <;> cases task
    | _ => cases task

def promoter (k : String) (client : Client) : Prop := ∃ credentials, client = .bearer credentials (.updateUserRole k .admin)

theorem commitRuled {m : Commit} (path : DetailedPath s clients d t (m :: h)) (ruled : Ruled m.after k) :
    Ruled m.before k ∨ ∃ client, clients m.client = some client ∧ promoter k client ∧ Admitted s (seenIn d t h m.clock) client := by
  have particular := commitParticular path
  cases path with
  | commit rest before ran clock known =>
    refine (ruledAll ran ruled).imp_right fun ⟨x,mem,promoted⟩ => ?_
    obtain ⟨⟨client,task,sent,done⟩,_⟩ := known
    cases task with
    | reminders =>
      have deed : Reminds _ m.writes := done.deed
      generalize m.writes = writes at deed mem
      cases deed
      cases List.mem_singleton.mp mem
      exact promoted.elim
    | request r =>
      have met (P) (seen : seenIn d t h m.clock P) : ∃ d₀ t₀, P d₀ t₀ := by
        obtain ⟨_,_,t₀,_,_,_,held⟩ := seen
        exact ⟨_,t₀,held⟩
      obtain rfl := promotesBy met particular done.deed mem promoted
      exact ⟨client,sent,taskRole done.set,done.admitted⟩

theorem pathRuled (path : DetailedPath s clients d t h) (ruled : Ruled (stateAfter d h) k) :
    Ruled d k ∨ ∃ later m h₀ client, h = later ++ m :: h₀ ∧ (¬ Ruled m.before k ∧ Ruled m.after k) ∧
      clients m.client = some client ∧ promoter k client := by
  induction path with
  | start => exact .inl ruled
  | @commit m h rest before ran clock known ih =>
    by_cases old : Ruled m.before k
    · rw [before] at old
      rcases ih old with start | ⟨later,m',h₀,client,rfl,promotion⟩
      · exact .inl start
      · exact .inr ⟨m :: later,m',h₀,client,rfl,promotion⟩
    · rcases commitRuled (.commit rest before ran clock known) ruled with had | ⟨client,sent,promotes,_⟩
      · exact absurd had old
      · exact .inr ⟨[],m,h,client,rfl,⟨old,ruled⟩,sent,promotes⟩

structure Promotion (s : Deployment) (clients : Nat → Option Client) (w : World) (k : String) (m : Commit) (h : Log) : Prop where
  made : ¬ Ruled m.before k ∧ Ruled m.after k
  asked : ∃ credentials since, h = since ++ w.history ∧
    clients m.client = some (.bearer credentials (.updateUserRole k .admin)) ∧
    Admitted s (seenIn w.db w.clock since m.clock) (.bearer credentials (.updateUserRole k .admin))

def takesAdmin : Client → Bool
  | .bearer _ r => needsAdmin r
  | _ => false

def Unruled (d : Database) : Prop := ∀ k, ¬ Ruled d k

theorem unruledAdmitted {clock : Int} {client : Client}
    (unruled : ∀ P, seenIn d t h clock P → ∃ d₀ t₀, P d₀ t₀ ∧ Unruled d₀) (admitted : Admitted s (seenIn d t h clock) client) :
    takesAdmin client = false := by
  cases client with
  | scheduler => rfl
  | anonymous r => rfl
  | bearer credentials r =>
    obtain ⟨_,_,user,_,_,_,seen,admin⟩ := admitted
    refine Bool.eq_false_iff.mpr fun needed => ?_
    obtain ⟨d₀,_,found,none⟩ := unruled _ seen
    exact none _ ⟨user,(Option.filter_eq_some_iff.mp found).1,admin needed⟩

theorem pathUnruled (none : Unruled d) (path : DetailedPath s clients d t h) : ∀ h₀, h₀ <:+ h → Unruled (stateAfter d h₀) := by
  refine Program.pathInvariant none (fun path unruled before k ruled => ?_) path
  rcases commitRuled path ruled with old | promotion
  · exact before k old
  · obtain ⟨_,_,⟨credentials,rfl⟩,admitted⟩ := promotion
    exact absurd (unruledAdmitted unruled admitted) (by simp [takesAdmin,needsAdmin])

theorem commitEntitled {m : Commit} (path : DetailedPath s clients d t (m :: h)) :
    (∃ client task, clients m.client = some client ∧ Done s d t h m client task) ∧ Particular m.before m.writes := by
  refine ⟨?_,commitParticular path⟩
  cases path with
  | commit _ _ _ _ known => exact known.1

/-- In every run of any sessions, each commit is the deed of a client that had been admitted
to it by what it saw since its first turn. -/
theorem everyCommitEntitled (s : Deployment) (clients : Nat → Option Client) (d : Database) (x : Cache) (t : Int) (moves : Moves) :
    let began := receive s (settled d x t) clients
    Program.Along (fun h m => (∃ client task, clients m.client = some client ∧
        DoneSince s (firstTurn began moves m.client) h m client task) ∧ Particular m.before m.writes)
      (began.run moves).world.history := by
  refine Program.splitAlong fun split => ⟨doneSinceTurn split,?_⟩
  have path := (detailedPath s clients (w := settled d x t) rfl moves).1
  rw [split] at path
  exact commitParticular path.suffix

/-- Whoever is an ADMIN was one at the start, or was made one by a session that had seen an
active ADMIN behind its own token since its first turn. -/
theorem adminsMadeByAdmins (s : Deployment) (clients : Nat → Option Client) (d : Database) (x : Cache) (t : Int) (moves : Moves)
    (k : String) :
    let began := receive s (settled d x t) clients
    let final := (began.run moves).world
    Ruled final.db k → Ruled d k ∨ ∃ later m h, final.history = later ++ m :: h ∧
      Promotion s clients (firstTurn began moves m.client) k m h := by
  intro began final ruled
  obtain ⟨path,last⟩ := detailedPath s clients (w := settled d x t) rfl moves
  refine (pathRuled path (last ▸ ruled)).imp_right fun ⟨later,m,h,client,split,made,sent,credentials,same⟩ => ?_
  obtain ⟨client',_,sent',since,grown,done⟩ := doneSinceTurn split
  cases Option.some.inj (sent.symm.trans sent')
  subst same
  exact ⟨later,m,h,split,made,credentials,since,grown,sent,done.admitted⟩

/-- Where nobody is an ADMIN nobody becomes one, and no client of a route that takes an ADMIN
ever commits. -/
theorem noAdminAppears (s : Deployment) (clients : Nat → Option Client) {d : Database} (x : Cache) (t : Int) (moves : Moves)
    (none : Unruled d) :
    let final := ((receive s (settled d x t) clients).run moves).world
    Unruled final.db ∧ ∀ m ∈ final.history, ∃ client, clients m.client = some client ∧ takesAdmin client = false := by
  intro final
  obtain ⟨path,last⟩ := detailedPath s clients (w := settled d x t) rfl moves
  have unruled := pathUnruled none path
  refine ⟨last ▸ unruled _ List.suffix_rfl,fun m mem => ?_⟩
  obtain ⟨later,h₀,split⟩ := List.append_of_mem mem
  obtain ⟨⟨client,_,sent,done⟩,_⟩ := commitEntitled (h := h₀) (m := m) (split ▸ path).suffix
  refine ⟨client,sent,unruledAdmitted (fun P seen => ?_) done.admitted⟩
  obtain ⟨more,h₁,t₁,rfl,_,_,held⟩ := seen
  exact ⟨_,t₁,held,unruled h₁ ⟨later ++ m :: more,by rw [split]; simp⟩⟩

def promotingTwice (j : Nat) : Option Client :=
  if j < 2 then some (.bearer (sampleId 2).text (.updateUserRole (sampleId 2).text .admin)) else none

def governedShelf : Database := {ruledShelf 0 with
  users := ⟨[{sampleUser with role := .admin},⟨sampleId 6,"Bia","bia@example.com","hash",0,true,.user⟩],by decide⟩}

def promotingBia (j : Nat) : Option Client :=
  if j < 2 then some (.bearer (sampleId 2).text (.updateUserRole (sampleId 6).text .admin)) else none

theorem biaPlain : ¬ Ruled governedShelf (sampleId 6).text := by
  rintro ⟨u,found,admin⟩
  cases found
  contradiction

theorem biaRuled :
    Ruled ((receive plainTokens (settled governedShelf [] 0) promotingBia).run (inTurn 20)).world.db (sampleId 6).text := by
  have role : ((((receive plainTokens (settled governedShelf [] 0) promotingBia).run (inTurn 20)).world.db.users.find
      (sampleId 6).text).map UserModel.role) = some .admin := by decide +kernel
  exact Option.map_eq_some_iff.mp role

theorem governedMade :
    let began := receive plainTokens (settled governedShelf [] 0) promotingBia
    ¬ Ruled governedShelf (sampleId 6).text ∧ ∃ later m h, (began.run (inTurn 20)).world.history = later ++ m :: h ∧
      Promotion plainTokens promotingBia (firstTurn began (inTurn 20) m.client) (sampleId 6).text m h :=
  ⟨biaPlain,(adminsMadeByAdmins plainTokens promotingBia governedShelf [] 0 (inTurn 20) (sampleId 6).text biaRuled).resolve_left biaPlain⟩

theorem shelfUnruled (copies : Int) : Unruled (sampleShelf copies) := by
  rintro k ⟨u,found,admin⟩
  cases List.mem_singleton.mp (Table.findSound found).1
  contradiction

theorem promotingTwiceUnruled :
    let final := ((receive plainTokens (settled (sampleShelf 0) [] 0) promotingTwice).run (inTurn 20)).world
    Unruled final.db ∧ ∀ m ∈ final.history, ∃ client, promotingTwice m.client = some client ∧ takesAdmin client = false :=
  noAdminAppears plainTokens promotingTwice [] 0 (inTurn 20) (shelfUnruled 0)

end Runs
end LibraryApi.Authority
