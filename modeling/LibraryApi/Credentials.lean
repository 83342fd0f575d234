import LibraryApi.Csv
import LibraryApi.FirstTurns
import LibraryApi.InvariantRules
import LibraryApi.Json
import LibraryApi.JointRules
import LibraryApi.Permanence

/-! What a bearer token is worth. A session that comes with a dead token, or that of a user
who is gone, does nothing, whatever the others do meanwhile. A login answers a token for the
user who has the e-mail and the password, and it dies when its minutes are over. -/
namespace LibraryApi.Credentials
open Models CacheService KeyedTable Repositories Requests ServiceRules Runs Controllers Security Api Application FirstTurns Permanence
open ReminderRun (utc)
open Program (wp wpBind Within Held seenIn mine firstTurn)

section Contracts
variable {s : Deployment} {w w' : World} {j : Nat} {α : Type} {effect : Log → Commit → Prop}

def Forth (w w' : World) : Prop := Kept w.db w'.db ∧ w.clock ≤ w'.clock

def forth (j : Nat) (effect : Log → Commit → Prop) : Contract := ⟨j,Forth,fun _ => True,effect⟩

theorem forthRefl (w : World) : Forth w w := ⟨keptRefl _,Int.le_refl _⟩

theorem forthTrans {a b c : World} (left : Forth a b) (right : Forth b c) : Forth a c :=
  ⟨keptTrans left.1 right.1,Int.le_trans left.2 right.2⟩

theorem forthSteady : (forth j effect).Steady := ⟨fun left right => forthTrans left right,fun _ => forthRefl _⟩

theorem forthRun (s : Deployment) (clients : Nat → Option Client) (d : Database) (x : Cache) (t : Int) (a b : Moves) :
    Within Forth ((receive s (settled d x t) clients).run a) b := by
  refine Program.withinRun fun more m => ?_
  rw [← Program.State.runAppend,← Program.State.runAppend,← List.append_assoc]
  have next := Program.State.runAppend (receive s (settled d x t) clients) (a ++ more) [m]
  refine ⟨nothingLost s clients d x t (a ++ more) [m],?_⟩
  rw [next]
  exact Program.moveClock _ m

/-- The token is forged or out of time, or its user is gone. -/
def Dead (s : Deployment) (credentials : String) (w : World) : Prop :=
  ∀ claims, s.verified credentials = some claims → (∃ e ∈ claims.exp, e * 1000000 ≤ w.clock) ∨
    ∀ userId ∈ claims.sub, ∃ u, w.db.users.find userId = some u ∧ u.isActive = false

theorem goneKept {userId : String} (kept : Kept w.db w'.db) (gone : ∃ u, w.db.users.find userId = some u ∧ u.isActive = false) :
    UserRepository.findById w'.db userId = none := by
  obtain ⟨u,found,off⟩ := gone
  obtain ⟨u',found',same⟩ := kept.users userId u found
  unfold UserRepository.findById
  rw [found']
  simp [same.gone off]

theorem shutUser {sub role : Option String} {k : UserModel → Service α}
    (gone : ∀ userId ∈ sub, ∃ u, w.db.users.find userId = some u ∧ u.isActive = false) :
    wp (forth j effect) (fun _ _ _ => False) (fun _ _ => True) (getCurrentUser (.payload sub role) >>= k) [] w := by
  refine wpBind.mpr (wpBind.mpr (Program.selectRule fun w₁ r₁ => ?_))
  rw [Program.viewNil]
  have none : sub.bind (UserRepository.findById w₁.db) = none := by
    cases sub with
    | none => rfl
    | some userId => exact goneKept r₁.1 (gone userId rfl)
  rw [none]
  trivial

theorem deadRaises {credentials : String} {r : Route} (dead : Dead s credentials w) :
    wp (forth j effect) (fun _ _ _ => False) (fun _ _ => True) ((Client.bearer credentials r).serve s) [] w := by
  show wp _ _ _ (decodeToken s credentials >>= fun token => r.serve s token) [] w
  rw [decodeThen]
  cases found : s.verified credentials with
  | none =>
    obtain ⟨k,same,_⟩ : Guarded (needsAdmin r) .invalid (r.serve s .invalid) := routeGuarded s r
    rw [same]
    trivial
  | some claims =>
    refine wpBind.mpr fun w₁ r₁ n => ?_
    obtain ⟨k,same,_⟩ : Guarded (needsAdmin r) (claimed claims (w₁.clock + n)) (r.serve s _) := routeGuarded s r
    show wp (forth j effect) _ _ (r.serve s (claimed claims (w₁.clock + n))) [] _
    rw [same]
    cases decoded : claimed claims (w₁.clock + n) with
    | expired => trivial
    | invalid => trivial
    | payload sub role =>
      obtain ⟨rfl,lasting⟩ := claimedPayload decoded
      rcases dead claims found with ⟨e,exp,past⟩ | gone
      · have still := lasting e exp
        have later := r₁.2
        omega
      · refine shutUser fun userId named => ?_
        obtain ⟨u,stored,off⟩ := gone userId named
        obtain ⟨u',stored',same⟩ := r₁.1.users userId u stored
        exact ⟨u',stored',same.gone off⟩

structure Granted (s : Deployment) (data : LoginSchema) (then_ : Int) (token : String) (w : World) : Prop where
  user : ∃ k user t role, token = s.sign ⟨some k,some ((t + s.jwtExpireMinutes * 60000000) / 1000000),some role⟩ ∧
    w.db.users.find k = some user ∧ user.email = data.email ∧ s.verifyPassword data.password user.password = true ∧
    then_ ≤ t ∧ t ≤ w.clock

theorem grantedForth {data : LoginSchema} {then_ : Int} {token : String} (forth : Forth w w') (h : Granted s data then_ token w) :
    Granted s data then_ token w' := by
  obtain ⟨k,user,t,role,same,found,email,password,after,before⟩ := h
  obtain ⟨user',found',kept⟩ := forth.1.users k user found
  exact ⟨k,user',t,role,same,found',kept.email.trans email,kept.password ▸ password,after,Int.le_trans before forth.2⟩

theorem loginGrants (data : LoginSchema) : wp (forth j fun _ _ => True)
    (fun body _ w' => ∀ token, body = .accessToken token → Granted s data w.clock token w') (fun _ _ => True)
    ((Client.anonymous (.login data)).serve s) [] w := by
  refine wpBind.mpr (wpBind.mpr (Program.selectRule fun w₁ r₁ => ?_))
  rw [Program.viewNil]
  generalize listed : UserRepository.findByEmail w₁.db data.email = rows
  match rows with
  | [] => trivial
  | _ :: _ :: _ => trivial
  | [user] =>
    have row : user ∈ w₁.db.users.rows ∧ user.email = data.email := by
      have mem : user ∈ UserRepository.findByEmail w₁.db data.email := by rw [listed]; exact List.mem_singleton_self _
      have hit := List.mem_filter.mp mem
      simp only [Bool.and_eq_true,beq_iff_eq] at hit
      exact ⟨hit.1,hit.2.1⟩
    have stored := Table.findComplete row.1
    refine refuseRule (fun _ => trivial) fun valid => wpBind.mpr fun w₂ r₂ n token same => ?_
    cases same
    obtain ⟨user',stored',kept⟩ := r₂.1.users _ user stored
    refine ⟨user.id.text,user',w₂.clock + n,roleValue user.role,rfl,stored',kept.email.trans row.2,?_,?_,Int.le_refl _⟩
    · rw [kept.password]
      simpa using valid
    · have later := Int.le_trans r₁.2 r₂.2
      omega

end Contracts

section Runs
variable {s : Deployment} {clients : Nat → Option Client} {d : Database} {x : Cache} {t : Int}

/-- A session that has yet to begin when its token is dead commits nothing and is answered
nothing, however the run goes on. -/
theorem deadShut (s : Deployment) {clients : Nat → Option Client} (d : Database) (x : Cache) (t : Int) (a b : Moves) {j : Nat}
    {credentials : String} {r : Route} (sent : clients j = some (.bearer credentials r)) (waiting : ∀ m ∈ a, m.1 ≠ j)
    (dead : Dead s credentials ((receive s (settled d x t) clients).run a).world) :
    let final := (receive s (settled d x t) clients).run (a ++ b)
    mine j final.world.history = [] ∧ ∀ body, final.pool j ≠ some (.finished (.ok body)) := by
  intro final
  have split : final = ((receive s (settled d x t) clients).run a).run b := Program.State.runAppend _ _ _
  have idle : mine j ((receive s (settled d x t) clients).run a).world.history = [] := by
    refine List.eq_nil_iff_forall_not_mem.mpr fun m mem => ?_
    obtain ⟨here,own⟩ := List.mem_filter.mp mem
    rcases Program.runClients (receive s (settled d x t) clients) a m here with old | ⟨m',inside,client⟩
    · contradiction
    · exact waiting m' inside (client.trans (by simpa using own))
  have held : ∀ th, ((receive s (settled d x t) clients).run a).pool j = some th →
      Held (forth j fun _ _ => False) (fun _ _ => False) (fun _ _ => True) ((receive s (settled d x t) clients).run a).world th := by
    intro th there
    rw [waitingThread sent waiting] at there
    cases there
    exact deadRaises dead
  have within := forthRun s clients d x t a b
  refine ⟨?_,fun body ended => ?_⟩
  · rw [split]
    exact (Program.runSilent (c := forth j fun _ _ => False) (fun _ _ => id) forthSteady (fun _ _ _ _ => id) (fun _ _ _ _ => id)
      (forthRefl _) (fun _ _ => trivial) within held).trans idle
  · rw [split] at ended
    exact Program.runHeld (c := forth j fun _ _ => False) forthSteady (fun _ _ _ _ => id) (fun _ _ _ _ => id) (forthRefl _)
      (fun _ _ => trivial) within held _ ended

theorem loginHeld (s : Deployment) {clients : Nat → Option Client} (d : Database) (x : Cache) (t : Int) (moves : Moves) {i : Nat}
    {data : LoginSchema} {token : String} (sent : clients i = some (.anonymous (.login data)))
    (answered : ((receive s (settled d x t) clients).run moves).pool i = some (.finished (.ok (.accessToken token)))) :
    Granted s data t token ((receive s (settled d x t) clients).run moves).world := by
  have held : ∀ th, (receive s (settled d x t) clients).pool i = some th →
      Held (forth i fun _ _ => True) (fun body w => ∀ token, body = .accessToken token → Granted s data t token w) (fun _ _ => True)
        (settled d x t) th := by
    intro th there
    have here := waitingThread (s := s) (d := d) (x := x) (t := t) (a := []) sent (fun _ mem => nomatch mem)
    cases Option.some.inj (there.symm.trans here)
    exact loginGrants data
  refine Program.runHeld (c := forth i fun _ _ => True) forthSteady (fun body w w' r granted token same => ?_) (fun _ _ _ _ => id)
    (forthRefl _) (fun _ _ => trivial) (forthRun s clients d x t [] moves) held _ answered token rfl
  exact grantedForth r (granted token same)

/-- A token from a login is dead when its minutes are over. -/
theorem loginExpires (s : Deployment) (signed : ∀ claims, s.verified (s.sign claims) = some claims)
    {clients : Nat → Option Client} (d : Database) (x : Cache) (t : Int) (a b more : Moves) {i j : Nat} {data : LoginSchema}
    {token : String} {r : Route} (sentᵢ : clients i = some (.anonymous (.login data)))
    (answered : ((receive s (settled d x t) clients).run a).pool i = some (.finished (.ok (.accessToken token))))
    (sentⱼ : clients j = some (.bearer token r)) (waiting : ∀ m ∈ a ++ b, m.1 ≠ j)
    (ended : ((receive s (settled d x t) clients).run a).world.clock + s.jwtExpireMinutes * 60000000 ≤
      ((receive s (settled d x t) clients).run (a ++ b)).world.clock) :
    let final := (receive s (settled d x t) clients).run (a ++ b ++ more)
    mine j final.world.history = [] ∧ ∀ body, final.pool j ≠ some (.finished (.ok body)) := by
  refine deadShut s d x t (a ++ b) more sentⱼ waiting fun claims verified => .inl ?_
  obtain ⟨k,user,t₁,role,rfl,_,_,_,_,before⟩ := loginHeld s d x t a sentᵢ answered
  rw [signed] at verified
  cases verified
  refine ⟨_,rfl,?_⟩
  omega

/-- A token from a login commits for nobody but the user whose e-mail and password it took,
seen active since the first turn of the session that commits. -/
theorem loginActsFor (s : Deployment) (signed : ∀ claims, s.verified (s.sign claims) = some claims)
    {clients : Nat → Option Client} (d : Database) (x : Cache) (t : Int) (moves : Moves) {i j : Nat} {data : LoginSchema}
    {token : String} {r : Route} (sentᵢ : clients i = some (.anonymous (.login data)))
    (answered : ((receive s (settled d x t) clients).run moves).pool i = some (.finished (.ok (.accessToken token))))
    (sentⱼ : clients j = some (.bearer token r)) :
    let began := receive s (settled d x t) clients
    let final := (began.run moves).world
    let w := firstTurn began moves j
    ∃ k user, final.db.users.find k = some user ∧ user.email = data.email ∧ s.verifyPassword data.password user.password = true ∧
      Program.Along (fun h m => m.client = j → ∃ row task since, h = since ++ w.history ∧ Route.task (some k) r = some task ∧
        (seenIn w.db w.clock since m.clock fun d _ => UserRepository.findById d k = some row) ∧
        (needsAdmin r = true → row.role = .admin) ∧
        Deed (seenIn w.db w.clock since m.clock) (mine j since) m.before task m.writes) final.history := by
  obtain ⟨k,user,t₁,role,rfl,found,email,password,_,_⟩ := loginHeld s d x t moves sentᵢ answered
  refine ⟨k,user,found,email,password,Program.splitAlong fun split own => ?_⟩
  obtain ⟨client,task,sent,since,grown,done⟩ := doneSinceTurn split
  rw [own,sentⱼ] at sent
  cases sent
  obtain ⟨claims,userId,row,verified,named,_,seen,admin⟩ := done.admitted
  rw [signed] at verified
  cases verified
  cases named
  have set := done.set
  simp only [Client.task,subject,signed,Option.bind_some] at set
  rw [own] at grown seen
  exact ⟨row,task,since,grown,set,seen,admin,own ▸ done.deed⟩

end Runs

section Samples

def writtenTokens : Deployment where
  verifyPassword plainPassword hashedPassword := plainPassword == hashedPassword
  sign claims := Csv.write [claims.sub.toList,(claims.exp.map fun e => String.ofList (Json.writeInt e)).toList,claims.role.toList]
  verified token := match Csv.read token with
    | some [sub,exp,role] => some ⟨sub.head?,exp.head?.bind fun text => (Json.readInt text.toList).map Prod.fst,role.head?⟩
    | _ => none
  jwtExpireMinutes := 60
  zone := utc

theorem writtenSigned (claims : Claims) : writtenTokens.verified (writtenTokens.sign claims) = some claims := by
  obtain ⟨sub,exp,role⟩ := claims
  have number (e : Int) : ∃ rest, Json.readInt (Json.writeInt e) = some (e,rest) := by
    obtain ⟨c,tail,written,_,read⟩ := @Json.readIntWritten e [] (fun _ head => absurd head (Option.not_mem_none _))
    rw [List.append_nil,← written] at read
    exact ⟨[],read⟩
  simp only [writtenTokens,Csv.readWritten]
  cases exp with
  | none => cases sub <;> cases role <;> rfl
  | some e => cases sub <;> cases role <;> simpa using number e

def goneShelf : Database := {sampleShelf 0 with users := ⟨[{sampleUser with isActive := false}],by decide⟩}

def askingTwice (j : Nat) : Option Client := if j < 2 then some (.bearer (sampleId 2).text .me) else none

theorem askingTwiceShut :
    let final := (receive plainTokens (settled goneShelf [] 0) askingTwice).run (inTurn 1 ++ inTurn 20)
    mine 1 final.world.history = [] ∧ ∀ body, final.pool 1 ≠ some (.finished (.ok body)) := by
  refine deadShut plainTokens goneShelf [] 0 (inTurn 1) (inTurn 20) (if_pos (by decide)) (fun m mem => ?_) fun claims verified => .inr ?_
  · cases List.mem_singleton.mp mem
    decide
  · cases verified
    intro userId named
    cases named
    exact ⟨_,rfl,rfl⟩

def loggingIn : LoginSchema := ⟨"ana@example.com","hash"⟩

def shelfToken : String := writtenTokens.sign ⟨some (sampleId 2).text,some 3600,some "USER"⟩

def loginThenAsk : Nat → Option Client
  | 0 => some (.anonymous (.login loggingIn))
  | 1 => some (.bearer shelfToken (.createReservation (sampleId 3).text))
  | 2 => some (.bearer shelfToken .me)
  | _ => none

def loginMoves : Moves := [(0,tick 0),(0,tick 0),(0,tick 0)]

theorem loginAnswered : ((receive writtenTokens (settled (sampleShelf 0) [] 0) loginThenAsk).run loginMoves).pool 0 =
    some (.finished (.ok (.accessToken shelfToken))) := rfl

def hourLater : Moves := [(2,{tick 0 with elapsed := 3600000000})]

theorem loginThenAskExpired :
    let final := (receive writtenTokens (settled (sampleShelf 0) [] 0) loginThenAsk).run (loginMoves ++ hourLater ++ inTurn 20)
    mine 1 final.world.history = [] ∧ ∀ body, final.pool 1 ≠ some (.finished (.ok body)) :=
  loginExpires writtenTokens writtenSigned (sampleShelf 0) [] 0 loginMoves hourLater (inTurn 20) rfl loginAnswered rfl (by decide)
    (by decide)

def reserving : Moves := loginMoves ++ List.replicate 20 (1,tick 7)

theorem reservingAnswered : ((receive writtenTokens (settled (sampleShelf 0) [] 0) loginThenAsk).run reserving).pool 0 =
    some (.finished (.ok (.accessToken shelfToken))) := by
  rw [reserving,Program.State.runAppend,Program.runOthers (fun m mem => ?_)]
  · exact loginAnswered
  · rw [List.eq_of_mem_replicate mem]
    decide

theorem reservingCommits :
    (mine 1 ((receive writtenTokens (settled (sampleShelf 0) [] 0) loginThenAsk).run reserving).world.history).length = 2 := by
  decide +kernel

theorem loginThenAskActs :
    let began := receive writtenTokens (settled (sampleShelf 0) [] 0) loginThenAsk
    let final := (began.run reserving).world
    let w := firstTurn began reserving 1
    (mine 1 final.history).length = 2 ∧
    ∃ k user, final.db.users.find k = some user ∧ user.email = loggingIn.email ∧
      writtenTokens.verifyPassword loggingIn.password user.password = true ∧
      Program.Along (fun h m => m.client = 1 → ∃ row task since, h = since ++ w.history ∧
        Route.task (some k) (.createReservation (sampleId 3).text) = some task ∧
        (seenIn w.db w.clock since m.clock fun d _ => UserRepository.findById d k = some row) ∧
        (needsAdmin (.createReservation (sampleId 3).text) = true → row.role = .admin) ∧
        Deed (seenIn w.db w.clock since m.clock) (mine 1 since) m.before task m.writes) final.history :=
  ⟨reservingCommits,
    loginActsFor writtenTokens writtenSigned (sampleShelf 0) [] 0 reserving rfl reservingAnswered (j := 1) rfl⟩

end Samples
end LibraryApi.Credentials
