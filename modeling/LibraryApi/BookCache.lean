import LibraryApi.CatalogueHistory
import LibraryApi.LoanCache
import LibraryApi.CacheKeys

/-! The cache against the catalogue, one request after another with Redis up. An entry
is right as long as it is what a miss would answer now; every operation that can change
an answer on books lets go of all the entries that may repeat it. -/
namespace LibraryApi.BookCache
open Models CacheService KeyedTable Repositories Requests Effects Runs CacheRules CatalogueHistory
open BookService (detailKey listKey serializeBook)
open BookRepository (Filters selects findById withAuthors)
open LoanCache (onItsOwn worldAfter worldLast reachedBefore)
open CommittedRows (ranOne)
open Program (wp wpBind wpMono lone loneSelect)

abbrev RowOrder := Pagination → Filters → List (BookModel × AuthorModel) → List Nat

def bookAnswer (d : Database) (bookId : String) : Option Payload :=
  (findById d bookId).map fun row => .book (serializeBook row.1 row.2)

def listAnswer (ord : RowOrder) (lower : Char → Char) (p : Pagination) (f : Filters) (d : Database) : Payload :=
  let found := (withAuthors d).filter (selects lower f)
  .books ⟨(p.rows (arranged (ord p f (withAuthors d)) found)).map (fun b => serializeBook b.1 b.2),
    found.length,p.page,p.size⟩

def fresh (a : Answer) (x : Cache) : Cache := x.filter fun e => !a.expired.contains e.1

def missed (w : World) (env : Oracle) (key : String) : Bool := ((fresh (env 0).answer w.ext).lookup key).isNone

abbrev Storer := String → Option (Pagination × Filters)

def noted (w : World) (env : Oracle) (r : Request) (tell : Storer) : Storer := match r with
  | .listBooks p f => if missed w env (listKey p f) then
      fun key => if key = listKey p f then some (p,f) else tell key
    else tell
  | _ => tell

def storers (n : Nat) (w : World) (tell : Storer) : List (Request × Oracle) → Storer
  | [] => tell
  | (r,env) :: calls => storers (n+1) (serve n r w env).2 (noted w env r tell) calls

theorem storersLast (n : Nat) (w : World) (tell : Storer) (calls : List (Request × Oracle)) (r : Request)
    (env : Oracle) : storers n w tell (calls ++ [(r,env)]) =
      noted (serveAll n w calls).2 env r (storers n w tell calls) := by
  induction calls generalizing n w tell with
  | nil => rfl
  | cons call rest ih => exact ih (n+1) _ _

structure Regular (ord : RowOrder) (lower : Char → Char) (w : World) (r : Request) (env : Oracle) : Prop where
  up : ∀ n, (env n).answer.redisUp = true
  lower : ∀ n, (env n).answer.lower = lower
  order : ∀ p f, r = .listBooks p f → ∀ n, (env n).answer.order = ord p f (withAuthors w.db)

section Keys

def ofList (key : String) : Prop := "books:list:".toList <+: key.toList

theorem listKeyOf (p : Pagination) (f : Filters) : ofList (listKey p f) := by
  unfold ofList listKey
  simp only [String.toList_append,List.append_assoc]
  exact ⟨_,rfl⟩

theorem listSwept {key : String} (listed : ofList key) : Wildcard.glob "books:list*" key = true := by
  refine (Wildcard.globPrefix (p := "books:list") (by decide) key).mpr ?_
  obtain ⟨rest,same⟩ := listed
  exact ⟨':' :: rest,same⟩

theorem detailSwept (bookId : String) : Wildcard.glob "book:*" (detailKey bookId) = true := by
  refine (Wildcard.globPrefix (p := "book:") (by decide) (detailKey bookId)).mpr ?_
  unfold detailKey
  rw [String.toList_append]
  exact ⟨_,rfl⟩

theorem detailSame {a b : String} (same : detailKey a = detailKey b) : a = b :=
  (String.append_right_inj _).mp same

theorem detailText (bookId : String) : (detailKey bookId).toList = 'b' :: 'o' :: 'o' :: 'k' :: ':' :: bookId.toList := by
  unfold detailKey
  rw [String.toList_append]; rfl

theorem listText {key : String} (listed : ofList key) : ∃ rest, key.toList = 'b' :: 'o' :: 'o' :: 'k' :: 's' :: rest := by
  obtain ⟨rest,same⟩ := listed
  exact ⟨':' :: 'l' :: 'i' :: 's' :: 't' :: ':' :: rest,same.symm⟩

theorem detailNotList (bookId : String) : ¬ ofList (detailKey bookId) := by
  intro listed
  obtain ⟨rest,same⟩ := listText listed
  rw [detailText] at same
  simp at same

theorem filedElsewhere {r : Request} {e : String × Payload} (filed : filedBy r e)
    (detail : ∀ bookId, r ≠ .getBook bookId) (list : ∀ p f, r ≠ .listBooks p f) :
    (∀ bookId, e.1 ≠ detailKey bookId) ∧ ¬ ofList e.1 := by
  have loans (start : "loans:".toList <+: e.1.toList) : (∀ bookId, e.1 ≠ detailKey bookId) ∧ ¬ ofList e.1 := by
    obtain ⟨rest,key⟩ := start
    have text : "loans:".toList = ['l','o','a','n','s',':'] := rfl
    rw [text] at key
    replace key := key.symm
    refine ⟨fun bookId same => ?_,fun listed => ?_⟩
    · rw [same,detailText] at key
      simp at key
    · obtain ⟨tail,same⟩ := listText listed
      rw [key] at same
      simp at same
  have under (pre : String) (rest : List Char) (home : "loans:".toList <+: pre.toList) :
      "loans:".toList <+: pre.toList ++ rest := home.trans (List.prefix_append _ _)
  cases r with
  | getBook bookId => exact absurd rfl (detail bookId)
  | listBooks p f => exact absurd rfl (list p f)
  | getLoan loanId =>
    obtain ⟨key,_⟩ := filed
    refine loans ?_
    rw [key,LoanService.itemKey,String.toList_append]
    exact under "loans:item:" _ (by decide +kernel)
  | listLoans p f =>
    obtain ⟨key,_⟩ := filed
    refine loans ?_
    rw [key]
    unfold LoanService.listKey
    simp only [String.toList_append,List.append_assoc]
    exact under "loans:list:" _ (by decide +kernel)
  | listLoansByUser userId p status =>
    obtain ⟨key,_⟩ := filed
    refine loans ?_
    rw [key]
    unfold LoanService.userKey
    simp only [String.toList_append,List.append_assoc]
    exact under "loans:user:" _ (by decide +kernel)
  | _ => exact filed.elim

end Keys

section Reads
variable {j : Nat} {w : World} {env : Oracle} {p : Pagination} {f : Filters} {k : String}

theorem getServed {α : Type} {key : String} {g : Option Payload → Service α} {pending : List Write}
    (up : (env 0).answer.redisUp = true) : Program.alone j (get key >>= g) pending w env =
      Program.alone j (g ((fresh (env 0).answer w.ext).lookup key)) pending
        {w with ext := fresh (env 0).answer w.ext} fun n => env (n+1) := by
  show Program.alone j (.call _ g) pending w env = _
  simp only [Program.alone,up,if_true]
  rfl

theorem setServed {α : Type} {key : String} {payload : Payload} {g : Unit → Service α}
    {pending : List Write} (up : (env 0).answer.redisUp = true) :
    Program.alone j (set key payload >>= g) pending w env = Program.alone j (g ()) pending
      {w with ext := (key,payload) :: (fresh (env 0).answer w.ext).filter (fun e => e.1 != key)}
        fun n => env (n+1) := by
  show Program.alone j (.call _ g) pending w env = _
  simp only [Program.alone,up,if_true]
  rfl

theorem listHit {payload : Payload} (up : ∀ n, (env n).answer.redisUp = true)
    (found : (fresh (env 0).answer w.ext).lookup (listKey p f) = some payload) :
    serve j (.listBooks p f) w env =
      (.ok (.read payload),{w with ext := fresh (env 0).answer w.ext}.release j) := by
  show Program.alone j (answer .read (get (listKey p f) >>= _)) [] w env = _
  unfold answer
  rw [Program.bindBind,getServed (up 0),found]
  rfl

theorem listMiss (up : ∀ n, (env n).answer.redisUp = true)
    (missing : (fresh (env 0).answer w.ext).lookup (listKey p f) = none) :
    let payload := listAnswer (fun _ _ _ => (env 1).answer.order) (env 2).answer.lower p f w.db
    let left := (fresh (env 5).answer (fresh (env 0).answer w.ext)).filter fun e => e.1 != listKey p f
    serve j (.listBooks p f) w env =
      (.ok (.read payload),{w with ext := (listKey p f,payload) :: left}.release j) := by
  intro payload left
  show Program.alone j (answer .read (get (listKey p f) >>= _)) [] w env = _
  unfold answer
  rw [Program.bindBind,getServed (up 0),missing]
  show Program.alone j (set (listKey p f) payload >>= fun _ => pure (Response.read payload)) []
    {w with ext := fresh (env 0).answer w.ext} (fun n => env (n+5)) = _
  rw [setServed (up 5)]
  rfl

theorem bookHit {payload : Payload} (up : ∀ n, (env n).answer.redisUp = true)
    (found : (fresh (env 0).answer w.ext).lookup (detailKey k) = some payload) :
    serve j (.getBook k) w env =
      (.ok (.read payload),{w with ext := fresh (env 0).answer w.ext}.release j) := by
  show Program.alone j (answer .read (get (detailKey k) >>= _)) [] w env = _
  unfold answer
  rw [Program.bindBind,getServed (up 0),found]
  rfl

theorem bookMiss (up : ∀ n, (env n).answer.redisUp = true)
    (missing : (fresh (env 0).answer w.ext).lookup (detailKey k) = none) :
    serve j (.getBook k) w env = match bookAnswer w.db k with
      | none => (.error (.notFound "Livro não encontrado"),{w with ext := fresh (env 0).answer w.ext}.release j)
      | some payload =>
        let left := (fresh (env 2).answer (fresh (env 0).answer w.ext)).filter fun e => e.1 != detailKey k
        (.ok (.read payload),{w with ext := (detailKey k,payload) :: left}.release j) := by
  show Program.alone j (answer .read (get (detailKey k) >>= _)) [] w env = _
  unfold answer
  rw [Program.bindBind,getServed (up 0),missing]
  show Program.alone j ((require (.notFound "Livro não encontrado") (findById w.db k) >>= fun row =>
    set (detailKey k) (.book (serializeBook row.1 row.2)) >>= fun _ =>
      pure (Payload.book (serializeBook row.1 row.2))) >>= fun payload => pure (Response.read payload)) []
    {w with ext := fresh (env 0).answer w.ext} (fun n => env (n+2)) = _
  unfold bookAnswer
  cases findById w.db k with
  | none => rfl
  | some row =>
    show Program.alone j (set (detailKey k) (.book (serializeBook row.1 row.2)) >>= fun _ =>
      pure (Response.read (.book (serializeBook row.1 row.2)))) []
      {w with ext := fresh (env 0).answer w.ext} (fun n => env (n+2)) = _
    rw [setServed (up 2)]
    rfl

end Reads

section Steps
variable {requests : Nat → Option Request} {d after : Database} {t : Int} {j : Nat} {w : World}
  {r : Request} {env : Oracle} {ord : RowOrder} {lower : Char → Char} {tell : Storer} {x : Cache}

structure Carried (r : Request) (d d' : Database) : Prop where
  joined : Joined d → Joined d'
  detail : ∀ k row, changes d k r = false → findById d k = some row → findById d' k = some row
  listed : relists r = false → Joined d → withAuthors d' = withAuthors d

theorem effectCarries {h : Log} {clock : Int} {own : Log} {writes : List Write}
    (root : w.db = Program.stateAfter d h) (e : Effect (Program.seenLast d t h clock) own w.db r writes)
    (ran : Program.execAll writes w.db = .ok after) : Carried r w.db after := by
  refine ⟨fun joined => joinedStep (fun P seen => ?_) e ran joined,
    fun k row same found => answerStep e ran same found,
    fun same joined => untouchedRows (effectUntouched e ran same) joined⟩
  obtain ⟨t₀,_,_,held⟩ := seen
  exact ⟨_,t₀,held,fun k a found => ⟨a,root ▸ found⟩⟩

theorem wholeCarries (h : Reached requests d t j w) (whole : Whole requests d t w r after) :
    Carried r w.db after := by
  cases whole with
  | nothing => exact ⟨id,fun _ _ _ found => found,fun _ _ => rfl⟩
  | once _ effect ran => exact effectCarries h.root.db effect ran
  | twice _ effect ran _ note =>
    have main := effectCarries h.root.db effect ran
    have still := quietUntouched rfl (ranOne note)
    refine ⟨fun joined => linkedJoined (tiedLinked rfl (ranOne note)) (main.joined joined),
      fun k row same found => untouchedAnswer still (main.detail k row same found),fun same joined => ?_⟩
    rw [untouchedRows still (main.joined joined)]
    exact main.listed same joined

structure Cleared (r : Request) (d : Database) (x : Cache) : Prop where
  detail : ∀ k payload, (detailKey k,payload) ∈ x → changes d k r = false
  listed : ∀ e ∈ x, ofList e.1 → relists r = false

theorem clearedIdle (detail : ∀ k, changes d k r = false) (listed : relists r = false) : Cleared r d x :=
  ⟨fun k _ _ => detail k,fun _ _ _ => listed⟩

theorem clearedBook {bookId : String} (swept : ∀ e ∈ x, bookSwept bookId e.1 = false)
    (named : ∀ k, changes d k r = true → bookId = k) : Cleared r d x := by
  refine ⟨fun k payload mem => Bool.eq_false_iff.mpr fun changed => ?_,fun e mem listed => ?_⟩
  · have away := swept _ mem
    simp [bookSwept,named k changed] at away
  · have away := swept e mem
    simp [bookSwept,listSwept listed] at away

theorem clearedBooks (swept : ∀ e ∈ x, booksSwept e.1 = false) : Cleared r d x := by
  refine ⟨fun k payload mem => ?_,fun e mem listed => ?_⟩
  · have away := swept _ mem
    simp [booksSwept,detailSwept] at away
  · have away := swept e mem
    simp [booksSwept,listSwept listed] at away

theorem clearedAfter {a : Response} {seen : Seen} {writes : List Write} (reached : Reached requests d t j w)
    (whole : Whole requests d t w r (serve j r w env).2.db)
    (effect : Effect seen [] w.db r writes)
    (done : (serve j r w env).1 = .ok a) : Cleared r w.db (serve j r w env).2.ext := by
  have ended {α : Type} {p : Service α} {respond : α → Response} {P : World → Prop}
      (same : handle r = answer respond p)
      (rule : wp (onItsOwn j) (fun _ _ w' => P (w'.release j)) (fun _ _ => True) p [] w) :
      P (serve j r w env).2 :=
    answeredPost (c := onItsOwn j) reached rfl (fun _ => rfl) (fun _ => trivial) same rule done
  cases effect with
  | createBook =>
    have swept := ended (P := fun w => ∀ e ∈ w.ext, Wildcard.glob "books:list*" e.1 = false) rfl createBookSweeps
    refine ⟨fun _ _ _ => rfl,fun e mem listed => ?_⟩
    have away := swept e mem
    rw [listSwept listed] at away
    contradiction
  | @updateBook bookId =>
    have swept := ended (P := fun w => ∀ e ∈ w.ext, bookSwept bookId e.1 = false) rfl updateBookSweeps
    exact clearedBook swept fun k changed => by simpa [changes] using changed
  | @deleteBook bookId =>
    have swept := ended (P := fun w => ∀ e ∈ w.ext, bookSwept bookId e.1 = false) rfl deleteBookSweeps
    exact clearedBook swept fun k changed => by simpa [changes] using changed
  | updateAuthor =>
    exact clearedBooks (ended (P := fun w => ∀ e ∈ w.ext, booksSwept e.1 = false) rfl updateAuthorSweeps)
  | deleteAuthor =>
    exact clearedBooks (ended (P := fun w => ∀ e ∈ w.ext, booksSwept e.1 = false) rfl deleteAuthorSweeps)
  | @createLoan data =>
    have swept := ended (P := fun w => ∀ e ∈ w.ext, bookSwept data.bookId e.1 = false) rfl createLoanSweeps
    exact clearedBook swept fun k changed => by simpa [changes] using changed
  | @returnLoan loanId loan _ _ _ found =>
    have swept := ended (P := Unshelved loanId) rfl
      (wpMono (fun _ _ _ h => h.2) (fun _ _ h => h) returnLoanSweeps)
    obtain ⟨_,l',found',step⟩ := LoanCache.wholeLoans whole found
    refine clearedBook (swept l' found') fun k changed => ?_
    rw [LoanCache.stepBook step]
    simpa [changes,found] using changed
  | @cancelLoan loanId loan _ _ _ found =>
    have swept := ended (P := Unshelved loanId) rfl
      (wpMono (fun _ _ _ h => h.2) (fun _ _ h => h) cancelLoanSweeps)
    obtain ⟨_,l',found',step⟩ := LoanCache.wholeLoans whole found
    refine clearedBook (swept l' found') fun k changed => ?_
    rw [LoanCache.stepBook step]
    simpa [changes,found] using changed
  | notify second => contradiction
  | _ => exact clearedIdle (fun _ => rfl) rfl

structure Coherent (ord : RowOrder) (lower : Char → Char) (tell : Storer) (w : World) : Prop where
  joined : Joined w.db
  detail : ∀ k payload, (detailKey k,payload) ∈ w.ext → bookAnswer w.db k = some payload
  listed : ∀ key payload, (key,payload) ∈ w.ext → ofList key → ∃ p f, tell key = some (p,f) ∧
    listKey p f = key ∧ payload = listAnswer ord lower p f w.db

def Elsewhere (e : String × Payload) : Prop := (∀ bookId, e.1 ≠ detailKey bookId) ∧ ¬ ofList e.1

theorem coherentFaded {w' : World} (coherent : Coherent ord lower tell w) (db : w'.db = w.db)
    (old : ∀ e ∈ w'.ext, e ∈ w.ext ∨ Elsewhere e) : Coherent ord lower tell w' := by
  refine ⟨db ▸ coherent.joined,fun k payload mem => ?_,fun key payload mem listed => ?_⟩
  · rcases old _ mem with mem | ⟨other,_⟩
    · rw [db]; exact coherent.detail k payload mem
    · exact absurd rfl (other k)
  · rcases old _ mem with mem | ⟨_,other⟩
    · rw [db]; exact coherent.listed key payload mem listed
    · exact absurd listed other

theorem coherentCleared {w' : World} (coherent : Coherent ord lower tell w) (carried : Carried r w.db w'.db)
    (cleared : Cleared r w.db w'.ext) (old : ∀ e ∈ w'.ext, e ∈ w.ext ∨ Elsewhere e) :
    Coherent ord lower tell w' := by
  refine ⟨carried.joined coherent.joined,fun k payload mem => ?_,fun key payload mem listed => ?_⟩
  · rcases old _ mem with before | ⟨other,_⟩
    · obtain ⟨row,found,rfl⟩ := Option.map_eq_some_iff.mp (coherent.detail k payload before)
      unfold bookAnswer
      rw [carried.detail k row (cleared.detail k _ mem) found]; rfl
    · exact absurd rfl (other k)
  · rcases old _ mem with before | ⟨_,other⟩
    · obtain ⟨p,f,told,key,same⟩ := coherent.listed key payload before listed
      refine ⟨p,f,told,key,same.trans ?_⟩
      unfold listAnswer
      rw [carried.listed (cleared.listed _ mem listed) coherent.joined]
    · exact absurd listed other

theorem otherCoherent (reached : Reached requests d t j w) (sent : requests j = some r)
    (up : ∀ n, (env n).answer.redisUp = true) (coherent : Coherent ord lower tell w)
    (detail : ∀ bookId, r ≠ .getBook bookId) (list : ∀ p f, r ≠ .listBooks p f) :
    Coherent ord lower tell (serve j r w env).2 := by
  have old : ∀ e ∈ (serve j r w env).2.ext, e ∈ w.ext ∨ Elsewhere e := fun e mem =>
    (Program.aloneCalls (filesRefl _) filesTrans (handleFiles r) [] w env (i := j) e mem).imp_right
      fun filed => filedElsewhere filed detail list
  cases done : (serve j r w env).1 with
  | error e => exact coherentFaded coherent (failedNever reached sent up done) old
  | ok a =>
    have whole := servedWhole reached sent up
    have carried := wholeCarries reached whole
    generalize same : (serve j r w env).2.db = after at whole
    have cleared {seen : Seen} {writes : List Write} (effect : Effect seen [] w.db r writes) :
        Cleared r w.db (serve j r w env).2.ext := clearedAfter reached (same ▸ whole) effect done
    cases whole with
    | nothing => exact coherentFaded coherent same old
    | once _ effect => exact coherentCleared coherent carried (cleared effect) old
    | twice _ effect => exact coherentCleared coherent carried (cleared effect) old

theorem freshOld {a : Answer} {e : String × Payload} (mem : e ∈ fresh a x) : e ∈ x := List.mem_of_mem_filter mem

theorem bookCoherent {k : String} (up : ∀ n, (env n).answer.redisUp = true)
    (coherent : Coherent ord lower tell w) : Coherent ord lower tell (serve j (.getBook k) w env).2 := by
  have faded : Coherent ord lower tell ({w with ext := fresh (env 0).answer w.ext}.release j) :=
    coherentFaded coherent rfl fun e mem => .inl (freshOld mem)
  cases found : (fresh (env 0).answer w.ext).lookup (detailKey k) with
  | some payload => rw [bookHit up found]; exact faded
  | none =>
    rw [bookMiss up found]
    cases answer : bookAnswer w.db k with
    | none => exact faded
    | some payload =>
      refine ⟨coherent.joined,fun k' payload' mem => ?_,fun key payload' mem listed => ?_⟩
      · rcases List.mem_cons.mp mem with same | left
        · obtain ⟨key,rfl⟩ := Prod.mk.inj same
          rw [detailSame key]; exact answer
        · exact coherent.detail k' payload' (freshOld (freshOld (List.mem_of_mem_filter left)))
      · rcases List.mem_cons.mp mem with same | left
        · obtain ⟨rfl,_⟩ := Prod.mk.inj same
          exact absurd listed (detailNotList k)
        · exact coherent.listed key payload' (freshOld (freshOld (List.mem_of_mem_filter left))) listed

theorem listCoherent {p : Pagination} {f : Filters} (regular : Regular ord lower w (.listBooks p f) env)
    (coherent : Coherent ord lower tell w) :
    Coherent ord lower (noted w env (.listBooks p f) tell) (serve j (.listBooks p f) w env).2 := by
  cases found : (fresh (env 0).answer w.ext).lookup (listKey p f) with
  | some payload =>
    have none : missed w env (listKey p f) = false := by simp [missed,found]
    rw [listHit regular.up found,noted,none]
    exact coherentFaded coherent rfl fun e mem => .inl (freshOld mem)
  | none =>
    have missing : missed w env (listKey p f) = true := by simp [missed,found]
    rw [listMiss regular.up found,noted,missing]
    refine ⟨coherent.joined,fun k payload mem => ?_,fun key payload mem listed => ?_⟩
    · rcases List.mem_cons.mp mem with same | left
      · obtain ⟨key,_⟩ := Prod.mk.inj same
        exact absurd (key ▸ listKeyOf p f) (detailNotList k)
      · exact coherent.detail k payload (freshOld (freshOld (List.mem_of_mem_filter left)))
    · rcases List.mem_cons.mp mem with same | left
      · obtain ⟨rfl,rfl⟩ := Prod.mk.inj same
        refine ⟨p,f,by simp,rfl,?_⟩
        show listAnswer _ _ p f w.db = listAnswer ord lower p f w.db
        unfold listAnswer
        rw [regular.order p f rfl,regular.lower]
      · obtain ⟨inside,other⟩ := List.mem_filter.mp left
        obtain ⟨p',f',told,here,same⟩ := coherent.listed key payload (freshOld (freshOld inside)) listed
        have other : key ≠ listKey p f := by simpa using other
        exact ⟨p',f',by simp [other,told],here,same⟩

theorem coherentStep (reached : Reached requests d t j w) (sent : requests j = some r)
    (regular : Regular ord lower w r env) (coherent : Coherent ord lower tell w) :
    Coherent ord lower (noted w env r tell) (serve j r w env).2 := by
  cases r with
  | getBook => exact bookCoherent regular.up coherent
  | listBooks => exact listCoherent regular coherent
  | _ => exact otherCoherent reached sent regular.up coherent (fun _ => by simp) fun _ _ => by simp

end Steps

section Runs
variable {ord : RowOrder} {lower : Char → Char} {t : Int} {calls : List (Request × Oracle)}

def RegularAll (ord : RowOrder) (lower : Char → Char) (t : Int) (calls : List (Request × Oracle)) : Prop :=
  ∀ done r env, done ++ [(r,env)] <+: calls → Regular ord lower (worldAfter t done) r env

def storedBy (t : Int) (calls : List (Request × Oracle)) : Storer := storers 0 (opening t) (fun _ => none) calls

theorem storedLast (t : Int) (calls : List (Request × Oracle)) (r : Request) (env : Oracle) :
    storedBy t (calls ++ [(r,env)]) = noted (worldAfter t calls) env r (storedBy t calls) :=
  storersLast 0 _ _ calls r env

theorem coherentAll (regular : RegularAll ord lower t calls) :
    Coherent ord lower (storedBy t calls) (worldAfter t calls) := by
  induction calls using List.reverseRecOn with
  | nil => exact ⟨fun _ mem => by simp [worldAfter,serveAll,opening,Database.empty,Table.empty] at mem,
      fun _ _ mem => by simp [worldAfter,serveAll,opening] at mem,
      fun _ _ mem => by simp [worldAfter,serveAll,opening] at mem⟩
  | append_singleton calls call ih =>
    obtain ⟨r,env⟩ := call
    obtain ⟨reached,sent⟩ := reachedBefore t calls r env
    rw [worldLast,storedLast]
    exact coherentStep reached sent (regular calls r env List.prefix_rfl)
      (ih fun done r env before => regular done r env (before.trans (List.prefix_append _ _)))

def uncached (w : World) : World := {w with ext := []}

theorem bookUncached {w : World} {j : Nat} {k : String} {env : Oracle} {payload : Payload}
    (up : ∀ n, (env n).answer.redisUp = true) (answer : bookAnswer w.db k = some payload) :
    (serve j (.getBook k) (uncached w) env).1 = .ok (.read payload) := by
  rw [bookMiss (w := uncached w) up rfl,show bookAnswer (uncached w).db k = some payload from answer]

theorem listUncached {w : World} {j : Nat} {p : Pagination} {f : Filters} {env : Oracle}
    (regular : Regular ord lower w (.listBooks p f) env) :
    (serve j (.listBooks p f) (uncached w) env).1 = .ok (.read (listAnswer ord lower p f w.db)) := by
  rw [listMiss (w := uncached w) regular.up rfl]
  show Except.ok (Response.read (listAnswer _ _ p f w.db)) = _
  unfold listAnswer
  rw [regular.order p f rfl,regular.lower]

end Runs

/-- After every call of a run with Redis up, an entry on a book and an entry on a
listing are what the request that stored them would answer if nothing were cached. -/
theorem booksAgreeWithMiss (ord : RowOrder) (lower : Char → Char) (t : Int) (calls : List (Request × Oracle))
    (regular : RegularAll ord lower t calls) (done : List (Request × Oracle)) (before : done <+: calls) :
    let w := worldAfter t done
    (∀ k payload, (detailKey k,payload) ∈ w.ext → ∀ j env, Regular ord lower w (.getBook k) env →
      (serve j (.getBook k) (uncached w) env).1 = .ok (.read payload)) ∧
    ∀ key payload, (key,payload) ∈ w.ext → ofList key → ∃ p f, storedBy t done key = some (p,f) ∧
      listKey p f = key ∧ ∀ j env, Regular ord lower w (.listBooks p f) env →
        (serve j (.listBooks p f) (uncached w) env).1 = .ok (.read payload) := by
  intro w
  have coherent : Coherent ord lower (storedBy t done) w :=
    coherentAll fun done' r env inside => regular done' r env (inside.trans before)
  refine ⟨fun k payload mem j env here => bookUncached here.up (coherent.detail k payload mem),
    fun key payload mem listed => ?_⟩
  obtain ⟨p,f,told,same,rfl⟩ := coherent.listed key payload mem listed
  exact ⟨p,f,told,same,fun j env here => listUncached here⟩

def lookedUp : List (Request × Oracle) :=
  borrowing 1 ++ [(.getBook (sampleId 3).text,fun _ => tick 0),(.returnLoan (sampleId 4).text,fun _ => tick 5),
    (.getBook (sampleId 3).text,fun _ => tick 0),
    (.listBooks CacheKeys.firstPage ⟨none,none,none,none⟩,fun _ => tick 0)]

theorem lookedUpRegular : RegularAll (fun _ _ _ => []) id 0 lookedUp := by
  intro done r env before
  have mem := before.subset (List.mem_append_right done (List.mem_singleton_self (r,env)))
  have calm : ∃ i, env = fun _ => tick i := by
    simp only [lookedUp,borrowing,List.cons_append,List.nil_append,List.mem_cons,List.not_mem_nil,or_false,
      Prod.mk.injEq] at mem
    rcases mem with ⟨_,same⟩ | ⟨_,same⟩ | ⟨_,same⟩ | ⟨_,same⟩ | ⟨_,same⟩ | ⟨_,same⟩ | ⟨_,same⟩ | ⟨_,same⟩ <;>
      exact ⟨_,same⟩
  obtain ⟨i,rfl⟩ := calm
  exact ⟨fun _ => rfl,fun _ => rfl,fun _ _ _ _ => rfl⟩

theorem returnedCopyShown : let w := worldAfter 0 lookedUp
    let view := serializeBook (sampleBook 1) sampleAuthor
    ((detailKey (sampleId 3).text,Payload.book view) ∈ w.ext ∧
      (serve 9 (.getBook (sampleId 3).text) (uncached w) fun _ => tick 0).1 = .ok (.read (.book view))) ∧
    ∃ p f, (listKey p f,Payload.books ⟨[view],1,1,10⟩) ∈ w.ext ∧
      (serve 9 (.listBooks p f) (uncached w) fun _ => tick 0).1 = .ok (.read (.books ⟨[view],1,1,10⟩)) := by
  intro w view
  have calm (r : Request) : Regular (fun _ _ _ => []) id w r fun _ => tick 0 :=
    ⟨fun _ => rfl,fun _ => rfl,fun _ _ _ _ => rfl⟩
  obtain ⟨detail,listed⟩ := booksAgreeWithMiss (fun _ _ _ => []) id 0 lookedUp lookedUpRegular lookedUp
    List.prefix_rfl
  have shown : (detailKey (sampleId 3).text,Payload.book view) ∈ w.ext := by decide +kernel
  have inside : (listKey CacheKeys.firstPage ⟨none,none,none,none⟩,Payload.books ⟨[view],1,1,10⟩) ∈ w.ext := by
    decide +kernel
  have first := detail _ _ shown 9 _ (calm _)
  obtain ⟨p,f,_,key,answered⟩ := listed _ _ inside (listKeyOf _ _)
  have second := answered 9 _ (calm _)
  rw [← key] at inside
  exact ⟨⟨shown,first⟩,p,f,inside,second⟩

end LibraryApi.BookCache
