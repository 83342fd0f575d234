import LibraryApi.BookCache
import LibraryApi.Json

/-! The body of GET /books/{id}, character by character. On a miss it is the encoding of the
dictionary the service built, on a hit that of the JSON text Redis kept of it: a datetime is
written by isoformat() the first time and by str() inside the text of the cache. -/
namespace LibraryApi.BookBodies
open Models CacheService Repositories Json
open BookService (serializeBook detailKey)
open FineCalculator (date dayMicros)
open Runs (lentOnce sampleId tick)
open Program (Prog World Env select call raise alone)

inductive Py where
  | int (n : Int)
  | str (s : String)
  | datetime (t : Int)
  deriving DecidableEq

section Datetimes

def daysBeforeMonth (month : Int) : Int :=
  [0,31,59,90,120,151,181,212,243,273,304,334].getD (month - 1).toNat 334

def daysInMonth (month : Int) : Int := [31,28,31,30,31,30,31,31,30,31,30,31].getD (month - 1).toNat 31

def ord2ymd (n : Int) : Int × Int × Int :=
  let n400 := n / 146097
  let n := n % 146097
  let n100 := n / 36524
  let n := n % 36524
  let n4 := n / 1461
  let n := n % 1461
  let n1 := n / 365
  let n := n % 365
  let year := n400 * 400 + 1 + n100 * 100 + n4 * 4 + n1
  if n1 = 4 ∨ n100 = 4 then (year - 1,12,31)
  else
    let leapyear := n1 = 3 ∧ (n4 ≠ 24 ∨ n100 = 3)
    let month := (n + 50) / 32
    let preceding := daysBeforeMonth month + if month > 2 ∧ leapyear then 1 else 0
    if preceding > n then
      let month := month - 1
      let preceding := preceding - (daysInMonth month + if month = 2 ∧ leapyear then 1 else 0)
      (year,month,n - preceding + 1)
    else (year,month,n - preceding + 1)

def padded (width : Nat) (n : Int) : String :=
  String.ofList (List.replicate (width - (toString n.natAbs).length) '0') ++ toString n.natAbs

def epochDay : Int := 719162

def datePart (t : Int) : String :=
  let (year,month,day) := ord2ymd (date t + epochDay)
  padded 4 year ++ "-" ++ padded 2 month ++ "-" ++ padded 2 day

def timePart (t : Int) : String :=
  let micros := t % dayMicros
  let seconds := micros / 1000000
  let clock := padded 2 (seconds / 3600) ++ ":" ++ padded 2 (seconds / 60 % 60) ++ ":" ++ padded 2 (seconds % 60)
  if micros % 1000000 = 0 then clock else clock ++ "." ++ padded 6 (micros % 1000000)

def isoformat (sep : Char) (t : Int) : String := datePart t ++ String.ofList (sep :: (timePart t).toList)

theorem isoformatSame {a b : Char} {t : Int} (h : isoformat a t = isoformat b t) : a = b := by
  have texts := congrArg String.toList h
  simp only [isoformat,String.toList_append,String.toList_ofList] at texts
  exact (List.cons.inj (List.append_cancel_left texts)).1

end Datetimes

section Encoders

def encode (sep : Char) : Py → Scalar
  | .int n => .int n
  | .str s => .str s
  | .datetime t => .str (isoformat sep t)

def decode : Scalar → Py
  | .int n => .int n
  | .str s => .str s

structure Document where
  text : String
  form : (loads text).isSome = true
  deriving DecidableEq

def dumpsDefaultStr (value : Value Py) : Document :=
  ⟨dumps ⟨true,true⟩ (value.map (encode ' ')),by rw [loadsDumps]; rfl⟩

def Document.loads (data : Document) : Value Py := ((Json.loads data.text).get data.form).map decode

structure Renderer where
  write : Value Scalar → String
  reads : ∀ value, Json.loads (write value) = some value

def Renderer.body (r : Renderer) (value : Value Py) : String := r.write (value.map (encode 'T'))

def jsonResponse : Renderer := ⟨dumps ⟨false,false⟩,loadsDumps _⟩

theorem Renderer.writeSame (r : Renderer) {a b : Value Scalar} (same : r.write a = r.write b) : a = b := by
  have texts := congrArg Json.loads same
  rw [r.reads,r.reads] at texts
  exact Option.some.inj texts

theorem decodeEncode (sep sep' : Char) : encode sep ∘ decode ∘ encode sep' = encode sep' := by
  funext a
  cases a <;> rfl

theorem loadsStored (value : Value Py) : (dumpsDefaultStr value).loads = (value.map (encode ' ')).map decode := by
  unfold Document.loads
  congr 1
  exact Option.get_of_eq_some _ (loadsDumps _ _)

theorem bodyStored (r : Renderer) (value : Value Py) :
    r.body (dumpsDefaultStr value).loads = r.write (value.map (encode ' ')) := by
  unfold Renderer.body
  rw [loadsStored,Value.mapMap,Value.mapMap]
  exact congrArg (fun f => r.write (Value.map f value)) (decodeEncode 'T' ' ')

theorem bodyStoredIff (r : Renderer) (value : Value Py) :
    r.body (dumpsDefaultStr value).loads = r.body value ↔ ∀ a ∈ value.leaves, ∀ t, a ≠ .datetime t := by
  rw [bodyStored]
  have texts : r.write (value.map (encode ' ')) = r.body value ↔ value.map (encode ' ') = value.map (encode 'T') :=
    ⟨r.writeSame,congrArg r.write⟩
  rw [texts,Value.mapSame]
  refine forall₂_congr fun a _ => ?_
  cases a with
  | int n => simp [encode]
  | str s => simp [encode]
  | datetime t =>
    refine iff_of_false (fun same => ?_) fun none => none t rfl
    have letters := isoformatSame (Scalar.str.inj same)
    contradiction

end Encoders

section Requests

abbrev TextCache := List (String × Document)
abbrev TextService := Prog Database Write RowKey TextCache Answer ApiError

def kept (a : Answer) (x : TextCache) : TextCache := x.filter fun e => !a.expired.contains e.1

theorem storedAlive {a : Answer} {key : String} {data : Document} {x : TextCache} (alive : key ∉ a.expired) :
    (kept a ((key,data) :: x)).lookup key = some data := by
  unfold kept
  rw [List.filter_cons_of_pos (by simpa using alive)]
  exact List.lookup_cons_self

def redis {β : Type} (act : TextCache → β × TextCache) : TextService β := call fun a x =>
  if a.redisUp then .ok (act (kept a x)) else .error .redisError

def parsed : Option Document → Option (Value Py)
  | none => none
  | some data => if data.text.isEmpty then none else some data.loads

theorem parsedSome (data : Document) : parsed (some data) = some data.loads := by
  refine if_neg fun empty => ?_
  have read := data.form
  rw [String.isEmpty_iff.mp empty] at read
  have unread : Json.loads "" = none := by decide
  rw [unread] at read
  contradiction

def get (key : String) : TextService (Option (Value Py)) := redis fun x => (parsed (x.lookup key),x)

def set (key : String) (value : Value Py) : TextService Unit :=
  redis fun x => ((),(key,dumpsDefaultStr value) :: x.filter (fun e => e.1 != key))

def truthy : Value Py → Bool
  | .leaf (.int n) => n != 0
  | .leaf (.str s) => !s.isEmpty
  | .leaf (.datetime _) => true
  | .dict .nil => false
  | .dict (.cons ..) => true

def fields : List (String × Value Py) → Fields Py
  | [] => .nil
  | (key,value) :: rest => .cons key value (fields rest)

def bookDict (view : BookView) : Value Py := .dict (fields [
  ("id",.leaf (.str view.id.text)),
  ("title",.leaf (.str view.title)),
  ("isbn",.leaf (.str view.isbn)),
  ("category",.leaf (.str view.category)),
  ("total_copies",.leaf (.int view.totalCopies)),
  ("available_copies",.leaf (.int view.availableCopies)),
  ("author",.dict (fields [
    ("id",.leaf (.str view.author.id.text)),
    ("name",.leaf (.str view.author.name))])),
  ("created_at",.leaf (.datetime view.createdAt))])

def getBook (bookId : String) : TextService (Value Py) := do
  match (← get (detailKey bookId)).filter truthy with
  | some cached => return cached
  | none =>
    match ← select fun d => Repositories.BookRepository.findById d bookId with
    | none => raise (.notFound "Livro não encontrado")
    | some (book,author) =>
      let serializedBook := bookDict (serializeBook book author)
      set (detailKey bookId) serializedBook
      return serializedBook

def answerBook (r : Renderer) (bookId : String) : TextService String := do
  let book ← getBook bookId
  return r.body book

section Served
variable {j : Nat} {w : World Database Write RowKey TextCache} {env : Nat → Env Answer} {r : Renderer} {bookId : String}

theorem getServed {α : Type} {key : String} {g : Option (Value Py) → TextService α} {pending : List Write}
    (up : (env 0).answer.redisUp = true) : alone j (get key >>= g) pending w env =
      alone j (g (parsed ((kept (env 0).answer w.ext).lookup key))) pending
        {w with ext := kept (env 0).answer w.ext} fun n => env (n+1) := by
  show alone j (.call _ g) pending w env = _
  simp only [alone,up,if_true]

theorem setServed {α : Type} {key : String} {value : Value Py} {g : Unit → TextService α}
    {pending : List Write} (up : (env 0).answer.redisUp = true) :
    alone j (set key value >>= g) pending w env = alone j (g ()) pending
      {w with ext := (key,dumpsDefaultStr value) :: (kept (env 0).answer w.ext).filter (fun e => e.1 != key)}
        fun n => env (n+1) := by
  show alone j (.call _ g) pending w env = _
  simp only [alone,up,if_true]

theorem bookMiss (up : ∀ n, (env n).answer.redisUp = true)
    (missing : (kept (env 0).answer w.ext).lookup (detailKey bookId) = none) :
    alone j (answerBook r bookId) [] w env = match Repositories.BookRepository.findById w.db bookId with
      | none => (.error (.notFound "Livro não encontrado"),{w with ext := kept (env 0).answer w.ext}.release j)
      | some row =>
        let value := bookDict (serializeBook row.1 row.2)
        let left := (kept (env 2).answer (kept (env 0).answer w.ext)).filter fun e => e.1 != detailKey bookId
        (.ok (r.body value),{w with ext := (detailKey bookId,dumpsDefaultStr value) :: left}.release j) := by
  unfold answerBook getBook
  rw [Program.bindBind,getServed (up 0),missing]
  show alone j ((match Repositories.BookRepository.findById w.db bookId with
    | none => raise (.notFound "Livro não encontrado")
    | some (book,author) =>
      set (detailKey bookId) (bookDict (serializeBook book author)) >>= fun _ =>
        pure (bookDict (serializeBook book author))) >>= fun book => pure (r.body book)) []
    {w with ext := kept (env 0).answer w.ext} (fun n => env (n+2)) = _
  cases Repositories.BookRepository.findById w.db bookId with
  | none => rfl
  | some row =>
    show alone j (set (detailKey bookId) (bookDict (serializeBook row.1 row.2)) >>= fun _ =>
      pure (r.body (bookDict (serializeBook row.1 row.2)))) []
      {w with ext := kept (env 0).answer w.ext} (fun n => env (n+2)) = _
    rw [setServed (up 2)]
    rfl

theorem bookHit {value : Value Py} (up : ∀ n, (env n).answer.redisUp = true)
    (found : parsed ((kept (env 0).answer w.ext).lookup (detailKey bookId)) = some value) (filled : truthy value = true) :
    alone j (answerBook r bookId) [] w env = (.ok (r.body value),{w with ext := kept (env 0).answer w.ext}.release j) := by
  unfold answerBook getBook
  rw [Program.bindBind,getServed (up 0),found,Option.filter_some,if_pos filled]
  rfl

theorem parsedStored (view : BookView) : ∃ value, parsed (some (dumpsDefaultStr (bookDict view))) = some value ∧
    truthy value = true ∧ r.body value = r.write ((bookDict view).map (encode ' ')) := by
  refine ⟨(dumpsDefaultStr (bookDict view)).loads,parsedSome _,?_,bodyStored r _⟩
  rw [loadsStored]
  rfl

theorem bookRepeated {view : BookView} (up : ∀ n, (env n).answer.redisUp = true)
    (found : (kept (env 0).answer w.ext).lookup (detailKey bookId) = some (dumpsDefaultStr (bookDict view))) :
    alone j (answerBook r bookId) [] w env =
      (.ok (r.write ((bookDict view).map (encode ' '))),{w with ext := kept (env 0).answer w.ext}.release j) := by
  obtain ⟨value,read,filled,body⟩ := parsedStored (r := r) view
  rw [bookHit up (found ▸ read) filled,body]

end Served

section Mirror
variable {x : Cache} {y : TextCache}

def document : Payload → Option Document
  | .book view => some (dumpsDefaultStr (bookDict view))
  | _ => none

structure Mirrors (x : Cache) (y : TextCache) : Prop where
  book : ∀ bookId payload, x.lookup (detailKey bookId) = some payload → ∃ view, payload = .book view
  text : ∀ bookId, y.lookup (detailKey bookId) = (x.lookup (detailKey bookId)).bind document

theorem lookupFilter {α : Type} (p : String → Bool) (x : List (String × α)) (key : String) :
    (x.filter fun e => p e.1).lookup key = if p key then x.lookup key else none := by
  induction x with
  | nil => simp
  | cons e rest ih =>
    obtain ⟨k,value⟩ := e
    by_cases same : key = k
    · subst same
      by_cases stays : p key
      · simp [stays]
      · simp [stays,ih]
    · have other : (key == k) = false := by simpa using same
      by_cases stays : p k
      · simp [stays,List.lookup_cons,other,ih]
      · simp [stays,List.lookup_cons,other,ih]

theorem mirrorsFilter (h : Mirrors x y) (p : String → Bool) :
    Mirrors (x.filter fun e => p e.1) (y.filter fun e => p e.1) where
  book bookId payload found := by
    rw [lookupFilter] at found
    split at found
    · exact h.book bookId payload found
    · contradiction
  text bookId := by
    rw [lookupFilter,lookupFilter]
    split
    · exact h.text bookId
    · rfl

theorem mirrorsLive (h : Mirrors x y) (a : Answer) : Mirrors (BookCache.fresh a x) (kept a y) :=
  mirrorsFilter h fun key => !a.expired.contains key

theorem mirrorsSet (h : Mirrors x y) (bookId : String) (view : BookView) :
    Mirrors ((detailKey bookId,.book view) :: x.filter fun e => e.1 != detailKey bookId)
      ((detailKey bookId,dumpsDefaultStr (bookDict view)) :: y.filter fun e => e.1 != detailKey bookId) where
  book other payload found := by
    rw [List.lookup_cons] at found
    split at found
    · exact ⟨view,(Option.some.inj found).symm⟩
    · exact (mirrorsFilter h fun key => key != detailKey bookId).book other payload found
  text other := by
    rw [List.lookup_cons,List.lookup_cons]
    split
    · rfl
    · exact (mirrorsFilter h fun key => key != detailKey bookId).text other

theorem getBookMirrors (r : Renderer) (j : Nat) (w : Requests.World) (w' : World Database Write RowKey TextCache)
    (bookId : String) (env : Nat → Env Answer) (same : w'.db = w.db) (mirrors : Mirrors w.ext w'.ext)
    (up : ∀ n, (env n).answer.redisUp = true) : ∃ (outcome : Except ApiError BookView) (sep : Char),
      (Requests.serve j (.getBook bookId) w env).1 = outcome.map (fun view => .read (.book view)) ∧
      (alone j (answerBook r bookId) [] w' env).1 = outcome.map (fun view => r.write ((bookDict view).map (encode sep))) ∧
      Mirrors (Requests.serve j (.getBook bookId) w env).2.ext (alone j (answerBook r bookId) [] w' env).2.ext := by
  have live : Mirrors (BookCache.fresh (env 0).answer w.ext) (kept (env 0).answer w'.ext) := mirrorsLive mirrors _
  have text := live.text bookId
  cases found : (BookCache.fresh (env 0).answer w.ext).lookup (detailKey bookId) with
  | some payload =>
    obtain ⟨view,rfl⟩ := live.book bookId payload found
    rw [found] at text
    refine ⟨.ok view,' ',?_⟩
    rw [BookCache.bookHit up found,bookRepeated up text]
    exact ⟨rfl,rfl,live⟩
  | none =>
    rw [found] at text
    rw [BookCache.bookMiss up found,bookMiss up text,same]
    unfold BookCache.bookAnswer
    cases Repositories.BookRepository.findById w.db bookId with
    | none => exact ⟨.error (.notFound "Livro não encontrado"),'T',rfl,rfl,live⟩
    | some row =>
      exact ⟨.ok (serializeBook row.1 row.2),'T',rfl,rfl,mirrorsSet (mirrorsLive live _) bookId _⟩

end Mirror

theorem answeredTwice {r : Renderer} {j k : Nat} {w : World Database Write RowKey TextCache} {bookId : String}
    {row : BookModel × AuthorModel} {first second : Nat → Env Answer}
    (found : Repositories.BookRepository.findById w.db bookId = some row)
    (absent : (kept (first 0).answer w.ext).lookup (detailKey bookId) = none)
    (up : ∀ n, (first n).answer.redisUp = true ∧ (second n).answer.redisUp = true)
    (alive : detailKey bookId ∉ (second 0).answer.expired) :
    (alone j (answerBook r bookId) [] w first).1 = .ok (r.body (bookDict (serializeBook row.1 row.2))) ∧
    (alone k (answerBook r bookId) [] (alone j (answerBook r bookId) [] w first).2 second).1 =
      .ok (r.write ((bookDict (serializeBook row.1 row.2)).map (encode ' '))) := by
  have answered := bookMiss (j := j) (r := r) (fun n => (up n).1) absent
  rw [found] at answered
  rw [answered]
  refine ⟨rfl,?_⟩
  rw [bookRepeated (fun n => (up n).2) (storedAlive alive)]

theorem bodyNotStored (r : Renderer) (view : BookView) :
    r.body (bookDict view) ≠ r.write ((bookDict view).map (encode ' ')) := by
  intro same
  have text := (bodyStoredIff r (bookDict view)).mp ((bodyStored r _).trans same.symm) (.datetime view.createdAt)
    (by simp [bookDict,fields,Value.leaves,Fields.leaves])
  exact text _ rfl

/-- A first request for a book without an entry, and a second one before the new entry
expires, are answered with different bodies. -/
theorem bodiesDiffer (r : Renderer) (j k : Nat) (w : World Database Write RowKey TextCache) (bookId : String)
    (row : BookModel × AuthorModel) (first second : Nat → Env Answer)
    (found : Repositories.BookRepository.findById w.db bookId = some row)
    (absent : (kept (first 0).answer w.ext).lookup (detailKey bookId) = none)
    (up : ∀ n, (first n).answer.redisUp = true ∧ (second n).answer.redisUp = true)
    (alive : detailKey bookId ∉ (second 0).answer.expired) :
    ∃ missed hit, (alone j (answerBook r bookId) [] w first).1 = .ok missed ∧
      (alone k (answerBook r bookId) [] (alone j (answerBook r bookId) [] w first).2 second).1 = .ok hit ∧
      missed ≠ hit ∧ loads missed = some ((bookDict (serializeBook row.1 row.2)).map (encode 'T')) ∧
      loads hit = some ((bookDict (serializeBook row.1 row.2)).map (encode ' ')) := by
  obtain ⟨missed,hit⟩ := answeredTwice (r := r) (j := j) (k := k) found absent up alive
  exact ⟨_,_,missed,hit,bodyNotStored r _,r.reads _,r.reads _⟩

def justShelved : World Database Write RowKey TextCache := ⟨lentOnce.db,fun _ => none,[],0,[]⟩

theorem shelvedDiffers : ∃ missed hit,
    (alone 5 (answerBook jsonResponse (sampleId 3).text) [] justShelved fun _ => tick 5).1 = .ok missed ∧
    (alone 6 (answerBook jsonResponse (sampleId 3).text) []
      (alone 5 (answerBook jsonResponse (sampleId 3).text) [] justShelved fun _ => tick 5).2 fun _ => tick 6).1 = .ok hit ∧
    missed ≠ hit := by
  have shelved : ∃ row ∈ Repositories.BookRepository.findById justShelved.db (sampleId 3).text, row.1.totalCopies = 1 := by
    decide +kernel
  obtain ⟨row,found,_⟩ := shelved
  obtain ⟨missed,hit,first,second,differ,_⟩ := bodiesDiffer jsonResponse 5 6 justShelved (sampleId 3).text row
    (fun _ => tick 5) (fun _ => tick 6) found rfl (fun _ => ⟨rfl,rfl⟩) (by simp [tick])
  exact ⟨missed,hit,first,second,differ⟩

def shelvedBook : BookView :=
  ⟨sampleId 3,"Dom Casmurro","9788535910663","Romance",1,0,⟨sampleId 1,"Machado de Assis"⟩,0⟩

theorem blankForT :
    (alone 5 (answerBook jsonResponse (sampleId 3).text) [] justShelved fun _ => tick 5).1 =
      .ok (dumps ⟨false,false⟩ ((bookDict shelvedBook).map (encode 'T'))) ∧
    (alone 6 (answerBook jsonResponse (sampleId 3).text) []
      (alone 5 (answerBook jsonResponse (sampleId 3).text) [] justShelved fun _ => tick 5).2 fun _ => tick 6).1 =
      .ok (dumps ⟨false,false⟩ ((bookDict shelvedBook).map (encode ' '))) ∧
    dumps ⟨false,false⟩ ((bookDict shelvedBook).map (encode 'T')) ≠
      dumps ⟨false,false⟩ ((bookDict shelvedBook).map (encode ' ')) ∧
    isoformat 'T' 0 = "1970-01-01T00:00:00" ∧ isoformat ' ' 0 = "1970-01-01 00:00:00" := by
  have book : (Repositories.BookRepository.findById justShelved.db (sampleId 3).text).map
      (fun row => serializeBook row.1 row.2) = some shelvedBook := by decide +kernel
  obtain ⟨row,found,view⟩ := Option.map_eq_some_iff.mp book
  obtain ⟨missed,hit⟩ := @answeredTwice jsonResponse 5 6 justShelved (sampleId 3).text row
    (fun _ => tick 5) (fun _ => tick 6) found rfl (fun _ => ⟨rfl,rfl⟩) (by simp [tick])
  rw [view] at missed hit
  exact ⟨missed,hit,bodyNotStored jsonResponse shelvedBook,by decide +kernel,by decide +kernel⟩

end Requests
end LibraryApi.BookBodies
