import Mathlib.Data.List.Perm.Subperm
import LibraryApi.LoanHistory
import LibraryApi.StockInvariant

/-! The stock of one book under concurrent requests. The loan desk locks the book
row and may race in any order; `update_book` writes back what it read without a
lock, so it is safe exactly when the shelf did not change in between. -/
namespace LibraryApi.StockRaces
open Models KeyedTable Repositories Requests Effects Runs CommittedRows LoanHistory StockInvariant
open LoanService (restocked)
open CacheService (Cache)
open Program (execAll Path stateAfter mine)

def lends (book : Uuid) (writes : List Write) : Bool := writes.any fun
  | .insertLoan l => l.bookId == book
  | _ => false

def givesBack (book : Uuid) (writes : List Write) : Bool := writes.any fun
  | .updateLoan l c => l.bookId == book && c.status != .active
  | _ => false

def InStock (d : Database) (book : Uuid) : Prop := ∃ b, d.books.find book.text = some b ∧
  b.availableCopies + activeLoans d book = b.totalCopies ∧ 0 ≤ b.availableCopies

instance (d : Database) (book : Uuid) : Decidable (InStock d book) :=
  decidable_of_iff (∃ b ∈ d.books.find book.text,
    b.availableCopies + activeLoans d book = b.totalCopies ∧ 0 ≤ b.availableCopies) Iff.rfl

section Desk
variable {seen : Seen} {own : Log} {before after : Database} {r : Request} {writes : List Write}
  {book : Uuid} {b : BookModel}

theorem deskExchange (e : Effect seen own before r writes)
    (ran : execAll writes before = .ok after) (desk : atDesk r = true) : Exchange before after :=
  effectExchange (fun _ _ same => by subst same; contradiction) e ran
    fun _ same => by subst same; contradiction

theorem counterMoved {d : Database} {moved : BookModel} {n : Int}
    (lock : d.books.find moved.id.text = some moved) (stock : d.books.find book.text = some b) :
    ∃ b', (storeBook d.books moved (restocked moved n)).find book.text = some b' ∧
      b'.totalCopies = b.totalCopies ∧
      b'.availableCopies = b.availableCopies + if moved.id = book then n else 0 := by
  rw [storedBook (c := restocked moved n) lock rfl]
  by_cases here : moved.id = book
  · subst here
    cases Option.some.inj (lock.symm.trans stock)
    exact ⟨_,if_pos rfl,rfl,by simp [restocked]⟩
  · rw [if_neg fun e => here (uuidExt e.symm)]
    exact ⟨b,stock,rfl,by simp [here]⟩

theorem deskCounter (e : Effect seen own before r writes)
    (ran : execAll writes before = .ok after) (desk : atDesk r = true)
    (stock : before.books.find book.text = some b) :
    ∃ b', after.books.find book.text = some b' ∧ b'.totalCopies = b.totalCopies ∧
      b'.availableCopies + (if lends book writes then 1 else 0) =
        b.availableCopies + if givesBack book writes then 1 else 0 := by
  have closed {moved : BookModel} {l c : LoanModel} (id : moved.id.text = l.bookId.text)
      (lock : before.books.find l.bookId.text = some moved) (away : c.status ≠ .active)
      (ran : execAll ([.updateBook moved (restocked moved 1),.updateLoan l c] : List Write) before =
        .ok after) :
      ∃ b', after.books.find book.text = some b' ∧ b'.totalCopies = b.totalCopies ∧
        b'.availableCopies + (if lends book ([.updateBook moved (restocked moved 1),
          .updateLoan l c] : List Write) then 1 else 0) = b.availableCopies +
        if givesBack book ([.updateBook moved (restocked moved 1),.updateLoan l c] : List Write)
          then 1 else 0 := by
    obtain ⟨b',found,total,count⟩ := counterMoved (n := 1) (id ▸ lock) stock
    rw [ranClose ran]
    refine ⟨b',found,total,?_⟩
    rw [uuidExt id] at count
    by_cases here : l.bookId = book <;> simp [lends,givesBack,here,away] at count ⊢ <;> omega
  cases e with
  | createLoan _ _ _ lock =>
    have id := (Table.findSound lock).2
    obtain ⟨loans,_,rfl⟩ := ranLend ran
    obtain ⟨b',found,total,count⟩ := counterMoved (n := -1) (id ▸ lock) stock
    refine ⟨b',found,total,?_⟩
    split at count <;> rename_i here <;> simp [lends,givesBack,LoanService.newLoan,here] <;> omega
  | returnLoan _ _ _ lock => exact closed (Table.findSound lock).2 lock nofun ran
  | cancelLoan _ _ _ lock => exact closed (Table.findSound lock).2 lock nofun ran
  | notify =>
    rw [(elsewhereRan rfl (ranOne ran)).1]
    exact ⟨b,stock,rfl,by simp [lends,givesBack]⟩
  | _ => contradiction

end Desk

section Paths
variable {seen : Log → Int → Seen} {requests : Nat → Option Request} {d : Database} {t : Int}
  {h : Log} {book : Uuid} {b : BookModel}

structure Shelf (b : BookModel) (book : Uuid) (h : Log) (d : Database) (b' : BookModel) : Prop where
  found : d.books.find book.text = some b'
  level : surplus d book b' = 0
  low : 0 ≤ b'.availableCopies
  total : b'.totalCopies = b.totalCopies
  counted : b'.availableCopies + h.countP (fun m => lends book m.writes) =
    b.availableCopies + h.countP fun m => givesBack book m.writes

theorem shelfStock {b' : BookModel} (shelf : Shelf b book h d b') : InStock d book := by
  have level := shelf.level
  unfold surplus at level
  exact ⟨b',shelf.found,by omega,shelf.low⟩

theorem deskShelf (only : ∀ m ∈ h, ∀ r, requests m.client = some r → atDesk r = true)
    (start : Shelf b book [] d b) (path : Path (allowed seen requests) d t h) :
    ∃ b', Shelf b book h (stateAfter d h) b' := by
  induction path with
  | start => exact ⟨b,start⟩
  | @commit m h rest before ran clock effect ih =>
    obtain ⟨r,sent,e⟩ := effect
    have desk := only m (by simp) r sent
    obtain ⟨b₁,shelf⟩ := ih fun m' mem => only m' (List.mem_cons_of_mem _ mem)
    rw [← before] at shelf
    obtain ⟨b₂,found,same,low⟩ := (deskExchange e ran desk).kept book b₁ shelf.found
    obtain ⟨b₂',found',total,moved⟩ := deskCounter e ran desk shelf.found
    cases Option.some.inj (found.symm.trans found')
    refine ⟨b₂,found,same.trans shelf.level,low shelf.low,total.trans shelf.total,?_⟩
    have counted := shelf.counted
    rw [List.countP_cons,List.countP_cons]
    by_cases lent : lends book m.writes = true <;> by_cases back : givesBack book m.writes = true <;>
      simp only [lent,back,if_true,if_false,Bool.false_eq_true] at moved ⊢ <;> omega

/-- The row `update_book` read still holds the committed number of free copies
whenever it commits another total. -/
def Undisturbed (book : Uuid) (h : Log) : Prop :=
  ∀ m ∈ h, ∀ l c, .updateBook l c ∈ m.writes → l.id = book → c.totalCopies ≠ l.totalCopies →
    ∀ s, m.before.books.find book.text = some s → s.availableCopies = l.availableCopies

theorem undisturbedCons {m : Commit} : Undisturbed book (m :: h) ↔
    Undisturbed book [m] ∧ Undisturbed book h := by
  simp [Undisturbed]

theorem deskUndisturbed {r : Request} {own : Log} {now : Seen} {m : Commit}
    (e : Effect now own m.before r m.writes) (desk : atDesk r = true) : Undisturbed book [m] := by
  intro m' mem l c wrote _ total
  rw [List.mem_singleton.mp mem] at wrote
  refine absurd ?_ total
  generalize m.writes = writes at e wrote
  cases e with
  | createLoan | returnLoan | cancelLoan | notify => simp at wrote; try (obtain ⟨rfl,rfl⟩ := wrote; rfl)
  | _ => contradiction

theorem catalogueStep {d : Database} {loaded b' : BookModel} {data : BookService.UpdateBookSchema}
    (stored : d.books.find loaded.id.text = some b') (level : surplus d loaded.id b' = 0)
    (low : 0 ≤ b'.availableCopies) (read : loaded.totalCopies = b'.totalCopies)
    (enough : ∀ n ∈ data.totalCopies, loaded.totalCopies - loaded.availableCopies ≤ n) :
    let c := BookService.updated loaded data
    ∃ b₂, (storeBook d.books loaded c).find loaded.id.text = some b₂ ∧ 0 ≤ b₂.availableCopies ∧
      (surplus {d with books := storeBook d.books loaded c} loaded.id b₂ = 0 ↔
        (c.totalCopies ≠ loaded.totalCopies → b'.availableCopies = loaded.availableCopies)) := by
  intro c
  refine ⟨loaded.flush c b',?_,?_⟩
  · unfold storeBook; rw [Table.findModify,if_pos rfl,stored]; rfl
  have lent := updatedLent loaded data
  have same : activeLoans {d with books := storeBook d.books loaded c} loaded.id =
    activeLoans d loaded.id := rfl
  unfold surplus at level ⊢
  rw [same]
  by_cases total : c.totalCopies = loaded.totalCopies
  · have available : c.availableCopies = loaded.availableCopies := by
      have : c.totalCopies - c.availableCopies = _ := lent
      omega
    simp only [BookModel.flush,total,available,flushedSame]
    exact ⟨low,iff_of_true level fun h => absurd rfl h⟩
  · have available : c.availableCopies ≠ loaded.availableCopies := by
      have : c.totalCopies - c.availableCopies = _ := lent
      omega
    have moved : c.totalCopies - c.availableCopies = loaded.totalCopies - loaded.availableCopies := lent
    have new : data.totalCopies = some c.totalCopies := by
      cases asked : data.totalCopies with
      | none => exact absurd (by simp [c,BookService.updated,asked]) total
      | some n => simp [c,BookService.updated,asked]
    have := enough _ new
    simp only [BookModel.flush,flushed,if_neg total,if_neg available]
    refine ⟨by omega,fun _ _ => by omega,fun h => ?_⟩
    have := h total
    omega

section Catalogue
variable {u : Nat} {data : BookService.UpdateBookSchema}

theorem catalogueWrites {seen : Seen} {own : Log} {before : Database} {bookId : String}
    {writes : List Write} (e : Effect seen own before (.updateBook bookId data) writes) :
    ∃ loaded author, own = [] ∧
      seen (fun d _ => BookRepository.findById d bookId = some (loaded,author)) ∧
      loaded.id.text = bookId ∧
      (∀ n ∈ data.totalCopies, loaded.totalCopies - loaded.availableCopies ≤ n) ∧
      writes = [.updateBook loaded (BookService.updated loaded data)] := by
  cases e with
  | updateBook first visible id enough => exact ⟨_,_,first,visible,id,enough,rfl⟩
  | notify _ about => exact about.elim

theorem nobodyElse (none : mine u h = [])
    (others : ∀ j r, j ≠ u → requests j = some r → atDesk r = true) :
    ∀ m ∈ h, ∀ r, requests m.client = some r → atDesk r = true := by
  intro m mem r sent
  refine others _ r ?_ sent
  simpa using List.filter_eq_nil_iff.mp none m mem

theorem racedShelf (updates : requests u = some (.updateBook book.text data))
    (others : ∀ j r, j ≠ u → requests j = some r → atDesk r = true)
    (start : Shelf b book [] d b) (path : PoolPath requests d t h) :
    ∃ b', (stateAfter d h).books.find book.text = some b' ∧ 0 ≤ b'.availableCopies ∧
      (surplus (stateAfter d h) book b' = 0 ↔ Undisturbed book h) := by
  induction path with
  | start => exact ⟨b,start.found,start.low,iff_of_true start.level nofun⟩
  | @commit m h rest before ran clock effect ih =>
    obtain ⟨r,sent,e⟩ := effect
    obtain ⟨b₁,found,low,level⟩ := ih
    rw [← before] at found level
    by_cases client : m.client = u
    · subst client
      cases Option.some.inj (sent.symm.trans updates)
      obtain ⟨loaded,author,first,⟨later,h₀,t₀,grown,_,_,visible⟩,id,enough,writes⟩ := catalogueWrites e
      obtain rfl := uuidExt id
      have desk := nobodyElse first others
      obtain ⟨b₁',shelf⟩ := deskShelf desk start rest
      obtain ⟨b₀,old⟩ := deskShelf (fun m mem => desk m (by rw [grown]; exact List.mem_append_right _ mem))
        start (Path.suffix (grown ▸ rest))
      rw [← before] at shelf
      cases Option.some.inj (old.found.symm.trans (ServiceRules.visibleBook visible).1)
      obtain ⟨b₂,found₂,low₂,balanced⟩ := catalogueStep shelf.found shelf.level shelf.low
        (old.total.trans shelf.total.symm) enough
      rw [writes] at ran
      rw [show stateAfter d (m :: h) = m.after from rfl,ranUpdateBook ran]
      refine ⟨b₂,found₂,low₂,balanced.trans ?_⟩
      cases Option.some.inj (shelf.found.symm.trans found)
      have calm : Undisturbed loaded.id h := level.mp shelf.level
      have here : Undisturbed loaded.id [m] ↔ ∀ s, m.before.books.find loaded.id.text = some s →
          (BookService.updated loaded data).totalCopies ≠ loaded.totalCopies →
            s.availableCopies = loaded.availableCopies := by
        simp only [Undisturbed,List.mem_singleton,forall_eq,writes,Write.updateBook.injEq]
        exact ⟨fun h s found total => h _ _ ⟨rfl,rfl⟩ rfl total s found,
          fun h l c same _ total s found => by obtain ⟨rfl,rfl⟩ := same; exact h s found total⟩
      rw [undisturbedCons,and_iff_left calm,here,found]
      exact ⟨fun h s same => by cases same; exact h,fun h => h _ rfl⟩
    · have desk := others _ r client sent
      obtain ⟨b₂,found₂,same,low₂⟩ := (deskExchange e ran desk).kept book b₁ found
      refine ⟨b₂,found₂,low₂ low,?_⟩
      rw [undisturbedCons,← level,← same]
      exact ⟨fun h => ⟨deskUndisturbed e desk,h⟩,fun h => h.2⟩

end Catalogue
end Paths

section Pools
variable (d : Database) (x : Cache) (t : Int) (requests : Nat → Option Request) (moves : Moves)
  {book : Uuid} {b : BookModel}

theorem fullShelf (start : d.books.find book.text = some b)
    (balanced : b.availableCopies + activeLoans d book = b.totalCopies)
    (low : 0 ≤ b.availableCopies) : Shelf b book [] d b :=
  ⟨start,by unfold surplus; omega,low,rfl,rfl⟩

theorem lenders {s : State} (good : PoolGood requests (fun _ => True) (fun _ _ => True) d t s)
    {j : Nat} {data : LoanService.CreateLoanSchema} (done : succeeded s j = true)
    (sent : requests j = some (.createLoan data)) (here : data.bookId = book.text) :
    j ∈ (s.world.history.filter fun m => lends book m.writes).map (fun m => m.client) := by
  obtain ⟨later,m,own⟩ := succeededFirst good sent done (nofun)
  obtain ⟨inside,client,_,_,e⟩ := firstEffect good.path own sent
  refine List.mem_map.mpr ⟨m,List.mem_filter.mpr ⟨inside,?_⟩,client⟩
  generalize m.writes = writes at e
  cases e with
  | @createLoan _ user loaded _ _ _ _ _ _ stock =>
    have id := (Table.findSound stock).2
    simp [lends,LoanService.newLoan,uuidExt (id.trans here)]
  | notify second => contradiction

/-- Loan requests in any order keep the stock of a book; only free copies and
copies that came back are lent, and no loan gives its copy back twice. -/
theorem deskKeepsStock (only : ∀ j r, requests j = some r → atDesk r = true)
    (start : d.books.find book.text = some b)
    (balanced : b.availableCopies + activeLoans d book = b.totalCopies)
    (low : 0 ≤ b.availableCopies) :
    let s := (begin (settled d x t) requests).run moves
    InStock s.world.db book ∧ (∀ m ∈ s.world.history, InStock m.after book) ∧
    (∀ js : List Nat, js.Nodup → (∀ j ∈ js, succeeded s j = true ∧
        ∃ data, requests j = some (.createLoan data) ∧ data.bookId = book.text) →
      js.length ≤ b.availableCopies + s.world.history.countP fun m => givesBack book m.writes) ∧
    ∀ k, s.world.history.countP (fun m => closes k m.writes) ≤ 1 ∧
      ∀ i j ri rj si sj, requests i = some ri → requests j = some rj → Exits k ri si →
        Exits k rj sj → succeeded s i = true → succeeded s j = true → i = j := by
  intro s
  have good : PoolGood requests (fun _ => True) (fun _ _ => True) d t s :=
    poolGood d x t moves fun _ _ => trivial
  have shelf {h : Log} (path : PoolPath requests d t h) := deskShelf (fun _ _ _ sent => only _ _ sent)
    (fullShelf d start balanced low) path
  refine ⟨?_,fun m mem => ?_,fun js nodup lent => ?_,fun k => ⟨(closedOnce good.path).1,?_⟩⟩
  · obtain ⟨b',last⟩ := shelf good.path
    rw [good.root.db]
    exact shelfStock last
  · obtain ⟨rest,path,_⟩ := Program.pathUpTo good.path mem
    obtain ⟨b',last⟩ := shelf path
    exact shelfStock last
  · obtain ⟨b',last⟩ := shelf good.path
    have counted : b'.availableCopies + (s.world.history.countP fun m => lends book m.writes) =
        b.availableCopies + s.world.history.countP fun m => givesBack book m.writes := last.counted
    have low := last.low
    have sub : js ⊆ (s.world.history.filter fun m => lends book m.writes).map (fun m => m.client) := by
      intro j mem
      obtain ⟨done,data,sent,here⟩ := lent j mem
      exact lenders d t requests good done sent here
    have bound := (nodup.subperm sub).length_le
    rw [List.length_map,← List.countP_eq_length_filter] at bound
    omega
  · exact fun i j ri rj si sj sentI sentJ exitI exitJ doneI doneJ =>
      exitsOnce good sentI sentJ exitI exitJ doneI doneJ

def lastCopy (j : Nat) : Option Request :=
  if j < 2 then some (.createLoan ⟨(sampleId 2).text,(sampleId 3).text⟩) else none

def inTurns : Moves := (List.replicate 40 [(0,tick 4),(1,tick 5)]).flatten

theorem lastCopyStock :
    let s := (begin (settled (sampleShelf 1) [] 0) lastCopy).run inTurns
    InStock s.world.db (sampleId 3) ∧ ¬ (succeeded s 0 = true ∧ succeeded s 1 = true) := by
  have only : ∀ j r, lastCopy j = some r → atDesk r = true := by
    intro j r sent
    unfold lastCopy at sent
    split at sent <;> cases sent
    rfl
  have kept := deskKeepsStock (sampleShelf 1) [] 0 lastCopy inTurns only
    (show (sampleShelf 1).books.find (sampleId 3).text = some (sampleBook 1) by decide)
    (by decide) (by decide)
  refine ⟨kept.1,fun both => absurd (kept.2.2.1 [0,1] (by decide) fun j mem => ?_) (by decide +kernel)⟩
  have two : j = 0 ∨ j = 1 := by simpa using mem
  rcases two with rfl | rfl
  · exact ⟨both.1,_,rfl,rfl⟩
  · exact ⟨both.2,_,rfl,rfl⟩

/-- `update_book` loses no loan exactly if it commits on the counter it read. -/
theorem stockKeptIffUndisturbed {u : Nat} {data : BookService.UpdateBookSchema}
    (updates : requests u = some (.updateBook book.text data))
    (others : ∀ j r, j ≠ u → requests j = some r → atDesk r = true)
    (start : d.books.find book.text = some b)
    (balanced : b.availableCopies + activeLoans d book = b.totalCopies)
    (low : 0 ≤ b.availableCopies) :
    let s := (begin (settled d x t) requests).run moves
    InStock s.world.db book ↔ Undisturbed book s.world.history := by
  intro s
  have good : PoolGood requests (fun _ => True) (fun _ _ => True) d t s :=
    poolGood d x t moves fun _ _ => trivial
  obtain ⟨b',found,low',level⟩ := racedShelf updates others (fullShelf d start balanced low) good.path
  rw [← level,← good.root.db]
  rw [← good.root.db] at found
  unfold surplus
  constructor
  · rintro ⟨b₂,found₂,balanced₂,_⟩
    cases Option.some.inj (found.symm.trans found₂)
    omega
  · intro h
    exact ⟨b',found,by omega,low'⟩

def cataloguing (j : Nat) : Option Request :=
  if j = 0 then some (.updateBook (sampleId 3).text ⟨none,none,some 3⟩)
  else if j = 1 then some (.createLoan ⟨(sampleId 2).text,(sampleId 3).text⟩) else none

def lentInBetween : Moves :=
  (0,tick 4) :: List.replicate 40 (1,tick 5) ++ List.replicate 20 (0,tick 4)

theorem lentInBetweenDisturbs :
    ¬ Undisturbed (sampleId 3)
      ((begin (settled (sampleShelf 2) [] 0) cataloguing).run lentInBetween).world.history := by
  have others : ∀ j r, j ≠ 0 → cataloguing j = some r → atDesk r = true := by
    intro j r other sent
    unfold cataloguing at sent
    rw [if_neg other] at sent
    split at sent <;> cases sent
    rfl
  have iff := stockKeptIffUndisturbed (sampleShelf 2) [] 0 cataloguing lentInBetween (u := 0) rfl others
    (show (sampleShelf 2).books.find (sampleId 3).text = some (sampleBook 2) by decide)
    (by decide) (by decide)
  exact fun calm => absurd (iff.mpr calm) (by decide +kernel)

theorem loanLostToCatalogue :
    let s := (begin (settled (sampleShelf 2) [] 0) cataloguing).run lentInBetween
    InStock (sampleShelf 2) (sampleId 3) ∧ succeeded s 0 = true ∧ succeeded s 1 = true ∧
      ¬ InStock s.world.db (sampleId 3) := by
  decide +kernel

end Pools
end LibraryApi.StockRaces
