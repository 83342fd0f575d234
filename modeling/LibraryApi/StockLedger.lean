import LibraryApi.Permanence
import LibraryApi.StockInvariant

/-! The shelves of the whole application. Whatever the sessions do, counters below zero do not
come about, and counters and ACTIVE loans drift apart by nothing but `update_book` setting
`total_copies`: by the copies the loan desk moved between its read and its commit. -/
namespace LibraryApi.StockLedger
open Models CacheService KeyedTable Requests Effects Runs CommittedRows StockInvariant Security Api Application
open Program (execAll stateAfter)

def lent (b : BookModel) : Int := b.totalCopies - b.availableCopies

/-- The copies a commit makes up for the book: both counters are set from the row that was
read, so what the desk moved since is lost. -/
def drift (book : Uuid) (before : Database) : List Write → Int
  | [.updateBook l c] => if l.id = book ∧ c.totalCopies ≠ l.totalCopies
      then (before.books.find book.text).elim 0 fun stored => lent stored - lent l
      else 0
  | _ => 0

def gains (book : Uuid) : Log → Int
  | [] => 0
  | m :: h => gains book h + drift book m.before m.writes

structure Shelved (book : Uuid) (gain : Int) (b : BookModel) (d d' : Database) : Prop where
  gained : ∃ b', d'.books.find book.text = some b' ∧ surplus d' book b' = surplus d book b + gain ∧
    (0 ≤ b.availableCopies → 0 ≤ b'.availableCopies)

structure Newborn (book : Uuid) (writes : List Write) (d' : Database) : Prop where
  row : ∃ b, d'.books.find book.text = some b ∧ .insertBook b ∈ writes ∧ surplus d' book b = 0 ∧
    b.availableCopies = b.totalCopies

structure Restocked (writes : List Write) (d d' : Database) : Prop where
  kept : ∀ (book : Uuid) b, d.books.find book.text = some b → Shelved book (drift book d writes) b d d'
  none : ∀ book : Uuid, d.books.find book.text = none → d'.books.find book.text = none ∨ Newborn book writes d'
  referenced : Referenced d'

section Commits
variable {seen : Seen} {own : Log} {before after : Database} {r : Request} {writes : List Write} {book : Uuid}

theorem driftAbsent (absent : before.books.find book.text = none) (writes : List Write) : drift book before writes = 0 := by
  unfold drift
  split
  · rw [absent]
    simp
  · rfl

theorem exchangeRestocked (x : Exchange before after) (still : ∀ book, drift book before writes = 0)
    (referenced : Referenced before) : Restocked writes before after := by
  refine ⟨fun book b found => ?_,fun book absent => .inl (x.none _ absent),x.referenced referenced⟩
  obtain ⟨b',found',same,low⟩ := x.kept book b found
  exact ⟨b',found',by rw [still,same,Int.add_zero],low⟩

theorem resized {data : BookService.UpdateBookSchema} {l s : BookModel} (enough : ∀ n ∈ data.totalCopies, lent l ≤ n) :
    let c := BookService.updated l data
    let b := l.flush c s
    lent b = (if c.totalCopies = l.totalCopies then lent s else lent l) ∧ (0 ≤ s.availableCopies → 0 ≤ b.availableCopies) := by
  unfold BookService.updated lent at *
  cases total : data.totalCopies with
  | none => simp [BookModel.flush]
  | some n =>
    have room := enough n total
    simp only [BookModel.flush,flushed]
    by_cases same : n = l.totalCopies
    · subst same
      simp
    · have moved : l.availableCopies + (n - l.totalCopies) ≠ l.availableCopies := by omega
      simp only [if_neg same,if_neg moved]
      omega

theorem updateRestocked {data : BookService.UpdateBookSchema} {l : BookModel} (enough : ∀ n ∈ data.totalCopies, lent l ≤ n)
    (ran : execAll ([.updateBook l (BookService.updated l data)] : List Write) before = .ok after) (referenced : Referenced before) :
    Restocked [.updateBook l (BookService.updated l data)] before after := by
  obtain rfl := ranUpdateBook ran
  have find (k : String) : (storeBook before.books l (BookService.updated l data)).find k =
      if k = l.id.text then (before.books.find k).map (l.flush (BookService.updated l data)) else before.books.find k :=
    Table.findModify k
  refine ⟨fun book b found => ?_,fun book absent => .inl ?_,fun x mem => ?_⟩
  · by_cases here : book = l.id
    · subst here
      obtain ⟨counters,low⟩ := resized (s := b) enough
      refine ⟨_,by rw [find,if_pos rfl,found]; rfl,?_,low⟩
      show _ + (activeLoans before l.id : Int) - _ = _ + (activeLoans before l.id : Int) - _ + _
      unfold lent at counters
      simp only [drift,found,Option.elim_some,lent,true_and]
      split
      · rename_i moved
        rw [if_neg moved] at counters
        omega
      · rename_i same
        rw [if_pos (not_not.mp same)] at counters
        omega
    · have other : book.text ≠ l.id.text := fun same => here (uuidExt same)
      refine ⟨b,by rw [find,if_neg other]; exact found,?_,id⟩
      rw [drift,if_neg fun same => here same.1.symm,Int.add_zero]
      rfl
  · show (storeBook before.books l (BookService.updated l data)).find book.text = none
    rw [find,absent]
    simp
  · obtain ⟨b,found⟩ := referenced x mem
    show ∃ b, (storeBook before.books l (BookService.updated l data)).find _ = some b
    rw [find,found]
    split <;> exact ⟨_,rfl⟩

theorem bornRestocked {row : BookModel} (ran : execAll ([.insertBook row] : List Write) before = .ok after)
    (full : row.availableCopies = row.totalCopies) (referenced : Referenced before) : Restocked [.insertBook row] before after := by
  obtain ⟨books,added,rfl⟩ := ranInsertBook ran
  refine ⟨fun book b found => ⟨b,Database.insertKeeps added found,(Int.add_zero _).symm,id⟩,fun book absent => ?_,fun l mem => ?_⟩
  · show books.find book.text = none ∨ _
    have balanced : Balanced {before with books := books} book :=
      addedBook added full referenced fun b found => nomatch absent.symm.trans found
    by_cases here : row.id = book
    · subst here
      have stored : books.find row.id.text = some row := by rw [Table.findInsert added,if_pos rfl]
      exact .inr ⟨row,stored,List.mem_singleton_self _,balanced row stored,full⟩
    · rw [Table.findInsert added,if_neg fun same => here (uuidExt same)]
      exact .inl absent
  · obtain ⟨b,found⟩ := referenced l mem
    exact ⟨b,Database.insertKeeps added found⟩

theorem driftOther (e : Effect seen own before r writes) (other : ∀ bookId data, r ≠ .updateBook bookId data) :
    drift book before writes = 0 := by
  cases e with
  | updateBook => exact absurd rfl (other _ _)
  | deleteBook => exact if_neg fun moved => moved.2 rfl
  | deleteAuthor => rfl
  | _ => rfl

theorem effectRestocked (e : Effect seen own before r writes) (ran : execAll writes before = .ok after)
    (referenced : Referenced before) : Restocked writes before after := by
  by_cases update : ∃ bookId data, r = .updateBook bookId data
  · obtain ⟨bookId,data,rfl⟩ := update
    cases e with
    | updateBook _ _ _ enough => exact updateRestocked enough ran referenced
    | notify _ about => exact about.elim
  by_cases create : ∃ data, r = .createBook data
  · obtain ⟨data,rfl⟩ := create
    obtain ⟨row,rfl⟩ := createdBook e
    exact bornRestocked ran (bornBook e (List.mem_singleton_self _)).2.2 referenced
  have other (bookId : String) (data : BookService.UpdateBookSchema) (same : r = .updateBook bookId data) : False :=
    update ⟨_,_,same⟩
  refine exchangeRestocked (effectExchange (fun _ _ same => (other _ _ same).elim) e ran fun data same => create ⟨data,same⟩)
    (fun book => driftOther e fun _ _ same => other _ _ same) referenced

theorem deedRestocked {task : Task} (e : Deed seen own before task writes) (ran : execAll writes before = .ok after)
    (referenced : Referenced before) : Restocked writes before after := by
  cases task with
  | request r => exact effectRestocked e ran referenced
  | reminders =>
    obtain ⟨_,_,_⟩ := e
    cases ran
    exact exchangeRestocked (exchangeSame rfl rfl) (fun _ => rfl) referenced

end Commits

section Runs
variable {s : Deployment} {clients : Nat → Option Client} {d : Database} {t : Int} {h : Log} {m : Commit} {book : Uuid}

theorem commitRestocked (path : SystemPath s clients d t (m :: h)) (referenced : Referenced m.before) :
    Restocked m.writes m.before m.after := by
  cases path with
  | commit _ _ ran _ allowed =>
    obtain ⟨_,_,_,done⟩ := allowed
    exact deedRestocked done.deed ran referenced

theorem pathReferenced (start : Referenced d) (path : SystemPath s clients d t h) : Referenced (stateAfter d h) := by
  induction path with
  | start => exact start
  | @commit m h rest before ran clock allowed ih =>
    exact (commitRestocked (.commit rest before ran clock allowed) (before ▸ ih)).referenced

theorem shelvedHistory (start : Referenced d) {b : BookModel} (found : d.books.find book.text = some b)
    (path : SystemPath s clients d t h) : Shelved book (gains book h) b d (stateAfter d h) := by
  induction path with
  | start => exact ⟨b,found,(Int.add_zero _).symm,id⟩
  | @commit m h rest before ran clock allowed ih =>
    obtain ⟨b₁,found₁,same₁,low₁⟩ := ih
    have step := commitRestocked (.commit rest before ran clock allowed) (before ▸ pathReferenced start rest)
    rw [← before] at found₁ same₁
    obtain ⟨b₂,found₂,same₂,low₂⟩ := step.kept book b₁ found₁
    refine ⟨b₂,found₂,?_,low₂ ∘ low₁⟩
    show surplus m.after book b₂ = surplus d book b + (gains book h + drift book m.before m.writes)
    rw [same₂,same₁,Int.add_assoc]

structure Acquired (book : Uuid) (d' : Database) (h : Log) : Prop where
  row : ∃ b', d'.books.find book.text = some b' ∧ surplus d' book b' = gains book h ∧
    ∃ m ∈ h, ∃ b, .insertBook b ∈ m.writes ∧ b.id = book ∧ (0 ≤ b.totalCopies → 0 ≤ b'.availableCopies)

theorem acquiredHistory (start : Referenced d) (absent : d.books.find book.text = none) (path : SystemPath s clients d t h) :
    ((stateAfter d h).books.find book.text = none ∧ gains book h = 0) ∨ Acquired book (stateAfter d h) h := by
  induction path with
  | start => exact .inl ⟨absent,rfl⟩
  | @commit m h rest before ran clock allowed ih =>
    have step := commitRestocked (.commit rest before ran clock allowed) (before ▸ pathReferenced start rest)
    have grown : gains book (m :: h) = gains book h + drift book m.before m.writes := rfl
    show (m.after.books.find book.text = none ∧ _) ∨ Acquired book m.after (m :: h)
    rw [← before] at ih
    rcases ih with ⟨none,zero⟩ | ⟨b₁,found₁,same₁,m₀,mem,row,made,id,low⟩
    · rw [driftAbsent none,zero,Int.add_zero] at grown
      rcases step.none book none with still | ⟨b,found,made,even,full⟩
      · exact .inl ⟨still,grown⟩
      · refine .inr ⟨b,found,by rw [even,grown],m,List.mem_cons_self,b,made,uuidExt (Table.findSound found).2,fun low => ?_⟩
        rw [full]
        exact low
    · obtain ⟨b₂,found₂,same₂,low₂⟩ := step.kept book b₁ found₁
      refine .inr ⟨b₂,found₂,by rw [same₂,same₁,grown],m₀,List.mem_cons_of_mem _ mem,row,made,id,?_⟩
      exact fun some => low₂ (low some)

/-- The books of every run, to the copy: what a book has on its shelf and on loan beside its total
is what it had at the start and what commits of `update_book` made up, and no counter that
started at zero or above is ever below. -/
theorem stockAccounted (s : Deployment) (clients : Nat → Option Client) {d : Database} (x : Cache) (t : Int) (moves : Moves)
    (start : Referenced d) (book : Uuid) :
    let final := ((receive s (settled d x t) clients).run moves).world
    (∀ b, d.books.find book.text = some b → Shelved book (gains book final.history) b d final.db) ∧
      (d.books.find book.text = none →
        (final.db.books.find book.text = none ∧ gains book final.history = 0) ∨ Acquired book final.db final.history) := by
  obtain ⟨path,last⟩ := systemPath s clients (w := settled d x t) rfl moves
  intro final
  rw [last]
  exact ⟨fun b found => shelvedHistory start found path,fun absent => acquiredHistory start absent path⟩

def resizing (j : Nat) : Option Client :=
  if j = 0 then some (.bearer (sampleId 2).text (.updateBook (sampleId 3).text ⟨none,none,some 3⟩))
  else if j = 1 then some (.bearer (sampleId 2).text (.endpoint (.createLoan ⟨(sampleId 2).text,(sampleId 3).text⟩))) else none

def lentMeanwhile : Moves := List.replicate 3 (0,tick 4) ++ List.replicate 40 (1,tick 5) ++ List.replicate 20 (0,tick 4)

theorem lentMeanwhileAccounted :
    let final := ((receive plainTokens (settled (ruledShelf 2) [] 0) resizing).run lentMeanwhile).world
    gains (sampleId 3) final.history = 1 ∧
      Shelved (sampleId 3) (gains (sampleId 3) final.history) (sampleBook 2) (ruledShelf 2) final.db := by
  refine ⟨by decide +kernel,(stockAccounted plainTokens resizing [] 0 lentMeanwhile (fun l mem => ?_) (sampleId 3)).1 _ (by decide)⟩
  exact absurd mem List.not_mem_nil

end Runs
end LibraryApi.StockLedger
