import LibraryApi.Runs

/-! When two listings share a cache key. A key joins the arguments with colons and
prints an absent one as None, so two queries are told apart as long as no text of
theirs holds a colon or is that word. -/
namespace LibraryApi.CacheKeys
open Models CacheService Repositories Requests Runs
open BookService (pyText pyBool)
open LoanService (pyStatus)

section Texts

theorem splitCounted {α : Type} [DecidableEq α] {x : α} {a b a' b' : List α}
    (h : a ++ x :: b = a' ++ x :: b') (same : a.count x = a'.count x) : a = a' ∧ b = b' := by
  induction a generalizing a' with
  | nil =>
    cases a' with
    | nil => exact ⟨rfl,(List.cons.inj h).2⟩
    | cons y t =>
      obtain ⟨rfl,_⟩ := List.cons.inj h
      simp at same
  | cons y t ih =>
    cases a' with
    | nil =>
      obtain ⟨rfl,_⟩ := List.cons.inj h
      simp at same
    | cons y' t' =>
      obtain ⟨rfl,tails⟩ := List.cons.inj h
      obtain ⟨rfl,rest⟩ := ih tails (by simpa [List.count_cons] using same)
      exact ⟨rfl,rest⟩

def colons (s : String) : Nat := s.toList.count ':'

theorem splitText {a b a' b' : String} (h : a ++ ":" ++ b = a' ++ ":" ++ b')
    (same : colons a = colons a') : a = a' ∧ b = b' := by
  have chars := congrArg String.toList h
  simp only [String.toList_append,List.append_assoc] at chars
  obtain ⟨left,right⟩ := splitCounted (x := ':') chars same
  exact ⟨String.toList_inj.mp left,String.toList_inj.mp right⟩

theorem colonsJoined (a b : String) : colons (a ++ ":" ++ b) = colons a + 1 + colons b := by
  simp only [colons,String.toList_append,List.count_append]
  rfl

theorem splitLast {a b a' b' : String} (h : a ++ ":" ++ b = a' ++ ":" ++ b')
    (same : colons b = colons b') : a = a' ∧ b = b' := by
  refine splitText h ?_
  have counted := congrArg colons h
  rw [colonsJoined,colonsJoined] at counted
  omega

theorem noColons {s : String} (none : ':' ∉ s.toList) : colons s = 0 := List.count_eq_zero.mpr none

theorem numberColons (n : Nat) : colons (toString n) = 0 := by
  refine noColons fun mem => ?_
  rw [Nat.toString_eq_repr,Nat.toList_repr] at mem
  have digit := Nat.isDigit_of_mem_toDigits (by decide) (by decide) mem
  contradiction

theorem numberSame {m n : Nat} (h : toString m = toString n) : m = n := by
  have digits := congrArg String.toList h
  rw [Nat.toString_eq_repr,Nat.toString_eq_repr,Nat.toList_repr,Nat.toList_repr] at digits
  have read := congrArg (fun ds => Nat.ofDigitChars 10 ds 0) digits
  simpa using read

theorem uuidColons (u : Uuid) : colons u.text = 0 := by
  refine noColons fun mem => ?_
  have form := List.all_eq_true.mp u.form.2 _ mem
  contradiction

def pageKey (pre : String) (p : Pagination) (a b c v : String) : String :=
  pre ++ toString p.page ++ ":" ++ toString p.size ++ ":" ++ a ++ ":" ++ b ++ ":" ++ c ++ ":" ++ v

theorem pageKeySame {pre a b c v a' b' c' v' : String} {p p' : Pagination}
    (last : colons v = colons v') (h : pageKey pre p a b c v = pageKey pre p' a' b' c' v') :
    p = p' ∧ a ++ ":" ++ b ++ ":" ++ c = a' ++ ":" ++ b' ++ ":" ++ c' ∧ v = v' := by
  unfold pageKey at h
  obtain ⟨h,tail⟩ := splitLast h last
  have grouped : pre ++ toString p.page ++ ":" ++ (toString p.size ++ ":" ++ (a ++ ":" ++ b ++ ":" ++ c)) =
      pre ++ toString p'.page ++ ":" ++ (toString p'.size ++ ":" ++ (a' ++ ":" ++ b' ++ ":" ++ c')) := by
    simpa only [String.append_assoc] using h
  have pages : colons (pre ++ toString p.page) = colons (pre ++ toString p'.page) := by
    have := numberColons p.page
    have := numberColons p'.page
    simp only [colons,String.toList_append,List.count_append] at *
    omega
  obtain ⟨page,h⟩ := splitText grouped pages
  obtain ⟨size,h⟩ := splitText h ((numberColons _).trans (numberColons _).symm)
  refine ⟨?_,h,tail⟩
  have page := numberSame (String.append_right_inj pre |>.mp page)
  have size := numberSame size
  cases p; cases p'; cases page; cases size; rfl

theorem boolColons (b : Option Bool) : colons (pyBool b) = 0 := by
  rcases b with _ | _ | _ <;> rfl

theorem boolSame {a b : Option Bool} (h : pyBool a = pyBool b) : a = b := by
  rcases a with _ | _ | _ <;> rcases b with _ | _ | _ <;> first | rfl | simp [pyBool] at h

theorem statusColons (s : Option LoanStatus) : colons (pyStatus s) = 0 := by
  rcases s with _ | _ | _ | _ <;> rfl

theorem statusSame {a b : Option LoanStatus} (h : pyStatus a = pyStatus b) : a = b := by
  rcases a with _ | _ | _ | _ <;> rcases b with _ | _ | _ | _ <;> first | rfl | simp [pyStatus] at h

theorem printedSame {a b : Option String} (printed : pyText a = pyText b)
    (left : a = none → b ≠ some "None") (right : b = none → a ≠ some "None") : a = b := by
  cases a with
  | none =>
    cases b with
    | none => rfl
    | some s => exact absurd (congrArg some printed.symm) (left rfl)
  | some r =>
    cases b with
    | none => exact absurd (congrArg some printed) (right rfl)
    | some s => exact congrArg some printed

theorem pageKeyAlike {pre a b c v a' b' c' v' : String} {p : Pagination}
    (texts : a ++ ":" ++ b ++ ":" ++ c = a' ++ ":" ++ b' ++ ":" ++ c') (last : v = v') :
    pageKey pre p a b c v = pageKey pre p a' b' c' v' := by
  have split (a b c v : String) : pageKey pre p a b c v = pre ++ toString p.page ++ ":" ++
      toString p.size ++ ":" ++ (a ++ ":" ++ b ++ ":" ++ c) ++ ":" ++ v := by
    simp only [pageKey,String.append_assoc]
  rw [split,split,texts,last]

end Texts

def SameRows {α : Type} (lower : Char → Char) (p q : Service α) : Prop :=
  ∀ w env, (∀ n, (env n).answer.lower = lower) →
    (Program.alone 0 p [] w env).1 = (Program.alone 0 q [] w env).1

section Books
open BookRepository (Filters selects withAuthors)
open Wildcard (likeSample sampleFits sampleCount likeCount likeReads)
variable {lower : Char → Char} {p p' : Pagination} {f f' : Filters}

def printed (f : Filters) : String :=
  pyText f.title ++ ":" ++ pyText f.category ++ ":" ++ pyText f.author

structure Confused (p p' : Pagination) (f f' : Filters) : Prop where
  page : p = p'
  available : f.available = f'.available
  printed : printed f = printed f'
  other : f ≠ f'

theorem bookKey : BookService.listKey p f =
    pageKey "books:list:" p (pyText f.title) (pyText f.category) (pyText f.author) (pyBool f.available) := by
  unfold BookService.listKey pageKey; rfl

theorem bookKeySame : BookService.listKey p f = BookService.listKey p' f' ↔
    p = p' ∧ printed f = printed f' ∧ f.available = f'.available := by
  rw [bookKey,bookKey]
  constructor
  · intro h
    obtain ⟨page,texts,available⟩ := pageKeySame ((boolColons _).trans (boolColons _).symm) h
    exact ⟨page,texts,boolSame available⟩
  · rintro ⟨rfl,texts,available⟩
    exact pageKeyAlike texts (congrArg pyBool available)

def likeText : Option String → String
  | none => ""
  | some s => String.ofList (likeSample ("%" ++ s ++ "%").toList)

def meets (lower : Char → Char) (column : String) (filter : Option String) : Bool :=
  given filter fun s => ilike lower column ("%" ++ s ++ "%")

theorem patternReads (s : String) : ∃ ps, Wildcard.readLike ("%" ++ s ++ "%").toList = some ps := by
  rw [String.toList_append]
  exact likeReads _

theorem likeTextMeets (filter : Option String) : meets lower (likeText filter) filter = true := by
  cases filter with
  | none => rfl
  | some s =>
    obtain ⟨ps,read⟩ := patternReads s
    simp only [meets,given,ilike,read,likeText,String.toList_ofList,sampleFits lower read,Bool.or_true]

theorem patternColons (s : String) : ("%" ++ s ++ "%").toList.count ':' = colons s := by
  have none : List.count ':' "%".toList = 0 := by decide
  rw [String.toList_append,String.toList_append,List.count_append,List.count_append,none]
  simp [colons]

theorem likeTextColons (filter : Option String) : colons (likeText filter) = colons (pyText filter) := by
  cases filter with
  | none => rfl
  | some s =>
    have kept := sampleCount (x := ':') (by decide) (by decide) (by decide) ("%" ++ s ++ "%").toList
    rw [patternColons] at kept
    unfold likeText colons
    rw [String.toList_ofList]
    exact kept

theorem meetsColons (only : ∀ c, lower c = lower ':' → c = ':') {a b : Option String}
    (h : meets lower (likeText b) a = true) :
    colons (pyText a) ≤ colons (pyText b) := by
  cases a with
  | none => exact Nat.zero_le _
  | some s =>
    simp only [meets,given,Bool.or_eq_true] at h
    rcases h with empty | hit
    · rw [String.isEmpty_iff.mp empty]; exact Nat.zero_le _
    · obtain ⟨ps,read⟩ := patternReads s
      simp only [ilike,read] at hit
      have few := likeCount (x := ':') (by decide) (by decide) (by decide) only read hit
      rw [patternColons] at few
      rw [← likeTextColons b]
      exact few

theorem meetsOther {a b : Option String} (none : b = none) (h : meets lower (likeText b) a = true) :
    a ≠ some "None" := by
  rintro rfl
  have empty : meets lower "" (some "None") = false := rfl
  rw [none] at h
  exact absurd h (by rw [show likeText Option.none = "" from rfl,empty]; decide)

def sampleRow (f : Filters) : BookModel × AuthorModel :=
  ({sampleBook 1 with
    title := likeText f.title
    category := f.category.getD ""
    availableCopies := if f.available = some false then 0 else 1},
  {sampleAuthor with name := likeText f.author})

theorem selectsParts {row : BookModel × AuthorModel} (h : selects lower f row = true) :
    meets lower row.1.title f.title = true ∧ given f.category (row.1.category == ·) = true ∧
      meets lower row.2.name f.author = true := by
  simp only [selects,Bool.and_eq_true] at h
  exact ⟨h.1.1.1.2,h.1.1.2,h.1.2⟩

theorem sampleSelected (f : Filters) : selects lower f (sampleRow f) = true := by
  have category : given f.category (f.category.getD "" == ·) = true := by
    cases f.category <;> simp [given]
  simp only [selects,Bool.and_eq_true]
  refine ⟨⟨⟨⟨⟨rfl,rfl⟩,likeTextMeets f.title⟩,category⟩,likeTextMeets f.author⟩,?_⟩
  rcases shown : f.available with _ | _ | _ <;> simp [sampleRow,shown]

theorem givenColons {a b : Option String} (h : given a (b.getD "" == ·) = true) :
    colons (pyText a) = 0 ∨ a = b := by
  cases a with
  | none => exact .inl rfl
  | some s =>
    simp only [given,Bool.or_eq_true,beq_iff_eq] at h
    rcases h with empty | same
    · exact .inl (by rw [String.isEmpty_iff.mp empty]; rfl)
    · cases b with
      | none => exact .inl (by rw [← same]; rfl)
      | some r => exact .inr (congrArg some same.symm)

theorem givenOther {a b : Option String} (none : b = none) (h : given a (b.getD "" == ·) = true) :
    a ≠ some "None" := by
  rintro rfl
  rw [none] at h
  revert h
  decide

theorem filtersSame (only : ∀ c, lower c = lower ':' → c = ':') (alike : printed f = printed f') (available : f.available = f'.available)
    (h : ∀ g, selects lower f (sampleRow g) = selects lower f' (sampleRow g)) : f = f' := by
  obtain ⟨title,category,author⟩ := selectsParts ((h f').trans (sampleSelected f'))
  obtain ⟨title',category',author'⟩ := selectsParts ((h f).symm.trans (sampleSelected f))
  have titles : colons (pyText f.title) = colons (pyText f'.title) :=
    Nat.le_antisymm (meetsColons only title) (meetsColons only title')
  have categories : colons (pyText f.category) = colons (pyText f'.category) := by
    rcases givenColons category with left | same
    · rcases givenColons category' with right | same
      · rw [left,right]
      · rw [same]
    · rw [same]
  have counted := congrArg colons alike
  unfold printed at alike counted
  rw [colonsJoined,colonsJoined,colonsJoined,colonsJoined] at counted
  obtain ⟨texts,authors⟩ := splitLast alike (by omega)
  obtain ⟨texts,texts'⟩ := splitText texts titles
  have one := printedSame texts (fun none => meetsOther none title') (fun none => meetsOther none title)
  have two := printedSame texts' (fun none => givenOther none category') (fun none => givenOther none category)
  have three := printedSame authors (fun none => meetsOther none author') (fun none => meetsOther none author)
  cases f; cases f'; cases one; cases two; cases three; cases available; rfl

theorem listed (p : Pagination) (f : Filters) (w : World) (env : Oracle) :
    (Program.alone 0 (BookRepository.listBooksPaginated p f) [] w env).1 =
      .ok (p.rows (arranged (env 0).answer.order ((withAuthors w.db).filter (selects (env 1).answer.lower f))),
        ((withAuthors w.db).filter (selects (env 1).answer.lower f)).length) := rfl

def single (row : BookModel × AuthorModel) : Database :=
  {Database.empty with
    authors := ⟨[row.2],by simp⟩
    books := ⟨[row.1],by simp⟩}

theorem rowsSame (h : SameRows lower (BookRepository.listBooksPaginated p f)
    (BookRepository.listBooksPaginated p' f')) (g : Filters) :
    selects lower f (sampleRow g) = selects lower f' (sampleRow g) := by
  have shown := h (settled (single (sampleRow g)) [] 0) (fun n => {tick n with answer := {(tick n).answer with lower := lower}})
    fun _ => rfl
  rw [listed,listed] at shown
  have totals := congrArg Prod.snd (Except.ok.inj shown)
  replace totals : ([sampleRow g].filter (selects lower f)).length = ([sampleRow g].filter (selects lower f')).length :=
    totals
  cases left : selects lower f (sampleRow g) <;> cases right : selects lower f' (sampleRow g) <;>
    simp [left,right] at totals ⊢

theorem bookKeyTells (only : ∀ c, lower c = lower ':' → c = ':') : (BookService.listKey p f = BookService.listKey p' f' →
    SameRows lower (BookRepository.listBooksPaginated p f) (BookRepository.listBooksPaginated p' f')) ↔
      ¬ Confused p p' f f' := by
  rw [bookKeySame]
  constructor
  · intro h confused
    have same := h ⟨confused.page,confused.printed,confused.available⟩
    exact confused.other (filtersSame only confused.printed confused.available (rowsSame same))
  · rintro apart ⟨rfl,alike,available⟩
    by_cases same : f = f'
    · subst same; exact fun _ _ _ => rfl
    · exact absurd ⟨rfl,available,alike,same⟩ apart

end Books

section Loans
open LoanRepository (Filters selects)
variable {lower : Char → Char} {p p' : Pagination} {f f' : Filters}

structure ConfusedLoans (p p' : Pagination) (f f' : Filters) : Prop where
  page : p = p'
  user : pyText f.userId = pyText f'.userId
  book : pyText f.bookId = pyText f'.bookId
  status : f.status = f'.status
  overdue : f.overdue = f'.overdue
  other : f ≠ f'
  met : ∃ now l, selects now f l = true ∨ selects now f' l = true

theorem loanKey : LoanService.listKey p f =
    pageKey "loans:list:" p (pyText f.userId) (pyText f.bookId) (pyStatus f.status) (pyBool f.overdue) := by
  unfold LoanService.listKey pageKey; rfl

theorem loanKeySame : LoanService.listKey p f = LoanService.listKey p' f' ↔
    p = p' ∧ pyText f.userId ++ ":" ++ pyText f.bookId = pyText f'.userId ++ ":" ++ pyText f'.bookId ∧
      f.status = f'.status ∧ f.overdue = f'.overdue := by
  rw [loanKey,loanKey]
  constructor
  · intro h
    obtain ⟨page,texts,overdue⟩ := pageKeySame ((boolColons _).trans (boolColons _).symm) h
    obtain ⟨ids,status⟩ := splitLast texts ((statusColons _).trans (statusColons _).symm)
    exact ⟨page,ids,statusSame status,boolSame overdue⟩
  · rintro ⟨rfl,ids,status,overdue⟩
    exact pageKeyAlike (by rw [ids,status]) (congrArg pyBool overdue)

theorem idGiven {u : Uuid} {filter : Option String} (h : given filter (u.text == ·) = true) :
    colons (pyText filter) = 0 ∧ filter ≠ some "None" := by
  cases filter with
  | none => exact ⟨rfl,nofun⟩
  | some s =>
    simp only [given,Bool.or_eq_true,beq_iff_eq] at h
    rcases h with empty | same
    · rw [String.isEmpty_iff.mp empty]
      exact ⟨rfl,by simp⟩
    · subst same
      refine ⟨uuidColons u,fun none => ?_⟩
      have form := u.form.1
      rw [Option.some.inj none] at form
      contradiction

theorem loanParts {now : Int} {l : LoanModel} (h : selects now f l = true) :
    given f.userId (l.userId.text == ·) = true ∧ given f.bookId (l.bookId.text == ·) = true := by
  simp only [selects,Bool.and_eq_true] at h
  exact ⟨h.1.1.1,h.1.1.2⟩

theorem metColons {now : Int} {l : LoanModel} (h : selects now f l = true) :
    colons (pyText f.userId) + colons (pyText f.bookId) = 0 := by
  obtain ⟨user,book⟩ := loanParts h
  rw [(idGiven user).1,(idGiven book).1]

theorem loansListed (p : Pagination) (f : Filters) (w : World) (env : Oracle) :
    (Program.alone 0 (LoanRepository.listPaginated p f) [] w env).1 =
      .ok (p.rows (arranged (env 1).answer.order (w.db.loans.rows.filter (selects (w.clock + (env 0).elapsed) f))),
        (w.db.loans.rows.filter (selects (w.clock + (env 0).elapsed) f)).length) := rfl

theorem metTells {now : Int} {l : LoanModel} (met : selects now f l = true)
    (user : pyText f.userId = pyText f'.userId) (book : pyText f.bookId = pyText f'.bookId)
    (status : f.status = f'.status) (overdue : f.overdue = f'.overdue)
    (h : SameRows lower (LoanRepository.listPaginated p f) (LoanRepository.listPaginated p' f')) : f = f' := by
  have shown := h (settled {Database.empty with loans := ⟨[l],by simp⟩} [] now)
    (fun n => {tick n with answer := {(tick n).answer with lower := lower}}) fun _ => rfl
  rw [loansListed,loansListed] at shown
  have totals := congrArg Prod.snd (Except.ok.inj shown)
  replace totals : ([l].filter (selects (now + 0) f)).length = ([l].filter (selects (now + 0) f')).length :=
    totals
  rw [Int.add_zero] at totals
  have met' : selects now f' l = true := by
    cases right : selects now f' l
    · simp [met,right] at totals
    · rfl
  obtain ⟨users,books⟩ := loanParts met
  obtain ⟨users',books'⟩ := loanParts met'
  have one := printedSame user (fun _ => (idGiven users').2) (fun _ => (idGiven users).2)
  have two := printedSame book (fun _ => (idGiven books').2) (fun _ => (idGiven books).2)
  cases f; cases f'; cases one; cases two; cases status; cases overdue; rfl

theorem loanKeyTells : (LoanService.listKey p f = LoanService.listKey p' f' →
    SameRows lower (LoanRepository.listPaginated p f) (LoanRepository.listPaginated p' f')) ↔
      ¬ ConfusedLoans p p' f f' := by
  rw [loanKeySame]
  constructor
  · rintro h ⟨page,user,book,status,overdue,other,now,l,met⟩
    have same := h ⟨page,by rw [user,book],status,overdue⟩
    rcases met with met | met
    · exact other (metTells met user book status overdue same)
    · exact other (metTells met user.symm book.symm status.symm overdue.symm
        fun w env folds => (same w env folds).symm).symm
  · rintro apart ⟨rfl,ids,status,overdue⟩
    by_cases same : f = f'
    · subst same; exact fun _ _ _ => rfl
    by_cases met : ∃ now l, selects now f l = true ∨ selects now f' l = true
    · have none : colons (pyText f.userId) = colons (pyText f'.userId) := by
        have counted := congrArg colons ids
        rw [colonsJoined,colonsJoined] at counted
        obtain ⟨now,l,met | met⟩ := met
        · have := metColons met; omega
        · have := metColons met; omega
      obtain ⟨user,book⟩ := splitText ids none
      exact absurd ⟨rfl,user,book,status,overdue,same,met⟩ apart
    · have never (now : Int) (rows : List LoanModel) :
          rows.filter (selects now f) = [] ∧ rows.filter (selects now f') = [] := by
        refine ⟨List.filter_eq_nil_iff.mpr fun l _ hit => ?_,List.filter_eq_nil_iff.mpr fun l _ hit => ?_⟩
        · exact met ⟨now,l,.inl hit⟩
        · exact met ⟨now,l,.inr hit⟩
      intro w env _
      rw [loansListed,loansListed,(never _ _).1,(never _ _).2]

end Loans

/-- Equal keys of two listings mean equal rows exactly for arguments that are not confused:
books whose title, category and author, joined, read alike though they differ; loans
of which one query leaves an id out and the other looks for the id None. -/
theorem keysTell (lower : Char → Char) (only : ∀ c, lower c = lower ':' → c = ':') (p p' : Pagination) :
    (∀ f f' : BookRepository.Filters, (BookService.listKey p f = BookService.listKey p' f' →
      SameRows lower (BookRepository.listBooksPaginated p f) (BookRepository.listBooksPaginated p' f')) ↔
        ¬ Confused p p' f f') ∧
    (∀ f f' : LoanRepository.Filters, (LoanService.listKey p f = LoanService.listKey p' f' →
      SameRows lower (LoanRepository.listPaginated p f) (LoanRepository.listPaginated p' f')) ↔
        ¬ ConfusedLoans p p' f f') :=
  ⟨fun _ _ => bookKeyTells only,fun _ _ => loanKeyTells⟩

def firstPage : Pagination := ⟨1,10,by decide,by decide⟩

theorem toLowerColon (c : Char) (h : c.toLower = ':'.toLower) : c = ':' := by
  have plain : ':'.toLower = ':' := rfl
  rw [plain] at h
  unfold Char.toLower at h
  split at h
  · rename_i upper
    have value : c.val + ('a'.val - 'A'.val) = ':'.val := congrArg Char.val h
    have low : 'A'.val.toNat ≤ c.val.toNat := upper.1
    have high : c.val.toNat ≤ 'Z'.val.toNat := upper.2
    have sum := congrArg UInt32.toNat value
    rw [UInt32.toNat_add] at sum
    simp at low high sum
    omega
  · exact h

def byTitle (title : Option String) : BookRepository.Filters := ⟨title,none,none,none⟩
def byUser (user : Option String) : LoanRepository.Filters := ⟨user,none,none,none⟩

def ascii (n : Nat) : Program.Env Answer :=
  {tick n with answer := {(tick n).answer with lower := Char.toLower}}

theorem keysTellAscii : (BookService.listKey firstPage (byTitle (some "Dom")) =
      BookService.listKey firstPage (byTitle (some "dom")) →
    SameRows Char.toLower (BookRepository.listBooksPaginated firstPage (byTitle (some "Dom")))
      (BookRepository.listBooksPaginated firstPage (byTitle (some "dom")))) ↔
    ¬ Confused firstPage firstPage (byTitle (some "Dom")) (byTitle (some "dom")) :=
  (keysTell Char.toLower toLowerColon firstPage firstPage).1 _ _

theorem keysShared :
    (BookService.listKey firstPage (byTitle none) = BookService.listKey firstPage (byTitle (some "None")) ∧
      ¬ SameRows Char.toLower (BookRepository.listBooksPaginated firstPage (byTitle none))
        (BookRepository.listBooksPaginated firstPage (byTitle (some "None")))) ∧
    (LoanService.listKey firstPage (byUser none) = LoanService.listKey firstPage (byUser (some "None")) ∧
      ¬ SameRows Char.toLower (LoanRepository.listPaginated firstPage (byUser none))
        (LoanRepository.listPaginated firstPage (byUser (some "None")))) := by
  refine ⟨⟨rfl,fun same => ?_⟩,rfl,fun same => ?_⟩
  · have shown := same (settled (sampleShelf 1) [] 0) (fun n => ascii n) fun _ => rfl
    rw [listed,listed] at shown
    exact absurd (congrArg Prod.snd (Except.ok.inj shown)) (by decide +kernel)
  · have shown := same lentOnce (fun n => ascii n) fun _ => rfl
    rw [loansListed,loansListed] at shown
    exact absurd (congrArg Prod.snd (Except.ok.inj shown)) (by decide +kernel)

end LibraryApi.CacheKeys
