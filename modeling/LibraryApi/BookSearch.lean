import LibraryApi.Listings

/-! Search by title and by author. What the reader types is put between two percent signs
and read as a LIKE pattern, so it is found as it stands only if the pattern language has no
other reading of it. -/
namespace LibraryApi.BookSearch
open Models CacheService KeyedTable Repositories Requests Runs Paging Listings
open Repositories.BookRepository (Filters selects withAuthors)
open Listings.BookRepository (listPage listPageShown shown)
open Program (alone)

def Contains (lower : Char → Char) (s text : String) : Prop := s.toList.map lower <:+: text.toList.map lower
instance (lower s text) : Decidable (Contains lower s text) := by unfold Contains; infer_instance

def wanted (lower : Char → Char) (text : BookModel × AuthorModel → String) (s : String) (row : BookModel × AuthorModel) : Bool :=
  row.1.isActive && row.2.isActive && decide (Contains lower s (text row))

def Finds (lower : Char → Char) (f : Filters) (p : BookModel × AuthorModel → Bool) : Prop :=
  ∀ (page size : Nat) (w : World) (env : Oracle), (∀ n, (env n).answer.lower = lower) →
    ∃ rows, rows.Perm ((withAuthors w.db).filter p) ∧
      (alone 0 (listPage page size f) [] w env).1 = .ok (window page size rows,rows.length)

def byTitle (s : String) : Filters := ⟨some s,none,none,none⟩
def byAuthor (s : String) : Filters := ⟨none,none,some s,none⟩

section Patterns
variable {lower : Char → Char} {s : String}

theorem spliced (s : String) : ("%" ++ s ++ "%").toList = '%' :: s.toList ++ ['%'] := by
  simp only [String.toList_append]
  rfl

theorem ilikeLiteral (h : s.toList.all Wildcard.literal = true) (text : String) :
    ilike lower text ("%" ++ s ++ "%") = decide (Contains lower s text) := by
  obtain ⟨ps,read,same⟩ := @Wildcard.likeLiterals lower s.toList (by simpa using h : ∀ c ∈ s.toList, Wildcard.literal c = true)
  unfold ilike
  rw [spliced,read]
  exact Bool.eq_iff_iff.mpr ((same text.toList).trans decide_eq_true_iff.symm)

theorem ilikeLonger (caseless : Wildcard.Caseless lower) (h : s.toList.all Wildcard.literal ≠ true) :
    ∃ text, ilike lower text ("%" ++ s ++ "%") = true ∧ ¬ Contains lower s text := by
  obtain ⟨ps,t,read,hit,_,strict⟩ := Wildcard.likeLighter lower s.toList
  have lighter := strict.resolve_left fun all => h (by simpa using all)
  have pattern : Wildcard.readLike ('%' :: s.toList ++ ['%']) = some (.any :: ps) := by
    rw [List.cons_append,Wildcard.readLike,read]
    rfl
  refine ⟨String.ofList t,?_,fun inside => ?_⟩
  · unfold ilike
    rw [spliced,pattern,String.toList_ofList]
    exact Wildcard.fitsAny hit
  · rw [Contains,String.toList_ofList] at inside
    exact absurd (Wildcard.loadContained caseless inside) (Nat.not_le_of_lt lighter)

theorem givenIlike (text : String) (known : ilike lower text ("%" ++ s ++ "%") = decide (Contains lower s text)) :
    given (some s) (fun s => ilike lower text ("%" ++ s ++ "%")) = decide (Contains lower s text) := by
  show (s.isEmpty || ilike lower text ("%" ++ s ++ "%")) = _
  rw [known]
  cases empty : s.isEmpty with
  | false => exact Bool.false_or _
  | true =>
    have none : s = "" := by simpa using empty
    subst none
    simp [Contains]

end Patterns

section Search
variable {lower : Char → Char} {f : Filters} {p : BookModel × AuthorModel → Bool} {s : String}

theorem findsIff : Finds lower f p ↔ ∀ d, ∀ row ∈ withAuthors d, selects lower f row = p row := by
  constructor
  · intro finds d row mem
    let all := (withAuthors d).length
    obtain ⟨rows,same,found⟩ := finds 1 all (settled d [] 0) (ordered [] lower) fun _ => rfl
    have cut : window 1 all (shown lower f d) = window 1 all rows :=
      (Prod.mk.inj (Except.ok.inj ((listPageShown (fun _ => rfl) 1 all f (settled d [] 0)).symm.trans found))).1
    have whole (rows : List (BookModel × AuthorModel)) (short : rows.length ≤ all) : window 1 all rows = rows := by
      rw [window,Nat.sub_self,Nat.zero_mul,List.drop_zero]
      exact List.take_of_length_le short
    have short : rows.length ≤ all := by
      rw [same.length_eq]
      exact List.length_filter_le _ _
    rw [whole (shown lower f d) (List.length_filter_le _ _),whole rows short] at cut
    have both : row ∈ shown lower f d ↔ row ∈ (withAuthors d).filter p := by
      rw [cut]
      exact same.mem_iff
    rw [shown,List.mem_filter,List.mem_filter] at both
    exact Bool.eq_iff_iff.mpr (by simpa [mem] using both)
  · intro same page size w env lowered
    have filtered : shown lower f w.db = (withAuthors w.db).filter p :=
      List.filter_congr fun row mem => same w.db row mem
    refine ⟨arranged (env 0).answer.order ((withAuthors w.db).filter p),arrangedPerm _ _,?_⟩
    rw [listPageShown lowered,filtered,(arrangedPerm _ _).length_eq]

def catalogueOf (title name : String) : Database :=
  {Database.empty with
    authors := ⟨[{sampleAuthor with name := name}],by simp⟩
    books := ⟨[{sampleBook 1 with title := title}],by simp⟩}

theorem catalogueRows (title name : String) : withAuthors (catalogueOf title name) =
    [({sampleBook 1 with title := title},{sampleAuthor with name := name})] := by
  have author : (catalogueOf title name).authors.find (sampleId 1).text = some {sampleAuthor with name := name} :=
    Table.findComplete (r := {sampleAuthor with name := name}) (List.mem_singleton_self _)
  show List.filterMap _ [_] = _
  simp [sampleBook,author]

theorem readsIff (caseless : Wildcard.Caseless lower) {text : BookModel × AuthorModel → String}
    (reads : ∀ row, selects lower f row =
      (row.1.isActive && row.2.isActive && given (some s) fun s => ilike lower (text row) ("%" ++ s ++ "%")))
    (titled : ∀ t, ∃ d, ∃ row ∈ withAuthors d, row.1.isActive = true ∧ row.2.isActive = true ∧ text row = t) :
    Finds lower f (wanted lower text s) ↔ s.toList.all Wildcard.literal = true := by
  rw [findsIff]
  constructor
  · intro same
    by_contra special
    obtain ⟨t,hit,missing⟩ := ilikeLonger caseless special
    obtain ⟨d,row,mem,shelved,author,here⟩ := titled t
    have agree := same d row mem
    have listed : given (some s) (fun s => ilike lower (text row) ("%" ++ s ++ "%")) = true := by
      simp [given,here,hit]
    rw [reads,listed] at agree
    rw [wanted,shelved,author,here] at agree
    simp [missing] at agree
  · intro literals d row _
    rw [reads,wanted,givenIlike (text row) (ilikeLiteral literals (text row))]

theorem titleIff (caseless : Wildcard.Caseless lower) :
    Finds lower (byTitle s) (wanted lower (fun row => row.1.title) s) ↔ s.toList.all Wildcard.literal = true := by
  refine readsIff caseless (fun row => by simp [selects,byTitle,given]) fun t => ?_
  exact ⟨catalogueOf t "",_,by rw [catalogueRows]; exact List.mem_singleton_self _,rfl,rfl,rfl⟩

theorem authorIff (caseless : Wildcard.Caseless lower) :
    Finds lower (byAuthor s) (wanted lower (fun row => row.2.name) s) ↔ s.toList.all Wildcard.literal = true := by
  refine readsIff caseless (fun row => by simp [selects,byAuthor,given]) fun t => ?_
  exact ⟨catalogueOf "" t,_,by rw [catalogueRows]; exact List.mem_singleton_self _,rfl,rfl,rfl⟩

/-- Searching by title or by author means containment in every catalogue if and only if the
string has no percent sign, no underscore and no backslash. -/
theorem searchContainsIff (lower : Char → Char) (caseless : Wildcard.Caseless lower) (s : String) :
    (Finds lower (byTitle s) (wanted lower (fun row => row.1.title) s) ↔ s.toList.all Wildcard.literal = true) ∧
    (Finds lower (byAuthor s) (wanted lower (fun row => row.2.name) s) ↔ s.toList.all Wildcard.literal = true) :=
  ⟨titleIff caseless,authorIff caseless⟩

end Search

section Samples

theorem asciiCaseless : Wildcard.Caseless Char.toLower := by
  intro x special c same
  have here : x = '%' ∨ x = '_' ∨ x = '\\' := by
    by_contra other
    simp_all [Wildcard.literal]
  by_cases upper : c.val ≥ 65 ∧ c.val ≤ 90
  · have folded : c.toLower.val = c.val + 32 := congrArg Char.val (dif_pos upper)
    have value : (c.val + 32).toNat = x.toLower.val.toNat := by rw [← folded,same]
    have low : 65 ≤ c.val.toNat := UInt32.le_iff_toNat_le.mp upper.1
    have high : c.val.toNat ≤ 90 := UInt32.le_iff_toNat_le.mp upper.2
    have sum : (c.val + 32).toNat = c.val.toNat + 32 := by
      rw [UInt32.toNat_add]
      exact Nat.mod_eq_of_lt (show c.val.toNat + 32 < 2 ^ 32 by omega)
    have small : x.toLower.val.toNat ≤ 95 := by rcases here with rfl | rfl | rfl <;> decide
    omega
  · have kept : c.toLower = c := dif_neg upper
    rw [kept] at same
    rcases here with rfl | rfl | rfl <;> exact same

theorem wordFound : Finds Char.toLower (byTitle "CASMURRO") (wanted Char.toLower (fun row => row.1.title) "CASMURRO") :=
  (searchContainsIff Char.toLower asciiCaseless "CASMURRO").1.mpr (by decide)

theorem underscoreFound :
    (∃ row, (alone 0 (listPage 1 10 (byTitle "_")) [] lentOnce (ordered [] Char.toLower)).1 = .ok ([row],1) ∧
      row.1.title = "Dom Casmurro" ∧ ¬ Contains Char.toLower "_" row.1.title) ∧
    ¬ Finds Char.toLower (byTitle "_") (wanted Char.toLower (fun row => row.1.title) "_") := by
  refine ⟨⟨(_,_),rfl,by decide +kernel,by decide +kernel⟩,fun finds => ?_⟩
  exact absurd ((titleIff asciiCaseless).mp finds) (by decide)

end Samples
end LibraryApi.BookSearch
