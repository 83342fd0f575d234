import Mathlib.Data.List.Infix
import Mathlib.Tactic.Common

/-! Wildcard patterns of two services: the glob language of a key scan and the
LIKE language of SQL, read into one list of pieces. Characters outside the two
languages stand for themselves; a folding decides which characters count as equal. -/
namespace LibraryApi.Wildcard

inductive Piece where
  | any
  | one
  | lit (c : Char)
  | set (negated : Bool) (ranges : List (Char × Char))
  deriving DecidableEq, Repr

/- The first argument is the set being read, if any: an unfinished set ends with
the pattern, a range is given by its two ends in any order. -/
def readGlob : Option (Bool × List (Char × Char)) → List Char → List Piece
  | none, [] => []
  | some (n,rs), [] => [.set n rs]
  | none, '*' :: rest => .any :: readGlob none rest
  | none, '?' :: rest => .one :: readGlob none rest
  | none, '\\' :: c :: rest => .lit c :: readGlob none rest
  | none, '[' :: '^' :: rest => readGlob (some (true,[])) rest
  | none, '[' :: rest => readGlob (some (false,[])) rest
  | none, c :: rest => .lit c :: readGlob none rest
  | some (n,rs), '\\' :: c :: rest => readGlob (some (n,(c,c) :: rs)) rest
  | some (n,rs), ']' :: rest => .set n rs :: readGlob none rest
  | some (n,rs), a :: '-' :: b :: rest => readGlob (some (n,(a,b) :: rs)) rest
  | some (n,rs), c :: rest => readGlob (some (n,(c,c) :: rs)) rest

def readLike : List Char → Option (List Piece)
  | [] => some []
  | '%' :: rest => (readLike rest).map (.any :: ·)
  | '_' :: rest => (readLike rest).map (.one :: ·)
  | '\\' :: c :: rest => (readLike rest).map (.lit c :: ·)
  | ['\\'] => none
  | c :: rest => (readLike rest).map (.lit c :: ·)

def within (x : Char) (r : Char × Char) : Bool :=
  decide (r.1 ≤ x ∧ x ≤ r.2) || decide (r.2 ≤ x ∧ x ≤ r.1)

def fits (fold : Char → Char) : List Piece → List Char → Bool
  | [], s => s.isEmpty
  | .any :: ps, s => s.tails.any (fits fold ps)
  | .one :: ps, s => match s with
    | [] => false
    | _ :: t => fits fold ps t
  | .lit c :: ps, s => match s with
    | [] => false
    | x :: t => fold x == fold c && fits fold ps t
  | .set n rs :: ps, s => match s with
    | [] => false
    | x :: t => rs.any (within x) != n && fits fold ps t

def glob (pattern key : String) : Bool := fits id (readGlob none pattern.toList) key.toList

def plain (c : Char) : Bool := c != '*' && c != '?' && c != '[' && c != '\\'

theorem readPlain {c : Char} (h : plain c = true) (rest : List Char) :
    readGlob none (c :: rest) = .lit c :: readGlob none rest := by
  simp only [plain,Bool.and_eq_true,bne_iff_ne,ne_eq] at h
  obtain ⟨⟨⟨star,mark⟩,bracket⟩,slash⟩ := h
  rw [readGlob] <;> simp_all

theorem fitsAll (fold : Char → Char) (s : List Char) : fits fold [.any] s = true := by
  simp only [fits,List.any_eq_true,List.mem_tails]
  exact ⟨[],List.nil_suffix,rfl⟩

theorem fitsPrefix {p : List Char} (h : ∀ c ∈ p, plain c = true) (s : List Char) :
    fits id (readGlob none (p ++ ['*'])) s = p.isPrefixOf s := by
  induction p generalizing s with
  | nil =>
    have star : readGlob none (([] : List Char) ++ ['*']) = [.any] := by simp [readGlob]
    rw [star,fitsAll]; rfl
  | cons c p ih =>
    have plainC := h c (by simp)
    rw [List.cons_append,readPlain plainC]
    cases s with
    | nil => rfl
    | cons x t =>
      simp only [fits,id,List.isPrefixOf]
      rw [ih (fun y hy => h y (List.mem_cons_of_mem _ hy))]
      congr 1
      exact Bool.beq_comm

theorem globPrefix {p : String} (h : p.toList.all plain = true) (key : String) :
    glob (p ++ "*") key = true ↔ p.toList <+: key.toList := by
  unfold glob
  rw [String.toList_append,show "*".toList = ['*'] from rfl,
    fitsPrefix (by simpa using h),List.isPrefixOf_iff_prefix]

/- A text that a LIKE pattern matches, with no more of a plain character than the pattern has. -/
def likeSample : List Char → List Char
  | [] => []
  | '%' :: rest => likeSample rest
  | '_' :: rest => '_' :: likeSample rest
  | '\\' :: c :: rest => c :: likeSample rest
  | ['\\'] => []
  | c :: rest => c :: likeSample rest

theorem fitsAny {fold : Char → Char} {ps : List Piece} {s : List Char} (h : fits fold ps s = true) :
    fits fold (.any :: ps) s = true := by
  simp only [fits,List.any_eq_true,List.mem_tails]
  exact ⟨s,List.suffix_rfl,h⟩

theorem sampleFits (fold : Char → Char) {p : List Char} {ps : List Piece} (h : readLike p = some ps) :
    fits fold ps (likeSample p) = true := by
  fun_induction readLike p generalizing ps with
  | case1 => cases h; rfl
  | case2 rest ih =>
    obtain ⟨qs,read,rfl⟩ := Option.map_eq_some_iff.mp h
    exact fitsAny (ih read)
  | case3 rest ih =>
    obtain ⟨qs,read,rfl⟩ := Option.map_eq_some_iff.mp h
    exact ih read
  | case4 c rest ih =>
    obtain ⟨qs,read,rfl⟩ := Option.map_eq_some_iff.mp h
    simp [likeSample,fits,ih read]
  | case5 => contradiction
  | case6 c rest many one escape last ih =>
    obtain ⟨qs,read,rfl⟩ := Option.map_eq_some_iff.mp h
    rw [likeSample] <;> simp_all [fits]

section Like
variable {x : Char} (notAny : x ≠ '%') (notOne : x ≠ '_') (notEscape : x ≠ '\\')
include notAny notOne notEscape

theorem sampleCount (p : List Char) : (likeSample p).count x = p.count x := by
  have apart := And.intro (Ne.symm notAny) (And.intro (Ne.symm notOne) (Ne.symm notEscape))
  fun_induction likeSample p <;> simp_all [List.count_cons]

omit notAny notOne notEscape in
theorem litCount {fold : Char → Char} (only : ∀ c, fold c = fold x → c = x) {c y : Char} {p t : List Char}
    (same : fold y = fold c) (fewer : p.count x ≤ t.count x) : (c :: p).count x ≤ (y :: t).count x := by
  by_cases here : c = x
  · obtain rfl := only y (here ▸ same)
    rw [here,List.count_cons_self,List.count_cons_self]
    omega
  · rw [List.count_cons_of_ne here]
    exact Nat.le_trans fewer List.count_le_count_cons

theorem likeCount {fold : Char → Char} (only : ∀ c, fold c = fold x → c = x) {p : List Char}
    {ps : List Piece} {s : List Char} (h : readLike p = some ps) (hit : fits fold ps s = true) :
    p.count x ≤ s.count x := by
  fun_induction readLike p generalizing ps s with
  | case1 => exact Nat.zero_le _
  | case2 rest ih =>
    obtain ⟨qs,read,rfl⟩ := Option.map_eq_some_iff.mp h
    simp only [fits,List.any_eq_true,List.mem_tails] at hit
    obtain ⟨tail,inside,hit⟩ := hit
    rw [List.count_cons_of_ne (Ne.symm notAny)]
    exact Nat.le_trans (ih read hit) (inside.sublist.count_le x)
  | case3 rest ih =>
    obtain ⟨qs,read,rfl⟩ := Option.map_eq_some_iff.mp h
    cases s with
    | nil => contradiction
    | cons y t =>
      rw [List.count_cons_of_ne (Ne.symm notOne)]
      exact Nat.le_trans (ih read hit) List.count_le_count_cons
  | case4 c rest ih =>
    obtain ⟨qs,read,rfl⟩ := Option.map_eq_some_iff.mp h
    cases s with
    | nil => contradiction
    | cons y t =>
      simp only [fits,Bool.and_eq_true,beq_iff_eq] at hit
      rw [List.count_cons_of_ne (Ne.symm notEscape)]
      exact litCount only hit.1 (ih read hit.2)
  | case5 => contradiction
  | case6 c rest many one escape last ih =>
    obtain ⟨qs,read,rfl⟩ := Option.map_eq_some_iff.mp h
    cases s with
    | nil => contradiction
    | cons y t =>
      simp only [fits,Bool.and_eq_true,beq_iff_eq] at hit
      exact litCount only hit.1 (ih read hit.2)

omit notAny notOne notEscape in
theorem likeReads (p : List Char) : ∃ ps, readLike (p ++ ['%']) = some ps := by
  fun_induction readLike p with
  | case1 => exact ⟨_,rfl⟩
  | case2 rest ih => obtain ⟨ps,read⟩ := ih; exact ⟨.any :: ps,by simp [readLike,read]⟩
  | case3 rest ih => obtain ⟨ps,read⟩ := ih; exact ⟨.one :: ps,by simp [readLike,read]⟩
  | case4 c rest ih => obtain ⟨ps,read⟩ := ih; exact ⟨.lit c :: ps,by simp [readLike,read]⟩
  | case5 => exact ⟨_,rfl⟩
  | case6 c rest many one escape last ih =>
    obtain ⟨ps,read⟩ := ih
    refine ⟨.lit c :: ps,?_⟩
    rw [List.cons_append,readLike]
    · simp [read]
    · exact many
    · exact one
    · intro c' rest' same _
      cases rest with
      | nil => exact last same rfl
      | cons y t => exact escape y t same rfl
    · simp

end Like

section Containment
variable {fold : Char → Char}

def literal (c : Char) : Bool := c != '%' && c != '_' && c != '\\'

def load : List Char → Nat
  | [] => 0
  | c :: rest => (if c = '\\' then 2 else if literal c then 0 else 1) + load rest

theorem loadAppend (a b : List Char) : load (a ++ b) = load a + load b := by
  induction a with
  | nil => exact (Nat.zero_add _).symm
  | cons c rest ih => simp only [List.cons_append,load,ih,Nat.add_assoc]

def Caseless (fold : Char → Char) : Prop := ∀ x, literal x = false → ∀ c, fold c = fold x → c = x

theorem caselessSame (caseless : Caseless fold) {c x : Char} (same : fold c = fold x) : c = x ∨ literal c = true ∧ literal x = true := by
  cases left : literal c with
  | false => exact .inl (caseless c left x same.symm).symm
  | true =>
    cases right : literal x with
    | false => exact .inl (caseless x right c same)
    | true => exact .inr ⟨rfl,rfl⟩

theorem literalLoad {c : Char} (h : literal c = true) (rest : List Char) : load (c :: rest) = load rest := by
  have escape : c ≠ '\\' := fun here => by subst here; contradiction
  simp [load,h,escape]

theorem loadFolded (caseless : Caseless fold) {a b : List Char} (same : a.map fold = b.map fold) : load a = load b := by
  induction a generalizing b with
  | nil =>
    have none : b = [] := by simpa using same.symm
    rw [none]
  | cons c rest ih =>
    cases b with
    | nil => contradiction
    | cons x other =>
      obtain ⟨head,tail⟩ := List.cons.inj same
      obtain rfl | ⟨left,right⟩ := caselessSame caseless head
      · simp only [load,ih tail]
      · rw [literalLoad left,literalLoad right,ih tail]

theorem loadContained (caseless : Caseless fold) {s t : List Char} (inside : s.map fold <:+: t.map fold) : load s ≤ load t := by
  obtain ⟨before,after,split⟩ := inside
  obtain ⟨a,b,rfl,first,rfl⟩ := List.map_eq_append_iff.mp split.symm
  obtain ⟨c,d,rfl,rfl,same⟩ := List.map_eq_append_iff.mp first
  rw [loadAppend,loadAppend,loadFolded caseless same.symm]
  omega

theorem readLiterals {s : List Char} (h : ∀ c ∈ s, literal c = true) (rest : List Char) :
    readLike (s ++ rest) = (readLike rest).map (s.map .lit ++ ·) := by
  induction s with
  | nil => simp
  | cons c s ih =>
    have here := h c (by simp)
    simp only [literal,Bool.and_eq_true,bne_iff_ne,ne_eq] at here
    obtain ⟨⟨many,one⟩,escape⟩ := here
    rw [List.cons_append,readLike,ih fun x hx => h x (List.mem_cons_of_mem _ hx)]
    · simp [Option.map_map,Function.comp_def]
    · exact many
    · exact one
    · exact fun _ _ same _ => escape same
    · exact fun same _ => escape same

theorem fitsLiterals {s t : List Char} {ps : List Piece} :
    fits fold (s.map .lit ++ ps) t = true ↔ ∃ a b, a ++ b = t ∧ a.map fold = s.map fold ∧ fits fold ps b = true := by
  induction s generalizing t with
  | nil =>
    constructor
    · exact fun hit => ⟨[],t,rfl,rfl,hit⟩
    · rintro ⟨a,b,rfl,same,hit⟩
      have none : a = [] := by simpa using same
      subst none
      exact hit
  | cons c s ih =>
    cases t with
    | nil =>
      refine ⟨fun hit => by contradiction,?_⟩
      rintro ⟨a,b,joined,same,_⟩
      obtain ⟨rfl,_⟩ := List.append_eq_nil_iff.mp joined
      contradiction
    | cons x t =>
      simp only [List.map_cons,List.cons_append,fits,Bool.and_eq_true,beq_iff_eq,ih]
      constructor
      · rintro ⟨head,a,b,rfl,same,hit⟩
        exact ⟨x :: a,b,rfl,by simp [head,same],hit⟩
      · rintro ⟨a,b,joined,same,hit⟩
        cases a with
        | nil => contradiction
        | cons y a =>
          obtain ⟨rfl,rfl⟩ := List.cons.inj joined
          obtain ⟨head,tail⟩ := List.cons.inj same
          exact ⟨head,a,b,rfl,tail,hit⟩

theorem likeLiterals {s : List Char} (h : ∀ c ∈ s, literal c = true) : ∃ ps, readLike ('%' :: s ++ ['%']) = some ps ∧
    ∀ t, fits fold ps t = true ↔ s.map fold <:+: t.map fold := by
  refine ⟨.any :: (s.map .lit ++ [.any]),by simp [readLike,readLiterals h],fun t => ?_⟩
  simp only [fits,List.any_eq_true,List.mem_tails,fitsLiterals]
  constructor
  · rintro ⟨tail,⟨before,rfl⟩,a,b,rfl,same,_⟩
    exact ⟨before.map fold,b.map fold,by simp [same]⟩
  · rintro ⟨before,after,split⟩
    obtain ⟨a,b,rfl,first,rfl⟩ := List.map_eq_append_iff.mp split.symm
    obtain ⟨c,d,rfl,rfl,same⟩ := List.map_eq_append_iff.mp first
    exact ⟨d ++ b,⟨c,by simp⟩,d,b,rfl,same,[],List.nil_suffix,rfl⟩

theorem likeLighter (fold : Char → Char) (s : List Char) : ∃ ps t, readLike (s ++ ['%']) = some ps ∧ fits fold ps t = true ∧
    load t ≤ load s ∧ ((∀ c ∈ s, literal c = true) ∨ load t < load s) := by
  fun_induction readLike s with
  | case1 => exact ⟨[.any],[],rfl,fitsAll fold [],Nat.le_refl _,.inl (by simp)⟩
  | case2 rest ih =>
    obtain ⟨ps,t,read,hit,lighter,_⟩ := ih
    have heavier : load ('%' :: rest) = 1 + load rest := rfl
    exact ⟨.any :: ps,t,by simp [readLike,read],fitsAny hit,by omega,.inr (by omega)⟩
  | case3 rest ih =>
    obtain ⟨ps,t,read,hit,lighter,_⟩ := ih
    have heavier : load ('_' :: rest) = 1 + load rest := rfl
    have same : load ('a' :: t) = load t := literalLoad rfl t
    exact ⟨.one :: ps,'a' :: t,by simp [readLike,read],hit,by omega,.inr (by omega)⟩
  | case4 c rest ih =>
    obtain ⟨ps,t,read,hit,lighter,_⟩ := ih
    have lighter : load (c :: t) < load ('\\' :: c :: rest) := by simp only [load,if_true]; omega
    exact ⟨.lit c :: ps,c :: t,by simp [readLike,read],by simp [fits,hit],by omega,.inr lighter⟩
  | case5 => exact ⟨[.lit '%'],['%'],rfl,by simp [fits],by decide,.inr (by decide)⟩
  | case6 c rest many one escape last ih =>
    obtain ⟨ps,t,read,hit,lighter,strict⟩ := ih
    have plain : c ≠ '\\' := fun here => by
      cases rest with
      | nil => exact last here rfl
      | cons y rest => exact escape y rest here rfl
    have here : literal c = true := by simp [literal,plain,show c ≠ '%' from many,show c ≠ '_' from one]
    refine ⟨.lit c :: ps,c :: t,?_,by simp [fits,hit],?_,?_⟩
    · rw [List.cons_append,readLike,read]
      · rfl
      · exact many
      · exact one
      · exact fun _ _ same _ => plain same
      · exact fun same _ => plain same
    · rw [literalLoad here,literalLoad here]; exact lighter
    · rw [literalLoad here,literalLoad here]
      exact strict.imp_left fun all x hx => (List.mem_cons.mp hx).elim (fun same => same ▸ here) (all x)

end Containment

example : glob "loans:list*" "loans:list:1:10" = true := by decide
example : glob "h[a-c]l?o" "hello" = false := by decide

end LibraryApi.Wildcard
