import Mathlib.Data.List.TakeWhile
import Mathlib.Tactic.Common

/-! JSON texts of strings, integers and objects. The writer has the two settings of a Python
encoder, escaping of everything outside ASCII and blanks after separators; the reader is one
for both, and takes an escaped pair of surrogates for the character they stand for. Lone
surrogates, which no text here holds, and the other kinds of JSON value are refused. -/
namespace LibraryApi.Json

section Strings

inductive Piece where
  | char (c : Char)
  | unit (n : Nat)
  deriving DecidableEq

def short (c : Char) : Option Char :=
  if c = '\x22' then some '\x22' else if c = '\\' then some '\\' else if c = '\n' then some 'n'
  else if c = '\r' then some 'r' else if c = '\t' then some 't' else if c = '\x08' then some 'b'
  else if c = '\x0c' then some 'f' else none

def unshort (e : Char) : Option Char :=
  if e = '\x22' then some '\x22' else if e = '\\' then some '\\' else if e = '/' then some '/'
  else if e = 'n' then some '\n' else if e = 'r' then some '\r' else if e = 't' then some '\t'
  else if e = 'b' then some '\x08' else if e = 'f' then some '\x0c' else none

theorem shortRead {c e : Char} (h : short c = some e) : unshort e = some c ∧ e ≠ 'u' := by
  unfold short at h
  split at h
  · rename_i same; cases h; subst same; decide
  split at h
  · rename_i same; cases h; subst same; decide
  split at h
  · rename_i same; cases h; subst same; decide
  split at h
  · rename_i same; cases h; subst same; decide
  split at h
  · rename_i same; cases h; subst same; decide
  split at h
  · rename_i same; cases h; subst same; decide
  split at h
  · rename_i same; cases h; subst same; decide
  · contradiction

def pieces (ascii : Bool) (c : Char) : List Piece :=
  if (short c).isSome then [.char c]
  else if c.toNat < 32 then [.unit c.toNat]
  else if !ascii || decide (c.toNat < 127) then [.char c]
  else if c.toNat < 65536 then [.unit c.toNat]
  else [.unit (55296 + (c.toNat - 65536) / 1024),.unit (56320 + (c.toNat - 65536) % 1024)]

def hexDigits (n : Nat) : List Char :=
  [Nat.digitChar (n / 4096),Nat.digitChar (n / 256 % 16),Nat.digitChar (n / 16 % 16),Nat.digitChar (n % 16)]

def spell : Piece → List Char
  | .char c => match short c with
    | some e => ['\\',e]
    | none => [c]
  | .unit n => '\\' :: 'u' :: hexDigits n

def hexDigit (c : Char) : Option Nat :=
  if '0' ≤ c ∧ c ≤ '9' then some (c.toNat - 48)
  else if 'a' ≤ c ∧ c ≤ 'f' then some (c.toNat - 87)
  else if 'A' ≤ c ∧ c ≤ 'F' then some (c.toNat - 55) else none

def hexNumber (a b c d : Char) : Option Nat := do
  let a ← hexDigit a
  let b ← hexDigit b
  let c ← hexDigit c
  let d ← hexDigit d
  return ((a * 16 + b) * 16 + c) * 16 + d

def readPieces : List Char → Option (List Piece × List Char)
  | [] => none
  | c :: rest =>
    if c = '\x22' then some ([],rest)
    else if c = '\\' then match rest with
      | [] => none
      | e :: rest =>
        if e = 'u' then match rest with
          | a :: b :: c :: d :: rest => do
            let n ← hexNumber a b c d
            let (ps,left) ← readPieces rest
            return (.unit n :: ps,left)
          | _ => none
        else do
          let c ← unshort e
          let (ps,left) ← readPieces rest
          return (.char c :: ps,left)
    else if c.toNat < 32 then none
    else do
      let (ps,left) ← readPieces rest
      return (.char c :: ps,left)

def joined : List Piece → Option (List Char)
  | [] => some []
  | .char c :: rest => (joined rest).map (c :: ·)
  | .unit n :: .unit m :: rest =>
    if 55296 ≤ n ∧ n < 56320 ∧ 56320 ≤ m ∧ m < 57344 then
      (joined rest).map (Char.ofNat (65536 + (n - 55296) * 1024 + (m - 56320)) :: ·)
    else if 55296 ≤ n ∧ n < 57344 then none
    else (joined (.unit m :: rest)).map (Char.ofNat n :: ·)
  | .unit n :: rest => if 55296 ≤ n ∧ n < 57344 then none else (joined rest).map (Char.ofNat n :: ·)

def readString (cs : List Char) : Option (String × List Char) := do
  let (ps,left) ← readPieces cs
  let s ← joined ps
  return (String.ofList s,left)

def quoted (ascii : Bool) (s : String) : List Char :=
  '\x22' :: (s.toList.flatMap (pieces ascii)).flatMap spell ++ ['\x22']

def Legal : Piece → Prop
  | .char c => 32 ≤ c.toNat ∨ (short c).isSome = true
  | .unit n => n < 65536

theorem hexRead {n : Nat} (small : n < 65536) : hexNumber (Nat.digitChar (n / 4096)) (Nat.digitChar (n / 256 % 16))
    (Nat.digitChar (n / 16 % 16)) (Nat.digitChar (n % 16)) = some n := by
  have digit : ∀ d < 16, hexDigit (Nat.digitChar d) = some d := by decide
  have first := digit (n / 4096) (by omega)
  have second := digit (n / 256 % 16) (by omega)
  have third := digit (n / 16 % 16) (by omega)
  have fourth := digit (n % 16) (by omega)
  simp only [hexNumber,first,second,third,fourth,bind,Option.bind,pure,Option.some.injEq]
  omega

theorem readSpelled {p : Piece} (legal : Legal p) (rest : List Char) : readPieces (spell p ++ rest) =
    (readPieces rest).map fun r => (p :: r.1,r.2) := by
  cases p with
  | char c =>
    cases known : short c with
    | some e =>
      obtain ⟨back,other⟩ := shortRead known
      have spelled : spell (.char c) = ['\\',e] := by simp [spell,known]
      rw [spelled,List.cons_append,List.cons_append,List.nil_append,readPieces.eq_def]
      simp only [back,other,if_false,show ('\\' : Char) ≠ '\x22' by decide,if_true]
      cases readPieces rest <;> rfl
    | none =>
      have spelled : spell (.char c) = [c] := by simp [spell,known]
      have high : 32 ≤ c.toNat := legal.resolve_right (by simp [known])
      have quote : c ≠ '\x22' := fun same => by subst same; contradiction
      have slash : c ≠ '\\' := fun same => by subst same; contradiction
      rw [spelled,List.singleton_append,readPieces.eq_def]
      simp only [quote,slash,if_false,show ¬ c.toNat < 32 by omega]
      cases readPieces rest <;> rfl
  | unit n =>
    unfold spell hexDigits
    simp only [List.cons_append,List.nil_append]
    rw [readPieces.eq_def]
    simp only [hexRead legal,if_false,show ('\\' : Char) ≠ '\x22' by decide,if_true]
    cases readPieces rest <;> rfl

theorem readAllSpelled {ps : List Piece} (legal : ∀ p ∈ ps, Legal p) (rest : List Char) :
    readPieces (ps.flatMap spell ++ '\x22' :: rest) = some (ps,rest) := by
  induction ps with
  | nil =>
    rw [List.flatMap_nil,List.nil_append,readPieces.eq_def]
    exact if_pos rfl
  | cons p ps ih =>
    rw [List.flatMap_cons,List.append_assoc,readSpelled (legal p List.mem_cons_self),
      ih fun q mem => legal q (List.mem_cons_of_mem _ mem)]
    rfl

theorem charBounds (c : Char) : c.toNat < 55296 ∨ 57343 < c.toNat ∧ c.toNat < 1114112 := c.valid

theorem piecesLegal (ascii : Bool) (c : Char) : ∀ p ∈ pieces ascii c, Legal p := by
  have bounds := charBounds c
  unfold pieces
  split
  · rename_i known
    intro p mem
    rw [List.mem_singleton.mp mem]
    exact .inr known
  split
  · intro p mem
    rw [List.mem_singleton.mp mem]
    show c.toNat < 65536
    omega
  split
  · intro p mem
    rw [List.mem_singleton.mp mem]
    exact .inl (by omega)
  split
  · rename_i small
    intro p mem
    rw [List.mem_singleton.mp mem]
    exact small
  · intro p mem
    rcases List.mem_cons.mp mem with rfl | mem
    · show 55296 + (c.toNat - 65536) / 1024 < 65536
      omega
    · rw [List.mem_singleton.mp mem]
      show 56320 + (c.toNat - 65536) % 1024 < 65536
      omega

/- A unit that is no surrogate stands alone, whatever comes next. -/
theorem joinedUnit {n : Nat} (plain : ¬ (55296 ≤ n ∧ n < 57344)) (ps : List Piece) :
    joined (.unit n :: ps) = (joined ps).map (Char.ofNat n :: ·) := by
  cases ps with
  | nil => simp [joined,plain]
  | cons p rest =>
    cases p with
    | char c => simp [joined,plain]
    | unit m =>
      have apart : ¬ (55296 ≤ n ∧ n < 56320 ∧ 56320 ≤ m ∧ m < 57344) := by omega
      rw [joined,if_neg apart,if_neg plain]

theorem joinedPieces (ascii : Bool) (c : Char) (ps : List Piece) :
    joined (pieces ascii c ++ ps) = (joined ps).map (c :: ·) := by
  have bounds := charBounds c
  have whole : Char.ofNat c.toNat = c := Char.ofNat_toNat c
  unfold pieces
  split
  · rfl
  split
  · rw [List.singleton_append,joinedUnit (by omega),whole]
  split
  · rfl
  split
  · rw [List.singleton_append,joinedUnit (by omega),whole]
  · have pair : 65536 + (55296 + (c.toNat - 65536) / 1024 - 55296) * 1024 + (56320 + (c.toNat - 65536) % 1024 - 56320) =
        c.toNat := by omega
    rw [List.cons_append,List.singleton_append,joined,if_pos (by omega),pair,whole]

theorem joinedAll (ascii : Bool) (cs : List Char) : joined (cs.flatMap (pieces ascii)) = some cs := by
  induction cs with
  | nil => rfl
  | cons c cs ih => rw [List.flatMap_cons,joinedPieces,ih]; rfl

theorem readQuoted (ascii : Bool) (s : String) (rest : List Char) :
    readString ((s.toList.flatMap (pieces ascii)).flatMap spell ++ '\x22' :: rest) = some (s,rest) := by
  have legal : ∀ p ∈ s.toList.flatMap (pieces ascii), Legal p := by
    intro p mem
    obtain ⟨c,_,inside⟩ := List.mem_flatMap.mp mem
    exact piecesLegal ascii c p inside
  simp only [readString,readAllSpelled legal,joinedAll,bind,Option.bind,pure,String.ofList_toList]

end Strings

/- Nested objects over any kind of leaf: a Python dictionary and its JSON text have the same
shape and differ in the leaves. -/
mutual
inductive Value (α : Type) where
  | leaf (a : α)
  | dict (fields : Fields α)
inductive Fields (α : Type) where
  | nil
  | cons (key : String) (value : Value α) (rest : Fields α)
end

section Shape
variable {α β γ : Type}

mutual
def Value.map (f : α → β) : Value α → Value β
  | .leaf a => .leaf (f a)
  | .dict fields => .dict (fields.map f)
def Fields.map (f : α → β) : Fields α → Fields β
  | .nil => .nil
  | .cons key value rest => .cons key (value.map f) (rest.map f)
end

mutual
theorem Value.mapMap (f : α → β) (g : β → γ) : ∀ v : Value α, (v.map f).map g = v.map (g ∘ f)
  | .leaf a => rfl
  | .dict fields => by rw [Value.map,Value.map,Fields.mapMap f g fields]; rfl
theorem Fields.mapMap (f : α → β) (g : β → γ) : ∀ fields : Fields α, (fields.map f).map g = fields.map (g ∘ f)
  | .nil => rfl
  | .cons key value rest => by
    rw [Fields.map,Fields.map,Value.mapMap f g value,Fields.mapMap f g rest]; rfl
end

mutual
def Value.leaves : Value α → List α
  | .leaf a => [a]
  | .dict fields => fields.leaves
def Fields.leaves : Fields α → List α
  | .nil => []
  | .cons _ value rest => value.leaves ++ rest.leaves
end

mutual
theorem Value.mapSame {f g : α → β} : ∀ v : Value α, v.map f = v.map g ↔ ∀ a ∈ v.leaves, f a = g a
  | .leaf a => by simp [Value.map,Value.leaves]
  | .dict fields => by simp [Value.map,Value.leaves,Fields.mapSame fields]
theorem Fields.mapSame {f g : α → β} : ∀ fields : Fields α, fields.map f = fields.map g ↔ ∀ a ∈ fields.leaves, f a = g a
  | .nil => by simp [Fields.map,Fields.leaves]
  | .cons key value rest => by
    simp only [Fields.map,Fields.leaves,Fields.cons.injEq,true_and,Value.mapSame value,Fields.mapSame rest,List.mem_append]
    exact ⟨fun h a mem => mem.elim (h.1 a) (h.2 a),fun h => ⟨fun a mem => h a (.inl mem),fun a mem => h a (.inr mem)⟩⟩
end

end Shape

inductive Scalar where
  | int (n : Int)
  | str (s : String)
  deriving DecidableEq

structure Style where
  ascii : Bool
  spaced : Bool

section Writer

def blank (style : Style) : List Char := if style.spaced then [' '] else []

def writeInt (n : Int) : List Char :=
  if n < 0 then '-' :: Nat.toDigits 10 n.natAbs else Nat.toDigits 10 n.natAbs

def writeScalar (style : Style) : Scalar → List Char
  | .int n => writeInt n
  | .str s => quoted style.ascii s

def comma {α : Type} (style : Style) : Fields α → List Char
  | .nil => []
  | .cons _ _ _ => ',' :: blank style

mutual
def write (style : Style) : Value Scalar → List Char
  | .leaf a => writeScalar style a
  | .dict fields => '{' :: writeFields style fields
/- What stands after the opening brace, the closing one included. -/
def writeFields (style : Style) : Fields Scalar → List Char
  | .nil => ['}']
  | .cons key value rest => quoted style.ascii key ++ ':' :: blank style ++ write style value ++ comma style rest ++
      writeFields style rest
end

def dumps (style : Style) (v : Value Scalar) : String := String.ofList (write style v)

end Writer

section Reader

def isSpace (c : Char) : Bool := c == ' ' || c == '\t' || c == '\n' || c == '\r'

def skip (cs : List Char) : List Char := cs.dropWhile isSpace

/- Leading zeros are refused. -/
def readNat (cs : List Char) : Option (Nat × List Char) :=
  let digits := cs.takeWhile Char.isDigit
  let n := Nat.ofDigitChars 10 digits 0
  if Nat.toDigits 10 n = digits then some (n,cs.dropWhile Char.isDigit) else none

def readInt : List Char → Option (Int × List Char)
  | [] => none
  | c :: rest => if c = '-' then (readNat rest).map fun r => (-r.1,r.2) else (readNat (c :: rest)).map fun r => (r.1,r.2)

mutual
/- The number bounds how deep the reader goes. -/
def readValue : Nat → List Char → Option (Value Scalar × List Char)
  | 0,_ => none
  | n+1,cs => match skip cs with
    | [] => none
    | c :: rest =>
      if c = '\x22' then (readString rest).map fun r => (.leaf (.str r.1),r.2)
      else if c = '{' then
        if (skip rest).head? = some '}' then some (.dict .nil,(skip rest).tail)
        else (readFields n rest).map fun r => (.dict r.1,r.2)
      else (readInt (c :: rest)).map fun r => (.leaf (.int r.1),r.2)
def readFields : Nat → List Char → Option (Fields Scalar × List Char)
  | 0,_ => none
  | n+1,cs => match skip cs with
    | [] => none
    | c :: rest =>
      if c = '\x22' then do
        let (key,rest) ← readString rest
        let (value,rest) ← (if (skip rest).head? = some ':' then readValue n (skip rest).tail else none)
        if (skip rest).head? = some '}' then return (.cons key value .nil,(skip rest).tail)
        else do
          let (fields,left) ← (if (skip rest).head? = some ',' then readFields n (skip rest).tail else none)
          return (.cons key value fields,left)
      else none
end

def loads (text : String) : Option (Value Scalar) := do
  let (v,left) ← readValue (text.toList.length + 1) text.toList
  if skip left = [] then some v else none

end Reader

section RoundTrip

def Stops (rest : List Char) : Prop := ∀ c ∈ rest.head?, c.isDigit = false

theorem stopsCons {c : Char} {rest : List Char} (h : c.isDigit = false) : Stops (c :: rest) := by
  intro x head
  cases head
  exact h

theorem digitsOnly (n : Nat) : ∀ c ∈ Nat.toDigits 10 n, c.isDigit = true :=
  fun _ mem => Nat.isDigit_of_mem_toDigits (by decide) (by decide) mem

theorem readNatWritten (n : Nat) {rest : List Char} (stops : Stops rest) :
    readNat (Nat.toDigits 10 n ++ rest) = some (n,rest) := by
  have taken : rest.takeWhile Char.isDigit = [] ∧ rest.dropWhile Char.isDigit = rest := by
    cases rest with
    | nil => exact ⟨rfl,rfl⟩
    | cons c rest => simp [stops c rfl]
  unfold readNat
  rw [List.takeWhile_append_of_pos (digitsOnly n),List.dropWhile_append_of_pos (digitsOnly n),taken.1,taken.2,List.append_nil]
  simp

theorem digitsCons (n : Nat) : ∃ c rest, Nat.toDigits 10 n = c :: rest ∧ c.isDigit = true := by
  cases digits : Nat.toDigits 10 n with
  | nil => exact absurd digits Nat.toDigits_ne_nil
  | cons c rest => exact ⟨c,rest,rfl,digitsOnly n c (by rw [digits]; exact List.mem_cons_self)⟩

theorem readIntWritten (i : Int) {rest : List Char} (stops : Stops rest) : ∃ c tail, writeInt i = c :: tail ∧
    (c = '-' ∨ c.isDigit = true) ∧ readInt (c :: tail ++ rest) = some (i,rest) := by
  unfold writeInt
  split
  · rename_i negative
    refine ⟨'-',_,rfl,.inl rfl,?_⟩
    rw [List.cons_append,readInt,if_pos rfl,readNatWritten _ stops]
    simp only [Option.map_some,Option.some.injEq,Prod.mk.injEq,and_true]
    omega
  · rename_i positive
    obtain ⟨c,tail,digits,digit⟩ := digitsCons i.natAbs
    have sign : c ≠ '-' := fun same => by subst same; contradiction
    refine ⟨c,tail,digits,.inr digit,?_⟩
    rw [List.cons_append,readInt,if_neg sign,← List.cons_append,← digits,readNatWritten _ stops]
    simp only [Option.map_some,Option.some.injEq,Prod.mk.injEq,and_true]
    omega

theorem skipBlank (style : Style) (cs : List Char) : skip (blank style ++ cs) = skip cs := by
  unfold blank
  split <;> rfl

theorem skipCons {c : Char} (solid : isSpace c = false) (rest : List Char) : skip (c :: rest) = c :: rest := by
  simp [skip,solid]

theorem readValueBlank (style : Style) (n : Nat) (cs : List Char) : readValue n (blank style ++ cs) = readValue n cs := by
  cases n with
  | zero => rfl
  | succ n => rw [readValue,readValue,skipBlank]

theorem readFieldsBlank (style : Style) (n : Nat) (cs : List Char) : readFields n (blank style ++ cs) = readFields n cs := by
  cases n with
  | zero => rfl
  | succ n => rw [readFields,readFields,skipBlank]

mutual
def Value.cost : Value Scalar → Nat
  | .leaf _ => 1
  | .dict fields => 1 + fields.cost
def Fields.cost : Fields Scalar → Nat
  | .nil => 0
  | .cons _ value rest => 1 + value.cost + rest.cost
end

theorem solidNumber {c : Char} (h : c = '-' ∨ c.isDigit = true) : isSpace c = false ∧ c ≠ '\x22' ∧ c ≠ '{' := by
  rcases h with rfl | digit
  · decide
  · refine ⟨?_,?_,?_⟩
    · by_contra space
      simp only [isSpace,Bool.not_eq_false,Bool.or_eq_true,beq_iff_eq] at space
      rcases space with ((rfl | rfl) | rfl) | rfl <;> contradiction
    · rintro rfl; contradiction
    · rintro rfl; contradiction

theorem quotedAppend (ascii : Bool) (s : String) (rest : List Char) : quoted ascii s ++ rest =
    '\x22' :: ((s.toList.flatMap (pieces ascii)).flatMap spell ++ '\x22' :: rest) := by
  simp [quoted]

theorem tailStops (style : Style) (more : Fields Scalar) (rest : List Char) :
    Stops (comma style more ++ writeFields style more ++ rest) := by
  cases more with
  | nil => rw [writeFields]; exact stopsCons rfl
  | cons key value more => exact stopsCons rfl

/- The closing brace ends the fields, a comma goes on with the next one. -/
theorem readRest {style : Style} {n : Nat} {key : String} {value : Value Scalar} {more : Fields Scalar} {rest text : List Char}
    (here : readString text = some (key,':' :: (blank style ++ (write style value ++ (comma style more ++ writeFields style more ++ rest)))))
    (first : readValue n (write style value ++ (comma style more ++ writeFields style more ++ rest)) =
      some (value,comma style more ++ writeFields style more ++ rest))
    (others : more ≠ .nil → readFields n (writeFields style more ++ rest) = some (more,rest)) :
    readFields (n+1) ('\x22' :: text) = some (.cons key value more,rest) := by
  rw [readFields,skipCons rfl]
  simp only [if_true,here,bind,Option.bind,skipCons (c := ':') rfl,List.head?_cons,List.tail_cons,readValueBlank,first]
  cases more with
  | nil =>
    rw [comma,writeFields,List.nil_append,List.singleton_append,skipCons rfl]
    rfl
  | cons key' value' more =>
    rw [comma,List.cons_append,List.cons_append,skipCons rfl,List.append_assoc]
    simp only [List.head?_cons,List.tail_cons,Option.some.injEq,Char.reduceEq,if_false,if_true,readFieldsBlank]
    rw [others nofun]
    rfl

mutual
theorem readWritten (style : Style) : ∀ (v : Value Scalar) (n : Nat) (rest : List Char), v.cost ≤ n → Stops rest →
    readValue n (write style v ++ rest) = some (v,rest)
  | .leaf _,0,_,few,_ => absurd few (by simp [Value.cost])
  | .dict _,0,_,few,_ => absurd few (by simp [Value.cost])
  | .leaf (.int i),n+1,rest,_,stops => by
    obtain ⟨c,tail,written,number,read⟩ := readIntWritten i stops
    obtain ⟨solid,quote,brace⟩ := solidNumber number
    rw [write,writeScalar,written,readValue,List.cons_append,skipCons solid]
    simp only [quote,brace,if_false]
    rw [← List.cons_append,read]
    rfl
  | .leaf (.str s),n+1,rest,_,_ => by
    rw [write,writeScalar,quotedAppend,readValue,skipCons rfl]
    simp only [if_true,readQuoted,Option.map_some]
  | .dict .nil,n+1,rest,_,_ => by
    rw [write,writeFields,readValue,List.cons_append,skipCons rfl]
    simp only [Char.reduceEq,if_false,if_true,List.singleton_append,skipCons (c := '}') rfl,List.head?_cons,List.tail_cons]
  | .dict (.cons key value more),n+1,rest,few,_ => by
    have inner := readFieldsWritten style (.cons key value more) n rest (by simp only [Value.cost] at few; omega) nofun
    rw [write,readValue,List.cons_append,skipCons rfl]
    have open_ : writeFields style (.cons key value more) ++ rest = '\x22' :: (writeFields style (.cons key value more) ++ rest).tail := by
      rw [writeFields]; rfl
    simp only [Char.reduceEq,if_false,if_true]
    rw [open_,skipCons rfl,List.head?_cons,if_neg (by decide),← open_,inner]
    rfl
theorem readFieldsWritten (style : Style) : ∀ (fields : Fields Scalar) (n : Nat) (rest : List Char), fields.cost ≤ n →
    fields ≠ .nil → readFields n (writeFields style fields ++ rest) = some (fields,rest)
  | .nil,_,_,_,filled => absurd rfl filled
  | .cons _ _ _,0,_,few,_ => absurd few (by simp [Fields.cost])
  | .cons key value more,n+1,rest,few,_ => by
    have costs : value.cost ≤ n ∧ more.cost ≤ n := by simp only [Fields.cost] at few; omega
    have text : writeFields style (.cons key value more) ++ rest = '\x22' :: ((key.toList.flatMap (pieces style.ascii)).flatMap spell ++
        '\x22' :: (':' :: (blank style ++ (write style value ++ (comma style more ++ writeFields style more ++ rest))))) := by
      rw [writeFields]
      simp only [List.append_assoc,quotedAppend,List.cons_append]
    rw [text]
    exact readRest (readQuoted style.ascii key _) (readWritten style value n _ costs.1 (tailStops style more rest))
      fun filled => readFieldsWritten style more n rest costs.2 filled
end

mutual
theorem costWritten (style : Style) : ∀ v : Value Scalar, v.cost ≤ (write style v).length
  | .leaf (.int i) => by
    obtain ⟨c,tail,written,_⟩ := @readIntWritten i [] nofun
    rw [write,writeScalar,written,Value.cost,List.length_cons]
    omega
  | .leaf (.str s) => by rw [write,writeScalar,quoted,Value.cost]; simp
  | .dict fields => by
    have inner := costFieldsWritten style fields
    rw [write,Value.cost,List.length_cons]
    omega
theorem costFieldsWritten (style : Style) : ∀ fields : Fields Scalar, fields.cost ≤ (writeFields style fields).length
  | .nil => Nat.zero_le _
  | .cons key value rest => by
    have first := costWritten style value
    have others := costFieldsWritten style rest
    rw [writeFields,Fields.cost]
    simp only [List.length_append,List.length_cons]
    omega
end

theorem loadsDumps (style : Style) (v : Value Scalar) : loads (dumps style v) = some v := by
  have enough : v.cost ≤ (write style v).length + 1 := Nat.le_succ_of_le (costWritten style v)
  have read := readWritten style v ((write style v).length + 1) [] enough nofun
  rw [List.append_nil] at read
  simp only [loads,dumps,String.toList_ofList,read,bind,Option.bind,skip,List.dropWhile_nil,if_true]

example : dumps ⟨true,true⟩ (.dict (.cons "título" (.leaf (.str "a\"b")) (.cons "n" (.leaf (.int (-3))) .nil))) =
    "\x7b\"t\\u00edtulo\": \"a\\\"b\", \"n\": -3\x7d" := by decide +kernel

end RoundTrip
end LibraryApi.Json
