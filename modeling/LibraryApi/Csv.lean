import Mathlib.Tactic.Common

/-! Tables as comma-separated text: fields are quoted only where they have to be, a quote
inside one is doubled, and every row ends in a carriage return and a line feed. What is
written is read back field by field, whatever the fields hold. -/
namespace LibraryApi.Csv

def special (c : Char) : Bool := c == ',' || c == '\x22' || c == '\r' || c == '\n'

def doubled (cs : List Char) : List Char := cs.flatMap fun c => if c = '\x22' then [c,c] else [c]

/- A row of one empty field is quoted, or it would read as a row of none. -/
def writeField (lone : Bool) (field : String) : List Char :=
  if field.toList.any special || (lone && field.toList.isEmpty) then '\x22' :: doubled field.toList ++ ['\x22']
  else field.toList

def writeFields (lone : Bool) : List String → List Char
  | [] => []
  | [field] => writeField lone field
  | field :: rest => writeField lone field ++ ',' :: writeFields lone rest

def writeRow (row : List String) : List Char := writeFields (row.length == 1) row ++ ['\r','\n']

def write (rows : List (List String)) : String := String.ofList (rows.flatMap writeRow)

section Reader

inductive Mode where
  | start (first : Bool)
  | plain
  | quoted
  | closing
  | ending
  deriving DecidableEq

structure State where
  rows : List (List String)
  row : List String
  field : List Char
  mode : Mode
  deriving DecidableEq

def separate (s : State) (c : Char) : Option State :=
  if c = ',' then some ⟨s.rows,s.row ++ [String.ofList s.field],[],.start false⟩
  else if c = '\r' then some ⟨s.rows,s.row ++ [String.ofList s.field],[],.ending⟩
  else none

def step (s : State) (c : Char) : Option State := match s.mode with
  | .start first =>
    if first = true ∧ c = '\r' then some {s with mode := .ending}
    else if c = '\x22' then some {s with mode := .quoted}
    else if special c = true then separate s c
    else some {s with field := [c],mode := .plain}
  | .plain => if special c = true ∧ c ≠ '\x22' then separate s c else some {s with field := s.field ++ [c]}
  | .quoted => if c = '\x22' then some {s with mode := .closing} else some {s with field := s.field ++ [c]}
  | .closing => if c = '\x22' then some {s with field := s.field ++ [c],mode := .quoted} else separate s c
  | .ending => if c = '\n' then some ⟨s.rows ++ [s.row],[],[],.start true⟩ else none

def read (text : String) : Option (List (List String)) :=
  match text.toList.foldlM step ⟨[],[],[],.start true⟩ with
  | some ⟨rows,[],[],.start true⟩ => some rows
  | _ => none

end Reader

section RoundTrip
variable {rows : List (List String)} {row : List String} {field : List Char}

theorem plainRead (cs : List Char) (plain : cs.any special = false) :
    cs.foldlM step ⟨rows,row,field,.plain⟩ = some ⟨rows,row,field ++ cs,.plain⟩ := by
  induction cs generalizing field with
  | nil => rw [List.append_nil]; rfl
  | cons c rest ih =>
    simp only [List.any_cons,Bool.or_eq_false_iff] at plain
    have here : step ⟨rows,row,field,.plain⟩ c = some ⟨rows,row,field ++ [c],.plain⟩ := by simp [step,plain.1]
    rw [List.foldlM_cons,here]
    show rest.foldlM step _ = _
    rw [ih plain.2,List.append_assoc]
    rfl

theorem quotedRead (cs : List Char) :
    (doubled cs).foldlM step ⟨rows,row,field,.quoted⟩ = some ⟨rows,row,field ++ cs,.quoted⟩ := by
  induction cs generalizing field with
  | nil => rw [List.append_nil]; rfl
  | cons c rest ih =>
    have here : (if c = '\x22' then [c,c] else [c]).foldlM step ⟨rows,row,field,.quoted⟩ = some ⟨rows,row,field ++ [c],.quoted⟩ := by
      by_cases quote : c = '\x22' <;> simp [step,quote]
    rw [doubled,List.flatMap_cons,List.foldlM_append,here]
    show (doubled rest).foldlM step _ = _
    rw [ih,List.append_assoc]
    rfl

theorem fieldRead {first lone : Bool} (f : String) {c : Char} (separator : c = ',' ∨ c = '\r')
    (whole : first = true → c = '\r' → lone = true) (rest : List Char) :
    (writeField lone f ++ c :: rest).foldlM step ⟨rows,row,[],.start first⟩ =
      (separate ⟨rows,row,f.toList,.plain⟩ c).bind fun s => rest.foldlM step s := by
  have known : special c = true ∧ c ≠ '\x22' := by rcases separator with rfl | rfl <;> decide
  unfold writeField
  split
  · have opened : step ⟨rows,row,[],.start first⟩ '\x22' = some ⟨rows,row,[],.quoted⟩ := by simp [step]
    have closed : step ⟨rows,row,f.toList,.quoted⟩ '\x22' = some ⟨rows,row,f.toList,.closing⟩ := by simp [step]
    have next : step ⟨rows,row,f.toList,.closing⟩ c = separate ⟨rows,row,f.toList,.plain⟩ c := by simp [step,known.2,separate]
    rw [List.cons_append,List.cons_append,List.append_assoc,List.foldlM_cons,opened]
    show ((doubled f.toList) ++ _).foldlM step _ = _
    rw [List.foldlM_append,quotedRead,List.nil_append]
    show ('\x22' :: c :: rest).foldlM step ⟨rows,row,f.toList,.quoted⟩ = _
    rw [List.foldlM_cons,closed]
    show (c :: rest).foldlM step _ = _
    rw [List.foldlM_cons,next]
    rfl
  · rename_i plain
    simp only [Bool.or_eq_true,Bool.and_eq_true,not_or,Bool.not_eq_true] at plain
    cases chars : f.toList with
    | nil =>
      have many : lone = false := by simpa [chars] using plain.2
      have next : step ⟨rows,row,[],.start first⟩ c = separate ⟨rows,row,[],.plain⟩ c := by
        have apart : ¬ (first = true ∧ c = '\r') := fun h => by
          rw [whole h.1 h.2] at many
          contradiction
        simp [step,apart,known,separate]
      rw [List.nil_append,List.foldlM_cons,next]
      rfl
    | cons x xs =>
      rw [chars,List.any_cons,Bool.or_eq_false_iff] at plain
      have begun : step ⟨rows,row,[],.start first⟩ x = some ⟨rows,row,[x],.plain⟩ := by
        have simple : x ≠ '\r' ∧ x ≠ '\x22' := by
          constructor <;> rintro rfl <;> exact absurd plain.1.1 (by decide)
        simp [step,simple,plain.1.1]
      have next : step ⟨rows,row,[x] ++ xs,.plain⟩ c = separate ⟨rows,row,x :: xs,.plain⟩ c := by simp [step,known,separate]
      rw [List.cons_append,List.foldlM_cons,begun]
      show (xs ++ c :: rest).foldlM step _ = _
      rw [List.foldlM_append,plainRead xs plain.1.2]
      show (c :: rest).foldlM step _ = _
      rw [List.foldlM_cons,next]
      rfl

theorem fieldsRead {first lone : Bool} (fields : List String) (some_ : fields ≠ [])
    (whole : first = true → fields.length = 1 → lone = true) (rest : List Char) :
    (writeFields lone fields ++ '\r' :: '\n' :: rest).foldlM step ⟨rows,row,[],.start first⟩ =
      rest.foldlM step ⟨rows ++ [row ++ fields],[],[],.start true⟩ := by
  induction fields generalizing row first with
  | nil => contradiction
  | cons f more ih =>
    cases more with
    | nil =>
      rw [writeFields,fieldRead f (.inr rfl) (fun h _ => whole h rfl)]
      show List.foldlM step ⟨rows ++ [row ++ [String.ofList f.toList]],[],[],.start true⟩ rest = _
      rw [String.ofList_toList]
    | cons g others =>
      have comma : ¬ (',' : Char) = '\r' := by decide
      rw [writeFields,List.append_assoc,List.cons_append,fieldRead f (.inl rfl) (fun _ same => absurd same comma)]
      · show List.foldlM step ⟨rows,row ++ [String.ofList f.toList],[],.start false⟩ _ = _
        rw [String.ofList_toList,ih (by simp) (fun first => by contradiction),List.append_assoc]
        rfl
      · nofun

theorem rowRead (fields : List String) (rest : List Char) : (writeRow fields ++ rest).foldlM step ⟨rows,[],[],.start true⟩ =
    rest.foldlM step ⟨rows ++ [fields],[],[],.start true⟩ := by
  unfold writeRow
  rw [List.append_assoc]
  cases fields with
  | nil => rfl
  | cons f more => exact fieldsRead (f :: more) nofun (fun _ one => by rw [one]; rfl) rest

theorem readWritten (rows : List (List String)) : read (write rows) = some rows := by
  have all (done more : List (List String)) : (more.flatMap writeRow).foldlM step ⟨done,[],[],.start true⟩ =
      some ⟨done ++ more,[],[],.start true⟩ := by
    induction more generalizing done with
    | nil => rw [List.append_nil]; rfl
    | cons row rest ih => rw [List.flatMap_cons,rowRead,ih,List.append_assoc]; rfl
  unfold read write
  rw [String.toList_ofList,all [] rows]
  rfl

end RoundTrip
end LibraryApi.Csv
