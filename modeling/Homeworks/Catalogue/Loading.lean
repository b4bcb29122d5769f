import Homeworks.CString.Number
import Homeworks.Occurrence.First
import Mathlib.Data.Int.Notation

/-!
# Loading a catalogue

The format of a catalogue gives the name and the type of every field; a field is made of its text.
How a `double` is read is a parameter.  Every line becomes an entry of the catalogue, or it is
written to the output under a message.  The program remembers the values of all lines that it has
read to the end, also of those that it rejects.
-/

namespace Catalogue

open CString Occurrence

/-! ### Fields -/

abbrev Line := List Char

/-- The exceptions of the conversions, none of them a `runtime_error`. -/
inductive LogicError where
  | invalidArgument
  | outOfRange
  deriving DecidableEq, Repr

/-- What ends the program before its end: an exception that nothing catches, an index that is not
below the size of the format, a function without a value to return. -/
inductive Failure where
  | throws (e : LogicError)
  | pastEnd
  | noReturn
  deriving DecidableEq, Repr

/-- `field_format`. -/
structure FieldFormat where
  name : List Char
  type : List Char
  isArr : Bool
  deriving DecidableEq, Repr

/-- The conversions of texts to `double`: `stod`, and `>>` to a variable without value, with the
value that the variable then has and whether a number has been read. -/
structure Doubles (Double : Type) where
  stod : List Char → Except LogicError Double
  extract : List Char → Option Double × Bool

/-- `stoi`. -/
def stoi (s : List Char) : Except LogicError ℤ :=
  match number s with
  | none => .error .invalidArgument
  | some (n, _) => if -2 ^ 31 ≤ n ∧ n < 2 ^ 31 then .ok n else .error .outOfRange

/-- `>>` to an `int` without value: the value that it then has, and whether a number has been
read. -/
def extractInt (s : List Char) : Option ℤ × Bool :=
  if s.dropWhile isSpace = [] then (none, false)
  else
    match number s with
    | none => (some 0, false)
    | some (n, _) =>
        if -2 ^ 31 ≤ n ∧ n < 2 ^ 31 then (some n, true)
        else (some (max (-2 ^ 31) (min n (2 ^ 31 - 1))), false)

/-- The classes of fields with their `data`. -/
inductive Field (Double : Type) where
  | str (data : List Char)
  | strArr (data : List (List Char))
  | char (data : Char)
  | charArr (data : List Char)
  | int (data : ℤ)
  | intArr (data : List (Option ℤ))
  | double (data : Double)
  | doubleArr (data : List (Option Double))
  deriving DecidableEq, Repr

/-- `parse_format`. -/
def parseFormat (formatLine : Line) : List FieldFormat :=
  (getlines '|' formatLine).map fun field =>
    let components := getlines ':' field
    { name := components.getD 0 []
      type := components.getD 1 []
      isArr := components.getD 2 [] = "multi".toList }

variable {Double : Type} (doubles : Doubles Double)

/-- `create_field`. -/
def createField (format : FieldFormat) (value : List Char) : Except Failure (Field Double) :=
  if format.type = "string".toList ∧ ¬format.isArr then .ok (.str value)
  else if format.type = "string".toList ∧ format.isArr then .ok (.strArr (getlines ':' value))
  else if format.type = "char".toList ∧ ¬format.isArr then .ok (.char (value.headD '\x00'))
  else if format.type = "char".toList ∧ format.isArr then
    .ok (.charArr (value.filter fun token => !isSpace token && token ≠ ':'))
  else if format.type = "integer".toList ∧ ¬format.isArr then
    match stoi value with
    | .ok n => .ok (.int n)
    | .error e => .error (.throws e)
  else if format.type = "integer".toList ∧ format.isArr then
    .ok (.intArr ((getlines ':' value).map fun token => (extractInt token).1))
  else if format.type = "double".toList ∧ ¬format.isArr then
    match doubles.stod value with
    | .ok x => .ok (.double x)
    | .error e => .error (.throws e)
  else if format.type = "double".toList ∧ format.isArr then
    .ok (.doubleArr ((getlines ':' value).map fun token => (doubles.extract token).1))
  else .error .noReturn

/-! ### Values of a type -/

/-- The type is one of the four, and a number that is not in an array is converted. -/
def Converts (format : FieldFormat) (value : List Char) : Prop :=
  (format.type = "string".toList ∨ format.type = "char".toList
    ∨ format.type = "integer".toList ∨ format.type = "double".toList)
  ∧ (format.type = "integer".toList ∧ ¬format.isArr → (stoi value).isOk)
  ∧ (format.type = "double".toList ∧ ¬format.isArr → (doubles.stod value).isOk)

/-- A value starts with a value of its type, in an array of numbers each of its elements does. -/
def Parses (format : FieldFormat) (value : List Char) : Prop :=
  Converts doubles format value
  ∧ (format.type = "char".toList ∧ ¬format.isArr → value ≠ [])
  ∧ (format.type = "integer".toList ∧ format.isArr →
      ∀ token ∈ getlines ':' value, (extractInt token).2 = true)
  ∧ (format.type = "double".toList ∧ format.isArr →
      ∀ token ∈ getlines ':' value, (doubles.extract token).2 = true)

instance (format : FieldFormat) (value : List Char) :
    Decidable (Converts doubles format value) :=
  inferInstanceAs (Decidable (_ ∧ (_ → _) ∧ (_ → _)))

instance (format : FieldFormat) (value : List Char) :
    Decidable (Parses doubles format value) :=
  inferInstanceAs (Decidable (Converts doubles format value ∧ (_ → _) ∧ (_ → _) ∧ (_ → _)))

variable {doubles}

theorem createField_isOk {format : FieldFormat} {value : List Char} :
  (createField doubles format value).isOk = true ↔ Converts doubles format value
  := by
  obtain ⟨name, type, isArr⟩ := format
  have hok : ∀ field : Field Double, (Except.ok field : Except Failure _).isOk = true :=
    fun _ => rfl
  rw [createField, Converts]
  dsimp only
  by_cases hs : type = "string".toList
  · subst hs
    cases isArr <;> simp [hok]
  by_cases hc : type = "char".toList
  · subst hc
    cases isArr <;> simp [hok]
  by_cases hi : type = "integer".toList
  · subst hi
    cases isArr
    · cases stoi value <;> simp [Except.isOk, Except.toBool]
    · simp [hok]
  by_cases hd : type = "double".toList
  · subst hd
    cases isArr
    · cases doubles.stod value <;> simp [Except.isOk, Except.toBool]
    · simp [hok]
  · simp only [hs, hc, hi, hd, false_and, if_false, or_self, iff_false]
    exact Bool.false_ne_true

/-! ### Loading -/

variable (doubles) (format : List FieldFormat)

/-- The values of a line, as the program reads them. -/
def values (line : Line) : List (List Char) := getlines '|' line

/-- The loop of `parse_entry`, with the fields and the text that it has so far. -/
def readFields : List (List Char) → List (Field Double) → List Char →
    Except Failure (List (Field Double) × List Char)
  | [], entry, entryStr => .ok (entry, entryStr)
  | value :: values, entry, entryStr =>
      match format[entry.length]? with
      | none => .error .pastEnd
      | some fieldFormat => do
          let field ← createField doubles fieldFormat value
          readFields values (entry ++ [field]) (entryStr ++ value ++ ['|'])

/-- The static set of `parse_entry`, the entries of the catalogue, and the lines of `output.txt`. -/
structure Loading (Double : Type) where
  parsedEntries : List (List Char)
  data : List (List (Field Double))
  outFile : List Line

/-- The handler of `parse_entry`. -/
def Loading.report (s : Loading Double) (what : String) (entryLine : Line) : Loading Double :=
  { s with outFile := s.outFile ++ ["Exception: ".toList ++ what.toList, entryLine] }

def parseEntry (s : Loading Double) (entryLine : Line) :
    Except Failure (List (Field Double) × Loading Double) := do
  let (entry, entryStr) ← readFields doubles format (values entryLine) [] []
  if entryStr ∈ s.parsedEntries then return ([], s.report "duplicate entry" entryLine)
  let s := { s with parsedEntries := entryStr :: s.parsedEntries }
  if entry.length < format.length then return ([], s.report "missing field" entryLine)
  return (entry, s)

/-- `add_entry`. -/
def Loading.addEntry (s : Loading Double) (entry : List (Field Double)) : Loading Double :=
  if entry.isEmpty then s else { s with data := s.data ++ [entry] }

/-- The body of the loop of `main`. -/
def enter (s : Loading Double) (entryLine : Line) : Except Failure (Loading Double) := do
  let (entry, s) ← parseEntry doubles format s entryLine
  return s.addEntry entry

/-- The names of the fields. -/
def header : Line := ['|'].intercalate (format.map FieldFormat.name)

def uniqueEntries (n : ℕ) : Line := Nat.toDigits 10 n ++ " unique entries".toList

/-- The first part of `main`. -/
def load (formatLine : Line) (lines : List Line) : Except Failure (Loading Double) := do
  let format := parseFormat formatLine
  let s ← lines.foldlM (enter doubles format) ⟨[], [], [header format]⟩
  return { s with outFile := s.outFile ++ [uniqueEntries s.data.length] }

/-! ### Lines that are accounted for -/

/-- The fields of a line are separated by the delimiter. -/
def fields (line : Line) : List (List Char) := line.splitOn '|'

/-- A line has as many fields as the format. -/
def Complete (line : Line) : Prop := (fields line).length = format.length

/-- A line is complete, and its fields parse for their types. -/
def Fits (line : Line) : Prop :=
  Complete format line ∧ ∀ p ∈ format.zip (fields line), Parses doubles p.1 p.2

instance (line : Line) : Decidable (Complete format line) :=
  inferInstanceAs (Decidable (_ = _))

instance (line : Line) : Decidable (Fits doubles format line) :=
  inferInstanceAs (Decidable (_ ∧ ∀ p ∈ format.zip (fields line), Parses doubles p.1 p.2))

/-- The entry that is made of some texts. -/
def EntryOf (texts : List (List Char)) (entry : List (Field Double)) : Prop :=
  List.zipWith (createField doubles) format texts = entry.map .ok

/-- What is written about lines, with a message for each. -/
def reports (whats : List (List Char)) (lines : List Line) : List Line :=
  (List.zipWith (fun what line => ["Exception: ".toList ++ what, line]) whats lines).flatten

/-- The catalogue has an entry for the first occurrence of every line that fits, and every other
line is in the output, once under a message. -/
def Accounted (formatLine : Line) (lines : List Line) : Prop :=
  let format := parseFormat formatLine
  ∃ s whats, load doubles formatLine lines = .ok s
    ∧ List.Forall₂ (fun line entry => EntryOf doubles format (fields line) entry)
        (firsts (Fits doubles format) id [] lines) s.data
    ∧ whats.length = (others (Fits doubles format) id [] lines).length
    ∧ s.outFile = header format :: reports whats (others (Fits doubles format) id [] lines)
        ++ [uniqueEntries s.data.length]

/-- The last field of a line is empty: the line is empty, or the delimiter ends it. -/
def Open (line : Line) : Prop := (fields line).getLast? = some []

/-- The program finds as many values as there are fields in the format. -/
def Full (line : Line) : Prop := (values line).length = format.length

instance (line : Line) : Decidable (Open line) := inferInstanceAs (Decidable (_ = _))

instance (line : Line) : Decidable (Full format line) := inferInstanceAs (Decidable (_ = _))

/-- A line has no more values than there are fields in the format, and these can be made. -/
def Readable (line : Line) : Prop :=
  (values line).length ≤ format.length
  ∧ ∀ p ∈ format.zip (values line), Converts doubles p.1 p.2

/-- The format has fields, and no line is too long or has a value that is not converted.  Of the
lines that are complete those fit whose last field is not empty.  A line with one more field, which
is empty, comes after the same line without its last delimiter. -/
structure Orderly (lines : List Line) : Prop where
  hasFields : format = [] → lines = []
  readable : ∀ line ∈ lines, Readable doubles format line
  fits : ∀ line ∈ lines, Complete format line → (Fits doubles format line ↔ ¬Open line)
  follows : ∀ before line after, lines = before ++ line :: after → Open line →
    (fields line).length = format.length + 1 →
      ∃ whole ∈ before, ¬Open whole ∧ line = whole ++ ['|']

variable {doubles format} {s s' : Loading Double} {line line' : Line} {lines : List Line}

/-! ### One line -/

theorem map_ok_of_isOk {ε α : Type} {results : List (Except ε α)} :
  (∃ as : List α, results = as.map .ok) ↔ ∀ result ∈ results, result.isOk = true
  := by
  constructor
  · rintro ⟨as, rfl⟩ result hresult
    obtain ⟨a, -, rfl⟩ := List.mem_map.mp hresult
    rfl
  · intro h
    induction results with
    | nil => exact ⟨[], rfl⟩
    | cons result results ih =>
        obtain ⟨as, rfl⟩ := ih fun result' hmem => h result' (List.mem_cons_of_mem _ hmem)
        cases result with
        | error e => exact absurd (h _ List.mem_cons_self) Bool.false_ne_true
        | ok a => exact ⟨a :: as, rfl⟩

/-- The fields of a line can be made if and only if it has an entry. -/
theorem exists_entryOf :
  (∃ entry, EntryOf doubles format (values line) entry)
    ↔ ∀ p ∈ format.zip (values line), Converts doubles p.1 p.2
  := by
  have hzip : List.zipWith (createField doubles) format (values line)
      = (format.zip (values line)).map fun p => createField doubles p.1 p.2 := by
    rw [List.map_zip_eq_zipWith]
    rfl
  unfold EntryOf
  rw [map_ok_of_isOk, hzip]
  simp only [List.forall_mem_map, createField_isOk]

/-- The text that stands for a line in the set. -/
def entryString (values : List (List Char)) : List Char := values.flatMap (· ++ ['|'])

theorem entryString_inj {line line' : Line} :
  entryString (values line) = entryString (values line') ↔ values line = values line'
  := by
  refine ⟨fun h => ?_, congrArg entryString⟩
  have hread : ∀ line, getlines '|' (entryString (values line)) = values line := fun line =>
    getlines_flatMap fun _ hmem => notMem_of_mem_getlines hmem
  rw [← hread line, h, hread]

theorem readFields_ok {vs : List (List Char)} {entry : List (Field Double)} {entryStr : List Char}
    {r : List (Field Double) × List Char} :
  readFields doubles format vs entry entryStr = .ok r
    ↔ vs.length ≤ (format.drop entry.length).length
      ∧ ∃ fields, List.zipWith (createField doubles) (format.drop entry.length) vs
          = fields.map .ok
        ∧ r = (entry ++ fields, entryStr ++ entryString vs)
  := by
  induction vs generalizing entry entryStr with
  | nil => simp [readFields, entryString, eq_comm]
  | cons value vs ih =>
      rw [readFields]
      cases hdrop : format.drop entry.length with
      | nil =>
          rw [List.getElem?_eq_none (List.drop_eq_nil_iff.mp hdrop)]
          simp
      | cons fieldFormat rest =>
          have hget : format[entry.length]? = some fieldFormat := by
            rw [← List.head?_drop, hdrop]
            rfl
          rw [hget]
          dsimp only
          cases hfield : createField doubles fieldFormat value with
          | error e =>
              refine ⟨nofun, fun ⟨_, fields, h, _⟩ => ?_⟩
              rw [List.zipWith_cons_cons, hfield] at h
              cases fields <;> cases h
          | ok field =>
              have hrest : format.drop (entry ++ [field]).length = rest := by
                rw [List.length_append, List.length_singleton, ← List.tail_drop, hdrop]
                rfl
              change readFields doubles format vs (entry ++ [field]) _ = .ok r ↔ _
              rw [ih, hrest, List.length_cons, List.length_cons,
                Nat.succ_le_succ_iff, List.zipWith_cons_cons, hfield]
              refine and_congr_right fun _ => ?_
              constructor
              · rintro ⟨fields, h, rfl⟩
                refine ⟨field :: fields, by rw [List.map_cons, h], ?_⟩
                simp [entryString]
              · rintro ⟨fields, h, rfl⟩
                cases fields with
                | nil => cases h
                | cons field' fields =>
                    obtain ⟨hhead, htail⟩ := List.cons.inj h
                    cases hhead
                    refine ⟨fields, htail, ?_⟩
                    simp [entryString]

/-- The loop makes the entry of a line that is not too long. -/
theorem readFields_values {r : List (Field Double) × List Char} :
  readFields doubles format (values line) [] [] = .ok r
    ↔ (values line).length ≤ format.length
      ∧ ∃ entry, EntryOf doubles format (values line) entry ∧ r = (entry, entryString (values line))
  := readFields_ok

/-- What becomes of a line that can be read. -/
def Loading.next (s : Loading Double) (format : List FieldFormat) (line : Line)
    (entry : List (Field Double)) : Loading Double :=
  if entryString (values line) ∈ s.parsedEntries then s.report "duplicate entry" line
  else
    let s := { s with parsedEntries := entryString (values line) :: s.parsedEntries }
    if entry.length < format.length then s.report "missing field" line else s.addEntry entry

theorem enter_eq {entry : List (Field Double)} (hlength : (values line).length ≤ format.length)
    (hentry : EntryOf doubles format (values line) entry) :
  enter doubles format s line = .ok (s.next format line entry)
  := by
  have hread := readFields_values.mpr ⟨hlength, entry, hentry, rfl⟩
  rw [enter, parseEntry, hread, Loading.next]
  change Except.bind (ite _ _ _) _ = _
  split_ifs
  · rfl
  · rfl
  · rfl

theorem of_enter (h : enter doubles format s line = .ok s') :
  (values line).length ≤ format.length
    ∧ ∃ entry, EntryOf doubles format (values line) entry ∧ s' = s.next format line entry
  := by
  cases hread : readFields doubles format (values line) [] [] with
  | error e =>
      rw [enter, parseEntry, hread] at h
      cases h
  | ok r =>
      obtain ⟨hlength, entry, hentry, -⟩ := readFields_values.mp hread
      rw [enter_eq hlength hentry] at h
      cases h
      exact ⟨hlength, entry, hentry, rfl⟩

/-! ### Fields and values -/

theorem fields_inj (h : fields line = fields line') : line = line'
  := by
  have hline : ∀ line : Line, ['|'].intercalate (fields line) = line :=
    fun _ => List.intercalate_splitOn '|'
  rw [← hline line, h, hline]

theorem values_of_not_open (h : ¬Open line) : values line = fields line
  := if_neg h

/-- The program does not read an empty last field. -/
theorem fields_of_open (h : Open line) : fields line = values line ++ [[]]
  := by
  have hvalues : values line = (fields line).dropLast := if_pos h
  rw [hvalues]
  exact (List.dropLast_append_getLast? _ h).symm

theorem fields_append_delimiter : fields (line ++ ['|']) = fields line ++ [[]]
  := List.splitOn_append_cons_self line []

theorem open_append_delimiter : Open (line ++ ['|'])
  := by
  rw [Open, fields_append_delimiter, List.getLast?_concat]

theorem values_append_delimiter : values (line ++ ['|']) = fields line
  := by
  have hfields : fields (line ++ ['|']) = _ := fields_of_open open_append_delimiter
  rw [fields_append_delimiter] at hfields
  exact (List.append_cancel_right hfields).symm

/-- A line has the values of a line whose last field is not empty only if it is that line, perhaps
with one more delimiter. -/
theorem eq_or_eq_append (hopen : ¬Open line) (h : values line' = values line) :
  line' = line ∨ line' = line ++ ['|']
  := by
  rw [values_of_not_open hopen] at h
  by_cases hopen' : Open line'
  · right
    apply fields_inj
    rw [fields_of_open hopen', h, fields_append_delimiter]
  · left
    apply fields_inj
    rw [← values_of_not_open hopen', h]

end Catalogue
