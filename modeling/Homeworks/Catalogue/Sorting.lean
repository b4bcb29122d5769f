import Homeworks.CString.Order
import Homeworks.Catalogue.Accounts
import Homeworks.Sorting.Comparator
import Mathlib.Data.Char
import Mathlib.Data.Int.Order.Basic
import Mathlib.Data.List.Lex

/-!
# Sorting a catalogue

Entries are sorted by the texts of a field, also where the field is an integer.  How `double`s are
written, and what an element without value is written as, are parameters, as is `std::sort`.
-/

namespace Catalogue

open CString Occurrence

variable {Double : Type}

/-- The texts of `double`s, by `to_string` and by `<<`, and those of elements without value. -/
structure Texts (Double : Type) where
  toString : Double → List Char
  write : Double → List Char
  noInt : List Char
  noDouble : List Char

/-- The elements of an array with `:` between them. -/
def joined (elements : List (List Char)) : List Char := [':'].intercalate elements

/-- `get_data`. -/
def Field.getData (texts : Texts Double) : Field Double → List Char
  | .str data => data
  | .strArr data => joined data
  | .char data => [data]
  | .charArr data => joined (data.map ([·]))
  | .int data => decimal data
  | .intArr data => joined (data.map fun n => (n.map decimal).getD texts.noInt)
  | .double data => texts.toString data
  | .doubleArr data => joined (data.map fun x => (x.map texts.write).getD texts.noDouble)

/-- The value of an integer field. -/
def Field.toInt : Field Double → ℤ
  | .int data => data
  | _ => 0

variable (doubles : Doubles Double) (format : List FieldFormat)

/-- The fields are made by `create_field`, one for each field of the format. -/
def Made (entry : List (Field Double)) : Prop :=
  List.Forall₂ (fun fieldFormat field =>
    ∃ value, createField doubles fieldFormat value = .ok field) format entry

abbrev Entry := { entry : List (Field Double) // Made doubles format entry }

/-- `Catalog`. -/
structure Catalog where
  data : List (Entry doubles format)

/-- The index of the first field of a name. -/
def fieldIndex (fieldName : List Char) : Option (Fin format.length) :=
  format.findFinIdx? fun fieldFormat => fieldFormat.name = fieldName

variable {doubles format}

/-- The field at an index. -/
def Entry.field (entry : Entry doubles format) (i : Fin format.length) : Field Double :=
  entry.val.get (i.cast entry.property.length_eq)

/-- `std::sort`. -/
abbrev StdSort (doubles : Doubles Double) (format : List FieldFormat) :=
  (Entry doubles format → Entry doubles format → Bool) → List (Entry doubles format) →
    List (Entry doubles format)

/-- `Catalog::sort`, with the text of the exception. -/
def Catalog.sort (texts : Texts Double) (stdSort : StdSort doubles format)
    (catalog : Catalog doubles format) (fieldName : List Char) :
    Except (List Char) (Catalog doubles format) :=
  match fieldIndex format fieldName with
  | none => .error "command is wrong".toList
  | some i =>
      .ok ⟨stdSort (fun a b => decide ((a.field i).getData texts < (b.field i).getData texts))
        catalog.data⟩

/-- Sorting leaves a permutation in which the integers of a field do not decrease. -/
def Catalog.SortsNumerically (texts : Texts Double) (stdSort : StdSort doubles format)
    (catalog : Catalog doubles format) (fieldName : List Char) (i : Fin format.length) : Prop :=
  ∃ sorted, catalog.sort texts stdSort fieldName = .ok sorted
    ∧ sorted.data.Perm catalog.data
    ∧ sorted.data.Pairwise fun a b => (a.field i).toInt ≤ (b.field i).toInt

variable {entry : List (Field Double)} {line formatLine : Line} {lines : List Line}
  {s : Loading Double}

/-! ### Loaded catalogues -/

theorem made_of_entryOf (hfull : Full format line)
    (h : EntryOf doubles format (values line) entry) :
  Made doubles format entry
  := by
  unfold Full at hfull
  unfold EntryOf at h
  generalize values line = vs at hfull h
  unfold Made
  induction format generalizing vs entry with
  | nil =>
      obtain rfl : entry = [] := List.map_eq_nil_iff.mp h.symm
      exact .nil
  | cons fieldFormat format ih =>
      obtain ⟨value, vs, rfl⟩ := List.exists_cons_of_length_eq_add_one hfull
      cases entry with
      | nil => cases h
      | cons field entry =>
          obtain ⟨hfield, hentry⟩ := List.cons.inj h
          exact .cons ⟨value, hfield⟩ (ih vs (Nat.succ.inj hfull) hentry)

/-- The entries of a catalogue that has been loaded are made for its format. -/
theorem made_of_load (h : load doubles formatLine lines = .ok s) :
  ∀ entry ∈ s.data, Made doubles (parseFormat formatLine) entry
  := by
  rw [load] at h
  generalize parseFormat formatLine = format at *
  cases hrun : lines.foldlM (enter doubles format) ⟨[], [], [header format]⟩ with
  | error e =>
      rw [hrun] at h
      cases h
  | ok s₁ =>
      rw [hrun] at h
      cases h
      rcases eq_or_ne format [] with rfl | hne
      · rw [(data_of_format_nil hrun).1]
        simp
      · obtain ⟨-, entries, -, hentries, -, hdata, -⟩ := of_foldlM (seen_new _) hrun
        have hall : ∀ line ∈ firsts (Full format) values [] lines, Full format line :=
          fun line hline => (of_mem_firsts hline).1
        have hmade : List.Forall₂ (fun entry _ => Made doubles format entry ∧ True) entries
            (firsts (Full format) values [] lines) :=
          (((List.forall₂_and_left _ _).mpr ⟨hall, hentries⟩).imp fun line entry hentry =>
            ⟨made_of_entryOf hentry.1 hentry.2, trivial⟩).flip
        change ∀ entry ∈ s₁.data, _
        rw [hdata hne]
        exact ((List.forall₂_and_left _ _).mp hmade).1

/-- The catalogue after loading. -/
def Catalog.ofLoading (h : load doubles formatLine lines = .ok s) :
    Catalog doubles (parseFormat formatLine) :=
  ⟨s.data.attachWith _ (made_of_load h)⟩

theorem Catalog.data_ofLoading (h : load doubles formatLine lines = .ok s) :
  (Catalog.ofLoading h).data.map Subtype.val = s.data
  := List.attachWith_map_subtype_val _

/-- Sorting a catalogue that has been loaded rearranges its entries. -/
theorem Catalog.perm_ofLoading {texts : Texts Double}
    {stdSort : StdSort doubles (parseFormat formatLine)} (hstd : Comparator.Lawful stdSort)
    (h : load doubles formatLine lines = .ok s) {fieldName : List Char}
    {sorted : Catalog doubles (parseFormat formatLine)}
    (hsort : (Catalog.ofLoading h).sort texts stdSort fieldName = .ok sorted) :
  (sorted.data.map Subtype.val).Perm s.data
  := by
  rw [Catalog.sort] at hsort
  split at hsort
  · cases hsort
  next i hi =>
    cases hsort
    rw [← Catalog.data_ofLoading h]
    apply List.Perm.map
    apply (hstd _ _ _).1
    exact Comparator.isStrictWeakOrder_of_key (β := List Char) fun a b => decide_eq_true_iff

/-! ### Integer fields -/

theorem Entry.exists_createField (entry : Entry doubles format) (i : Fin format.length) :
  ∃ value, createField doubles (format.get i) value = .ok (entry.field i)
  := (List.forall₂_iff_get.mp entry.property).2 i i.isLt (entry.property.length_eq ▸ i.isLt)

/-- In a field of integers there are integers. -/
theorem Entry.field_eq_int {entry : Entry doubles format} {i : Fin format.length}
    (htype : (format.get i).type = "integer".toList) (hsingle : (format.get i).isArr = false) :
  entry.field i = .int (entry.field i).toInt
  := by
  obtain ⟨value, h⟩ := entry.exists_createField i
  rw [createField, htype, hsingle] at h
  cases hvalue : stoi value with
  | error e =>
      rw [hvalue] at h
      cases h
  | ok n =>
      rw [hvalue] at h
      have heq : Field.int n = entry.field i := Except.ok.inj h
      rw [← heq]
      rfl

/-- Sorting on a field of integers is numeric if and only if the texts of all two integers are
ordered as the integers are. -/
theorem Catalog.sortsNumerically_iff {Double : Type} {doubles : Doubles Double}
    {format : List FieldFormat} (texts : Texts Double) (stdSort : StdSort doubles format)
    (hstd : Comparator.Lawful stdSort) (catalog : Catalog doubles format)
    (fieldName : List Char) (i : Fin format.length) (hi : fieldIndex format fieldName = some i)
    (htype : (format.get i).type = "integer".toList) (hsingle : (format.get i).isArr = false) :
  catalog.SortsNumerically texts stdSort fieldName i
    ↔ ∀ a ∈ catalog.data, ∀ b ∈ catalog.data, (a.field i).toInt < (b.field i).toInt →
      OrderedDecimal (a.field i).toInt (b.field i).toInt
  := by
  have htext : ∀ entry : Entry doubles format,
      (entry.field i).getData texts = decimal (entry.field i).toInt := fun entry => by
    rw [entry.field_eq_int htype hsingle]
    rfl
  let lt (a b : Entry doubles format) : Bool :=
    decide ((a.field i).getData texts < (b.field i).getData texts)
  have hlt : ∀ a b, lt a b = true
      ↔ decimal (a.field i).toInt < decimal (b.field i).toInt := fun a b => by
    rw [decide_eq_true_eq, htext, htext]
  have hsort : catalog.sort texts stdSort fieldName = .ok ⟨stdSort lt catalog.data⟩ := by
    rw [Catalog.sort, hi]
  obtain ⟨hperm, hpairwise⟩ := hstd lt
    (Comparator.isStrictWeakOrder_of_key (β := List Char) hlt) catalog.data
  simp only [hlt] at hpairwise
  have hagree := Comparator.pairwise_le_iff (f := fun entry : Entry doubles format =>
    (entry.field i).toInt) hpairwise fun a _ b _ heq => decimal_injective heq
  simp only [SortsNumerically, hsort, Except.ok.injEq, exists_eq_left', hperm, true_and]
  rw [hagree]
  simp only [hperm.mem_iff]
  refine forall₂_congr fun a _ => forall₂_congr fun b _ => ?_
  exact forall_congr' fun h => decimal_lt_iff h

/-! ### A catalogue of years -/

/-- Conversions of texts without numbers. -/
def noDoubles : Doubles Unit := ⟨fun _ => .error .invalidArgument, fun _ => (none, false)⟩

def noTexts : Texts Unit := ⟨fun _ => [], fun _ => [], [], []⟩

def yearFormat : List FieldFormat := [⟨"year".toList, "integer".toList, false⟩]

theorem fieldIndex_year : fieldIndex yearFormat "year".toList = some ⟨0, Nat.one_pos⟩
  := by decide

theorem made_year (n : Fin 10000) : Made noDoubles yearFormat [.int n]
  := by
  have hread : number (decimal n) = some ((n : ℤ), []) := by
    rw [← List.append_nil (decimal n), number_decimal (t := []) nofun]
  have hstoi : stoi (decimal n) = .ok (n : ℤ) := by
    rw [stoi, hread]
    exact if_pos (by omega)
  have hfield : createField noDoubles ⟨"year".toList, "integer".toList, false⟩ (decimal n)
      = .ok (.int n) := by
    rw [createField, hstoi]
    rfl
  exact .cons ⟨_, hfield⟩ .nil

def year (n : Fin 10000) : Entry noDoubles yearFormat := ⟨[.int n], made_year n⟩

/-- Merge sort as `std::sort`. -/
def mergeSort (doubles : Doubles Double) (format : List FieldFormat) : StdSort doubles format :=
  fun lt l => l.mergeSort fun a b => !lt b a

theorem Catalog.sortsNumerically_years :
  let catalog : Catalog noDoubles yearFormat := ⟨[year 1998, year 1984]⟩
  catalog.SortsNumerically noTexts (mergeSort noDoubles yearFormat) "year".toList ⟨0, Nat.one_pos⟩
  := by
  intro catalog
  refine (Catalog.sortsNumerically_iff noTexts (mergeSort noDoubles yearFormat)
    Comparator.lawful_mergeSort catalog "year".toList ⟨0, Nat.one_pos⟩ fieldIndex_year
    rfl rfl).mpr ?_
  decide

/-- The text `10` is less than the text `9`. -/
theorem Catalog.ten_before_nine :
  ¬ ∀ {Double : Type} (doubles : Doubles Double) (format : List FieldFormat)
      (texts : Texts Double) (stdSort : StdSort doubles format), Comparator.Lawful stdSort →
      ∀ (catalog : Catalog doubles format) (fieldName : List Char) (i : Fin format.length),
        fieldIndex format fieldName = some i → (format.get i).type = "integer".toList →
        (format.get i).isArr = false → catalog.SortsNumerically texts stdSort fieldName i
  := by
  intro h
  let catalog : Catalog noDoubles yearFormat := ⟨[year 10, year 9]⟩
  obtain ⟨sorted, hsort, -, hpairwise⟩ := h noDoubles yearFormat noTexts
    (mergeSort noDoubles yearFormat) Comparator.lawful_mergeSort catalog "year".toList
    ⟨0, Nat.one_pos⟩ fieldIndex_year rfl rfl
  -- the entries are already sorted by their texts
  have hdata : sorted.data = catalog.data := by
    have heq := congrArg Catalog.data (Except.ok.inj hsort)
    rw [← heq]
    refine List.mergeSort_of_pairwise ?_
    decide
  rw [hdata] at hpairwise
  revert hpairwise
  decide

end Catalogue
