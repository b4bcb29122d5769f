import Homeworks.CString.Format
import Mathlib.Data.List.DropRight

/-!
# Texts and integers of Java programs

What `Scanner`, `String` and `Integer` do with texts.  A text is a list of characters; one
outside of the basic multilingual plane stands for its two surrogates.

The arithmetic of `int`: a result that is too large wraps around to a negative number.
-/

namespace Java

abbrev Text := List Char

/-- `Integer.MAX_VALUE`. -/
abbrev MAX_VALUE : Nat := 2147483647

/-- An integer is an `int`. -/
def IsInt (n : Int) : Prop := -MAX_VALUE - 1 ≤ n ∧ n ≤ MAX_VALUE

instance (n : Int) : Decidable (IsInt n) := inferInstanceAs (Decidable (_ ∧ _))

/-! ### Lines -/

/-- A character that ends a line; a carriage return and a newline end it together. -/
def isSeparator (c : Char) : Bool :=
  c = '\n' || c = '\r' || c = '\u2028' || c = '\u2029' || c = '\u0085'

/-- What follows the end of a line. -/
def skipSeparator : Text → Text
  | '\r' :: '\n' :: s => s
  | s => s.drop 1

theorem length_skipSeparator {s : Text} (h : s ≠ []) :
  (skipSeparator s).length < s.length
  := by
  unfold skipSeparator
  split
  · exact Nat.lt_succ_of_lt (Nat.lt_succ_self _)
  · rw [List.length_drop]
    have hpos := List.length_pos_of_ne_nil h
    omega

/-- A line and its end are a part of the text. -/
theorem length_nextLine {s : Text} (h : s ≠ []) :
  (skipSeparator (s.dropWhile fun c => !isSeparator c)).length < s.length
  := by
  have hle := (List.dropWhile_suffix (l := s) fun c => !isSeparator c).length_le
  rcases eq_or_ne (s.dropWhile fun c => !isSeparator c) [] with hnil | hne
  · rw [hnil]
    exact List.length_pos_of_ne_nil h
  · exact (length_skipSeparator hne).trans_le hle

/-- The lines that `nextLine` returns. -/
def lines (s : Text) : List Text :=
  if _h : s = [] then
    []
  else
    s.takeWhile (fun c => !isSeparator c)
      :: lines (skipSeparator (s.dropWhile fun c => !isSeparator c))
termination_by s.length
decreasing_by exact length_nextLine _h

/-! ### Strings -/

/-- `trim`: characters up to the blank are removed at both ends. -/
def trim (s : Text) : Text := (s.dropWhile (· ≤ ' ')).rdropWhile (· ≤ ' ')

/-- `Character.isWhitespace`. -/
def isWhitespace (c : Char) : Bool :=
  ('\t' ≤ c && c ≤ '\r') || ('\u001c' ≤ c && c ≤ ' ') || c = '\u1680'
    || ('\u2000' ≤ c && c ≤ '\u2006') || ('\u2008' ≤ c && c ≤ '\u200a')
    || c = '\u2028' || c = '\u2029' || c = '\u205f' || c = '\u3000'

def strip (s : Text) : Text := (s.dropWhile isWhitespace).rdropWhile isWhitespace

/-- `split`, for a single character: the empty strings at the end are left out. -/
def split (d : Char) (s : Text) : List Text :=
  if d ∈ s then (s.splitOn d).rdropWhile List.isEmpty else [s]

/-! ### Numbers -/

/-- The code points of the zeros of the decimal digits. -/
def zeros : List Nat :=
  [0x0030, 0x0660, 0x06F0, 0x07C0, 0x0966, 0x09E6, 0x0A66, 0x0AE6, 0x0B66, 0x0BE6, 0x0C66, 0x0CE6,
    0x0D66, 0x0DE6, 0x0E50, 0x0ED0, 0x0F20, 0x1040, 0x1090, 0x17E0, 0x1810, 0x1946, 0x19D0, 0x1A80,
    0x1A90, 0x1B50, 0x1BB0, 0x1C40, 0x1C50, 0xA620, 0xA8D0, 0xA900, 0xA9D0, 0xA9F0, 0xAA50, 0xABF0,
    0xFF10]

/-- `Character.digit`. -/
def digit (c : Char) : Option Nat :=
  (zeros.find? fun z => z ≤ c.toNat && c.toNat < z + 10).map fun z => c.toNat - z

/-- The value of some digits, if all of them are. -/
def digits (s : Text) : Option Nat := s.foldlM (fun n c => (digit c).map fun d => 10 * n + d) 0

/-- `Integer.parseInt`; there is no result if the string is no `int`. -/
def parseInt (s : Text) : Option Int :=
  let (negative, s) := CString.sign s
  if s.isEmpty then
    none
  else
    match digits s with
    | none => none
    | some n =>
        let n : Int := if negative then -n else n
        if IsInt n then some n else none

variable {s t : Text} {c d : Char}

/-! ### Printable characters -/

/-- A character of the basic Latin block that is not a blank or a control character. -/
def Printable (c : Char) : Prop := '!' ≤ c ∧ c ≤ '~'

instance (c : Char) : Decidable (Printable c) := inferInstanceAs (Decidable (_ ∧ _))

namespace Printable

theorem ne (h : Printable c) (hd : d < '!' ∨ '~' < d) :
  c ≠ d
  := by
  rintro rfl
  rcases hd with hd | hd
  · exact absurd h.1 (Char.not_le.mpr hd)
  · exact absurd h.2 (Char.not_le.mpr hd)

theorem not_le (h : Printable c) (hd : d < '!') :
  ¬ c ≤ d
  := fun hle => Char.not_le.mpr hd (Char.le_trans h.1 hle)

theorem not_ge (h : Printable c) (hd : '~' < d) :
  ¬ d ≤ c
  := fun hle => Char.not_le.mpr hd (Char.le_trans hle h.2)

theorem isSeparator (h : Printable c) :
  isSeparator c = false
  := by
  simp only [Java.isSeparator, Bool.or_eq_false_iff, decide_eq_false_iff_not]
  exact ⟨⟨⟨⟨h.ne (by decide), h.ne (by decide)⟩, h.ne (by decide)⟩, h.ne (by decide)⟩,
    h.ne (by decide)⟩

theorem isWhitespace (h : Printable c) :
  isWhitespace c = false
  := by
  have hcontrol : ¬ c ≤ '\r' := h.not_le (by decide)
  have hblank : ¬ c ≤ ' ' := h.not_le (by decide)
  have hogham : c ≠ '\u1680' := h.ne (by decide)
  have hquad : ¬ '\u2000' ≤ c := h.not_ge (by decide)
  have hpunctuation : ¬ '\u2008' ≤ c := h.not_ge (by decide)
  have hline : c ≠ '\u2028' := h.ne (by decide)
  have hparagraph : c ≠ '\u2029' := h.ne (by decide)
  have hmathematical : c ≠ '\u205f' := h.ne (by decide)
  have hideographic : c ≠ '\u3000' := h.ne (by decide)
  simp [Java.isWhitespace, *]

/-- The characters of a number are printable. -/
theorem of_mem_decimal {n : Int} (h : c ∈ CString.decimal n) :
  Printable c
  := by
  rcases CString.of_mem_decimal h with rfl | hdigit
  · decide
  · have hbounds := Char.isDigit_iff_toNat.mp hdigit
    have hexclamation : '!'.toNat < '0'.toNat := by decide
    have htilde : '9'.toNat < '~'.toNat := by decide
    constructor
    · change '!'.toNat ≤ c.toNat
      omega
    · change c.toNat ≤ '~'.toNat
      omega

end Printable

/-! ### Round trips -/

theorem lines_nil :
  lines [] = []
  := by
  rw [lines, dif_pos rfl]

/-- A line before a newline. -/
theorem lines_append (hs : ∀ c ∈ s, isSeparator c = false) :
  lines (s ++ '\n' :: t) = s :: lines t
  := by
  have hnot : ∀ c ∈ s, (!isSeparator c) = true := by
    intro c hc
    rw [hs c hc, Bool.not_false]
  have hend : ∀ c ∈ ('\n' :: t).head?, (!isSeparator c) = false := by
    rintro c ⟨⟩
    rfl
  have hskip : skipSeparator ('\n' :: t) = t := rfl
  rw [lines, dif_neg (List.append_ne_nil_of_right_ne_nil _ (List.cons_ne_nil _ _)),
    CString.takeWhile_append hnot hend, CString.dropWhile_append hnot hend, hskip]

/-- A string without white space at its ends stays as it is. -/
theorem strip_eq (hfirst : ∀ c ∈ s.head?, isWhitespace c = false)
    (hlast : ∀ c ∈ s.getLast?, isWhitespace c = false) :
  strip s = s
  := by
  have hdrop : s.dropWhile isWhitespace = s := by
    cases s with
    | nil => rfl
    | cons c s =>
        rw [List.dropWhile_cons_of_neg]
        rw [hfirst c rfl]
        exact Bool.false_ne_true
  rw [strip, hdrop, List.rdropWhile_eq_self_iff]
  intro hne
  rw [hlast _ (List.getLast_mem_getLast? hne)]
  exact Bool.false_ne_true

/-- A string of printable characters at the ends stays as it is. -/
theorem strip_printable (hfirst : ∀ c ∈ s.head?, Printable c)
    (hlast : ∀ c ∈ s.getLast?, Printable c) :
  strip s = s
  := strip_eq (fun c hc => (hfirst c hc).isWhitespace) fun c hc => (hlast c hc).isWhitespace

theorem strip_decimal {n : Int} :
  strip (CString.decimal n) = CString.decimal n
  := by
  apply strip_printable
  · intro c hc
    exact .of_mem_decimal (List.mem_of_mem_head? hc)
  · intro c hc
    exact .of_mem_decimal (List.mem_of_getLast? hc)

/-- `trim` leaves a string as it is if the characters at its ends are above the blank. -/
theorem trim_eq (hfirst : ∀ c ∈ s.head?, ' ' < c) (hlast : ∀ c ∈ s.getLast?, ' ' < c) :
  trim s = s
  := by
  have hdrop : s.dropWhile (· ≤ ' ') = s := by
    cases s with
    | nil => rfl
    | cons c s =>
        rw [List.dropWhile_cons_of_neg]
        simpa using hfirst c rfl
  rw [trim, hdrop, List.rdropWhile_eq_self_iff]
  intro hne
  simpa using hlast _ (List.getLast_mem_getLast? hne)

/-- The last character of a string that has been trimmed is above the blank. -/
theorem lt_of_getLast?_trim (h : c ∈ (trim s).getLast?) :
  ' ' < c
  := by
  obtain ⟨hne, rfl⟩ := List.mem_getLast?_eq_getLast h
  have hlast := List.rdropWhile_last_not (· ≤ ' ') _ hne
  exact Char.not_le.mp fun hle => hlast (decide_eq_true hle)

/-- Two strings with a single character between them. -/
theorem split_append (hs : d ∉ s) (ht : d ∉ t) (hne : t ≠ []) :
  split d (s ++ d :: t) = [s, t]
  := by
  have hsplit : (s ++ d :: t).splitOn d = [s, t] := by
    rw [List.splitOn_append_cons_of_beq _ _ (beq_self_eq_true d), List.splitOn_eq_singleton hs,
      List.splitOn_eq_singleton ht]
    rfl
  rw [split, if_pos (List.mem_append_right _ List.mem_cons_self), hsplit,
    List.rdropWhile_eq_self_iff]
  intro _
  simpa using hne

theorem digit_of_isDigit (h : c.isDigit = true) :
  digit c = some (c.toNat - '0'.toNat)
  := by
  rw [Char.isDigit_iff_toNat] at h
  have hzero : '0'.toNat = 48 := rfl
  have hnine : '9'.toNat = 57 := rfl
  rw [digit, zeros, List.find?_cons_of_pos, Option.map_some, hzero]
  rw [Bool.and_eq_true, decide_eq_true_iff, decide_eq_true_iff]
  omega

theorem digits_eq (h : ∀ c ∈ s, c.isDigit = true) :
  digits s = some (Nat.ofDigitChars 10 s 0)
  := by
  have hfold : ∀ n, s.foldlM (fun n c => (digit c).map fun d => 10 * n + d) n
      = some (Nat.ofDigitChars 10 s n) := by
    induction s with
    | nil =>
        intro n
        rw [Nat.ofDigitChars_nil]
        rfl
    | cons c s ih =>
        intro n
        rw [List.foldlM_cons, digit_of_isDigit (h c List.mem_cons_self), Nat.ofDigitChars_cons]
        exact ih (fun d hd => h d (List.mem_cons_of_mem _ hd)) _
  exact hfold 0

/-- A number is a word. -/
theorem word_decimal {n : Int} :
  CString.Word (CString.decimal n)
  where
  ne_nil := CString.decimal_ne_nil n
  noSpace c hc := by
    rcases CString.of_mem_decimal hc with rfl | hdigit
    · rfl
    · apply CString.isSpace_eq_false
      exact (Char.isDigit_iff_toNat.mp hdigit).1

theorem parseInt_nil :
  parseInt [] = none
  := rfl

/-- What is parsed is an `int`. -/
theorem isInt_of_parseInt {n : Int} (h : parseInt s = some n) :
  IsInt n
  := by
  dsimp only [parseInt] at h
  split at h
  · cases h
  · split at h
    · cases h
    · obtain ⟨hint, heq⟩ := Option.ite_none_right_eq_some.mp h
      rwa [Option.some.inj heq] at hint

/-- An `int` that is printed is read back. -/
theorem parseInt_decimal {n : Int} (hn : IsInt n) :
  parseInt (CString.decimal n) = some n
  := by
  have hsign := CString.sign_decimal (n := n) (t := [])
  rw [List.append_nil, List.append_nil] at hsign
  have hword : (CString.decimal n).dropWhile CString.isSpace = CString.decimal n := by
    have hskip := (word_decimal (n := n)).dropWhile_append (t := [])
    rwa [List.append_nil] at hskip
  rw [hword] at hsign
  have hne : (Nat.toDigits 10 n.natAbs).isEmpty = false := by
    rw [List.isEmpty_eq_false_iff]
    exact Nat.toDigits_ne_nil
  simp only [parseInt, hsign, hne, Bool.false_eq_true, if_false,
    digits_eq CString.isDigit_toDigits, Nat.ofDigitChars_ten_toDigits, decide_eq_true_eq]
  have hvalue : (if n < 0 then -(n.natAbs : Int) else (n.natAbs : Int)) = n := by
    split <;> omega
  rw [hvalue, if_pos hn]

end Java

/-! ### Integers that wrap around -/

namespace Java

def wrap (n : Int) : Int := n.bmod 4294967296

variable {m n : Int}

theorem isInt_iff :
  IsInt n ↔ -2147483648 ≤ n ∧ n ≤ 2147483647
  := Iff.rfl

theorem isInt_wrap (n : Int) :
  IsInt (wrap n)
  := by
  rw [isInt_iff, wrap, Int.bmod_def]
  split
  · omega
  · omega

theorem wrap_eq (h : IsInt n) :
  wrap n = n
  := by
  rw [isInt_iff] at h
  rw [wrap, Int.bmod_def]
  split
  · omega
  · omega

/-- A number that is too large for an `int`, but has 32 bits. -/
theorem wrap_overflow (h : 2147483647 < n) (h' : n < 4294967296) :
  wrap n = n - 4294967296
  := by
  rw [wrap, Int.bmod_def]
  split
  · omega
  · omega

theorem wrap_add_wrap :
  wrap (m + wrap n) = wrap (m + n)
  := Int.add_bmod_bmod

end Java
