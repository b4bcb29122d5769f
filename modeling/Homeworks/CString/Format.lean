import Homeworks.CString.Number

/-!
# Formatted texts

The conversions of `printf` and `scanf`, and `strtok`.  A conversion of `scanf` yields what it
has read and what follows.
-/

namespace CString

/-! ### Output -/

/-- `%d` and `%ld`. -/
def decimal (n : Int) : List Char :=
  if n < 0 then '-' :: Nat.toDigits 10 n.natAbs else Nat.toDigits 10 n.natAbs

/-- `snprintf` into an array of a size. -/
def snprintf (size : Nat) (s : List Char) : List Char := s.take (size - 1)

/-! ### Tokens -/

/-- `strtok`: the next token and what follows the delimiter after it. -/
def strtok (delimiter : Char → Bool) (s : List Char) : Option (List Char × List Char) :=
  let s := s.dropWhile delimiter
  if s.isEmpty then
    none
  else
    some (s.takeWhile fun c => !delimiter c, (s.dropWhile fun c => !delimiter c).drop 1)

/-! ### Input -/

/-- `%s`, which skips white space. -/
def scanWord (s : List Char) : Option (List Char × List Char) :=
  let s := s.dropWhile isSpace
  if s.isEmpty then
    none
  else
    some (s.takeWhile fun c => !isSpace c, s.dropWhile fun c => !isSpace c)

/-- `%[^\n]`: what is before the end of the line. -/
def scanLine (s : List Char) : Option (List Char × List Char) :=
  let line := s.takeWhile (· ≠ '\n')
  if line.isEmpty then none else some (line, s.dropWhile (· ≠ '\n'))

/-- `%ld`: the number at the start of a text, the closest `long` where there is none. -/
def scanLong (s : List Char) : Option (Int × List Char) :=
  (number s).map fun (n, rest) => (max (-2 ^ 63) (min n (2 ^ 63 - 1)), rest)

/-- `%d`: the number that `%ld` reads as an `int`. -/
def scanInt (s : List Char) : Option (Int × List Char) :=
  (scanLong s).map fun (n, rest) => (int n, rest)

variable {s t : List Char} {n : Int} {c : Char}

/-- What is printed starts with what the format starts with. -/
theorem prefix_snprintf {size : Nat} (h : s.length < size) :
  s <+: snprintf size (s ++ t)
  := by
  rw [snprintf, List.take_append, List.take_of_length_le (Nat.le_sub_one_of_lt h)]
  apply List.prefix_append

theorem mem_of_mem_snprintf {size : Nat} (h : c ∈ snprintf size s) :
  c ∈ s
  := List.mem_of_mem_take h

/-- What is printed in full. -/
theorem snprintf_eq {size : Nat} (h : s.length < size) :
  snprintf size s = s
  := List.take_of_length_le (Nat.le_sub_one_of_lt h)

theorem decimal_ne_nil (n : Int) :
  decimal n ≠ []
  := by
  rw [decimal]
  split
  · exact List.cons_ne_nil _ _
  · exact Nat.toDigits_ne_nil

/-- The characters of a number. -/
theorem of_mem_decimal (h : c ∈ decimal n) :
  c = '-' ∨ c.isDigit = true
  := by
  rw [decimal] at h
  split at h
  · rcases List.mem_cons.mp h with rfl | h
    · exact .inl rfl
    · exact .inr (Nat.isDigit_of_mem_toDigits (by decide) (Nat.le_refl _) h)
  · exact .inr (Nat.isDigit_of_mem_toDigits (by decide) (Nat.le_refl _) h)

/-- The characters of a token and of what follows it are those of the text. -/
theorem of_strtok {delimiter : Char → Bool} {token rest : List Char}
    (h : strtok delimiter s = some (token, rest)) :
  token ⊆ s ∧ rest ⊆ s
  := by
  simp only [strtok] at h
  split at h
  · cases h
  · cases h
    have hskip := (List.dropWhile_suffix (l := s) delimiter).subset
    constructor
    · intro c hc
      apply hskip (List.takeWhile_prefix _ |>.subset hc)
    · intro c hc
      apply hskip ((List.dropWhile_suffix _).subset (List.mem_of_mem_drop hc))

/-! ### Round trips -/

/-- A text that `%s` reads. -/
structure Word (s : List Char) : Prop where
  ne_nil : s ≠ []
  noSpace : ∀ c ∈ s, isSpace c = false

/-- A text that ends a word. -/
def EndsWord (s : List Char) : Prop := ∀ c ∈ s.head?, isSpace c = true

/-- A text that ends a number. -/
def EndsNumber (s : List Char) : Prop := ∀ c ∈ s.head?, c.isDigit = false

/-- The first part of a text is what is before a character that does not satisfy a
predicate. -/
theorem takeWhile_append {p : Char → Bool} (hs : ∀ c ∈ s, p c = true)
    (ht : ∀ c ∈ t.head?, p c = false) :
  (s ++ t).takeWhile p = s
  := by
  rw [List.takeWhile_append_of_pos hs]
  cases t with
  | nil => rw [List.takeWhile_nil, List.append_nil]
  | cons c t =>
      rw [List.takeWhile_cons_of_neg, List.append_nil]
      simpa using ht c rfl

theorem dropWhile_append {p : Char → Bool} (hs : ∀ c ∈ s, p c = true)
    (ht : ∀ c ∈ t.head?, p c = false) :
  (s ++ t).dropWhile p = t
  := by
  rw [List.dropWhile_append_of_pos hs]
  cases t with
  | nil => rfl
  | cons c t =>
      rw [List.dropWhile_cons_of_neg]
      simpa using ht c rfl

/-- What is before a delimiter and what follows it are determined by the text. -/
theorem delimited_inj {p : Char → Bool} {s' t' : List Char} {d : Char} (hd : p d = false)
    (hs : ∀ c ∈ s, p c = true) (hs' : ∀ c ∈ s', p c = true) (h : s ++ d :: t = s' ++ d :: t') :
  s = s' ∧ t = t'
  := by
  have hend : ∀ {t : List Char}, ∀ c ∈ (d :: t).head?, p c = false := by
    rintro t c ⟨⟩
    exact hd
  constructor
  · calc
      s = (s ++ d :: t).takeWhile p := (takeWhile_append hs hend).symm
      _ = (s' ++ d :: t').takeWhile p := by rw [h]
      _ = s' := takeWhile_append hs' hend
  · have htail : d :: t = d :: t' := by
      calc
        d :: t = (s ++ d :: t).dropWhile p := (dropWhile_append hs hend).symm
        _ = (s' ++ d :: t').dropWhile p := by rw [h]
        _ = d :: t' := dropWhile_append hs' hend
    exact (List.cons.inj htail).2

/-- No character from the digits on is white space. -/
theorem isSpace_eq_false (h : '0'.toNat ≤ c.toNat) :
  isSpace c = false
  := by
  have hne : c ≠ ' ' := by
    rintro rfl
    revert h
    decide
  have hgt : ¬ c ≤ '\r' := by
    intro hle
    have hle' : c.toNat ≤ '\r'.toNat := hle
    have hlt : '\r'.toNat < '0'.toNat := by decide
    omega
  simp [isSpace, hne, hgt]

theorem toNat_of_isAlphanum (h : c.isAlphanum = true) :
  '0'.toNat ≤ c.toNat
  := by
  change ((decide (c.val ≥ 'A'.val ∧ c.val ≤ 'Z'.val)
    || (decide (c.val ≥ 'a'.val) && decide (c.val ≤ 'z'.val)))
    || (decide (c.val ≥ '0'.val) && decide (c.val ≤ '9'.val))) = true at h
  simp only [Bool.or_eq_true, Bool.and_eq_true, decide_eq_true_eq, ge_iff_le,
    UInt32.le_iff_toNat_le, Char.toNat_val] at h
  have hupper : '0'.toNat ≤ 'A'.toNat := by decide
  have hlower : '0'.toNat ≤ 'a'.toNat := by decide
  omega

/-- A name of letters and digits is a word. -/
theorem Word.of_alphanum (hne : s ≠ []) (h : ∀ c ∈ s, c.isAlphanum = true) :
  Word s
  where
  ne_nil := hne
  noSpace c hc := isSpace_eq_false (toNat_of_isAlphanum (h c hc))

/-- A word does not start with white space. -/
theorem Word.dropWhile_append (hs : Word s) :
  (s ++ t).dropWhile isSpace = s ++ t
  := by
  cases s with
  | nil => exact absurd rfl hs.ne_nil
  | cons c s =>
      rw [List.cons_append, List.dropWhile_cons_of_neg]
      simpa using hs.noSpace c List.mem_cons_self

/-- A word is read back. -/
theorem scanWord_append (hs : Word s) (ht : EndsWord t) :
  scanWord (s ++ t) = some (s, t)
  := by
  have hnonspace : ∀ c ∈ s, (!isSpace c) = true := by
    intro c hc
    rw [hs.noSpace c hc, Bool.not_false]
  have hend : ∀ c ∈ t.head?, (!isSpace c) = false := by
    intro c hc
    rw [ht c hc, Bool.not_true]
  have hne : (s ++ t).isEmpty = false := by
    rw [List.isEmpty_eq_false_iff]
    apply List.append_ne_nil_of_left_ne_nil hs.ne_nil
  simp only [scanWord, hs.dropWhile_append, hne, Bool.false_eq_true, if_false,
    takeWhile_append hnonspace hend, dropWhile_append hnonspace hend]

theorem endsWord_nil :
  EndsWord []
  := by
  rintro c ⟨⟩

theorem endsWord_space :
  EndsWord (' ' :: s)
  := by
  rintro c ⟨⟩
  rfl

/-- The last word is read back. -/
theorem scanWord_eq (hs : Word s) :
  scanWord s = some (s, [])
  := by
  have h := scanWord_append hs endsWord_nil
  rwa [List.append_nil] at h

/-- A line is read back. -/
theorem scanLine_eq (hne : s ≠ []) (h : '\n' ∉ s) :
  scanLine s = some (s, [])
  := by
  have hnot : ∀ c ∈ s, decide (c ≠ '\n') = true := by
    intro c hc
    rw [decide_eq_true_iff]
    rintro rfl
    exact h hc
  have hline : s.takeWhile (· ≠ '\n') = s := by
    have heq := takeWhile_append (t := []) hnot (by rintro c ⟨⟩)
    rwa [List.append_nil] at heq
  have hrest : s.dropWhile (· ≠ '\n') = [] := by
    have heq := dropWhile_append (t := []) hnot (by rintro c ⟨⟩)
    rwa [List.append_nil] at heq
  simp only [scanLine, hline, hrest, List.isEmpty_eq_false_iff.mpr hne, Bool.false_eq_true,
    if_false]

theorem sign_digit (h : c.isDigit = true) :
  sign (c :: s) = (false, c :: s)
  := by
  rw [sign]
  · rintro s' ⟨⟩
    cases h
  · rintro s' ⟨⟩
    cases h

theorem isDigit_toDigits {n : Nat} :
  ∀ c ∈ Nat.toDigits 10 n, c.isDigit = true
  := fun _ hc => Nat.isDigit_of_mem_toDigits (by decide) (Nat.le_refl _) hc

/-- A number is printed with a sign that is read back. -/
theorem sign_decimal :
  sign ((decimal n ++ t).dropWhile isSpace)
    = (decide (n < 0), Nat.toDigits 10 n.natAbs ++ t)
  := by
  rw [decimal]
  split
  · rename_i hneg
    rw [decide_eq_true hneg]
    rfl
  · rename_i hpos
    have hword : Word (Nat.toDigits 10 n.natAbs) := by
      apply Word.of_alphanum Nat.toDigits_ne_nil
      intro c hc
      rw [Char.isAlphanum, isDigit_toDigits c hc, Bool.or_true]
    rw [hword.dropWhile_append, decide_eq_false hpos]
    cases hdigits : Nat.toDigits 10 n.natAbs with
    | nil => exact absurd hdigits Nat.toDigits_ne_nil
    | cons c digits =>
        apply sign_digit
        apply isDigit_toDigits (n := n.natAbs)
        rw [hdigits]
        apply List.mem_cons_self

/-- A number is read back. -/
theorem number_decimal (ht : EndsNumber t) :
  number (decimal n ++ t) = some (n, t)
  := by
  have hne : (Nat.toDigits 10 n.natAbs).isEmpty = false := by
    rw [List.isEmpty_eq_false_iff]
    exact Nat.toDigits_ne_nil
  simp only [number, sign_decimal, takeWhile_append isDigit_toDigits ht,
    dropWhile_append isDigit_toDigits ht, hne, Bool.false_eq_true, if_false,
    Nat.ofDigitChars_ten_toDigits, decide_eq_true_eq]
  congr 2
  split <;> omega

theorem endsNumber_nil :
  EndsNumber []
  := by
  rintro c ⟨⟩

/-- The characters of a number are few. -/
theorem length_decimal {k : Nat} (hk : 0 < k) (h : n.natAbs < 10 ^ k) :
  (decimal n).length ≤ k + 1
  := by
  have hdigits := (Nat.length_toDigits_le_iff (by decide) hk).mpr h
  rw [decimal]
  split
  · rw [List.length_cons]
    omega
  · omega

/-- A `long` is read back. -/
theorem scanLong_decimal (ht : EndsNumber t) (h : -2 ^ 63 ≤ n) (h' : n < 2 ^ 63) :
  scanLong (decimal n ++ t) = some (n, t)
  := by
  have hclosest : max (-2 ^ 63) (min n (2 ^ 63 - 1)) = n := by
    rw [Int.min_eq_left (Int.le_sub_one_of_lt h'), Int.max_eq_right h]
  simp only [scanLong, number_decimal ht, Option.map_some, hclosest]

/-- An `int` is read back. -/
theorem scanInt_decimal (ht : EndsNumber t) (h : -2 ^ 31 ≤ n) (h' : n < 2 ^ 31) :
  scanInt (decimal n ++ t) = some (n, t)
  := by
  have hlong : scanLong (decimal n ++ t) = some (n, t) := by
    apply scanLong_decimal ht <;> omega
  simp only [scanInt, hlong, Option.map_some, int_eq h h']

end CString
