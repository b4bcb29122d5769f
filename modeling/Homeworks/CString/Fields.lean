import Homeworks.CString.Format
import Mathlib.Data.List.TakeWhile

/-!
# Fields of lines

Conversions with a width, literals of a format, and the tokens that `strtok` yields one after
the other.
-/

namespace CString

/-- The digits of a number, preceded by zeros. -/
def padDigits (width n : Nat) : List Char := (Nat.toDigits 10 n).leftpad width '0'

/-- `%0wd`: a number is padded to a width that it may exceed. -/
def padded (width : Nat) (n : Int) : List Char :=
  if n < 0 then '-' :: padDigits (width - 1) n.natAbs else padDigits width n.natAbs

/-- `%wd`: at most so many characters are read after white space. -/
def scanIntWidth (width : Nat) (s : List Char) : Option (Int × List Char) :=
  let s := s.dropWhile isSpace
  (scanInt (s.take width)).map fun (n, rest) => (n, rest ++ s.drop width)

/-- `fgets` into a buffer of a size: what is left of a file, up to the end of its first line or of
the buffer, and what follows. -/
def fgets (size : Nat) (file : List Char) : Option (List Char × List Char) :=
  let read := file.take (size - 1)
  let line := if '\n' ∈ read then read.takeWhile (· ≠ '\n') ++ ['\n'] else read
  if file = [] then none else some (line, file.drop line.length)

/-- Characters of a format that are not white space. -/
def literal (t s : List Char) : Option (List Char) := s.dropPrefix? t

theorem length_of_strtok {delimiter : Char → Bool} {s token rest : List Char}
    (h : strtok delimiter s = some (token, rest)) :
  rest.length < s.length
  := by
  simp only [strtok] at h
  split at h
  · cases h
  · rename_i hne
    cases h
    have hskip := (List.dropWhile_suffix (l := s) delimiter).length_le
    have hrest := (List.dropWhile_suffix (l := s.dropWhile delimiter)
      fun c => !delimiter c).length_le
    rw [List.isEmpty_iff, ← List.length_eq_zero_iff] at hne
    rw [List.length_drop]
    omega

/-- The tokens of a text. -/
def tokens (delimiter : Char → Bool) (s : List Char) : List (List Char) :=
  match _h : strtok delimiter s with
  | none => []
  | some (token, rest) => token :: tokens delimiter rest
termination_by s.length
decreasing_by exact length_of_strtok _h

variable {s t p : List Char} {n : Int} {c : Char} {delimiter : Char → Bool}

theorem tokens_nil :
  tokens delimiter [] = []
  := by
  rw [tokens]
  rfl

/-- A token before a delimiter. -/
theorem tokens_append (hne : s ≠ []) (hs : ∀ c ∈ s, delimiter c = false)
    (hc : delimiter c = true) :
  tokens delimiter (s ++ c :: t) = s :: tokens delimiter t
  := by
  have hnot : ∀ c ∈ s, (!delimiter c) = true := by
    intro c hc
    rw [hs c hc, Bool.not_false]
  have hend : ∀ d ∈ (c :: t).head?, (!delimiter d) = false := by
    rintro d ⟨⟩
    rw [hc, Bool.not_true]
  have hskip : (s ++ c :: t).dropWhile delimiter = s ++ c :: t := by
    cases s with
    | nil => exact absurd rfl hne
    | cons d s =>
        rw [List.cons_append, List.dropWhile_cons_of_neg]
        rw [hs d List.mem_cons_self]
        exact Bool.false_ne_true
  have htoken : strtok delimiter (s ++ c :: t) = some (s, t) := by
    simp only [strtok, hskip, takeWhile_append hnot hend, dropWhile_append hnot hend,
      List.drop_succ_cons, List.drop_zero]
    rw [if_neg]
    simp [hne]
  rw [tokens]
  split
  · rename_i h
    rw [htoken] at h
    cases h
  · rename_i h
    rw [htoken] at h
    cases h
    rfl

/-- The last token. -/
theorem tokens_eq (hne : s ≠ []) (hs : ∀ c ∈ s, delimiter c = false) :
  tokens delimiter s = [s]
  := by
  have hnot : ∀ c ∈ s, (!delimiter c) = true := by
    intro c hc
    rw [hs c hc, Bool.not_false]
  have hskip : s.dropWhile delimiter = s := by
    cases s with
    | nil => exact absurd rfl hne
    | cons d s =>
        rw [List.dropWhile_cons_of_neg]
        rw [hs d List.mem_cons_self]
        exact Bool.false_ne_true
  have htake : s.takeWhile (fun c => !delimiter c) = s := by
    have heq := takeWhile_append (t := []) hnot (by rintro c ⟨⟩)
    rwa [List.append_nil] at heq
  have hdrop : s.dropWhile (fun c => !delimiter c) = [] := by
    have heq := dropWhile_append (t := []) hnot (by rintro c ⟨⟩)
    rwa [List.append_nil] at heq
  have htoken : strtok delimiter s = some (s, []) := by
    simp only [strtok, hskip, htake, hdrop, List.drop_nil]
    rw [if_neg]
    simp [hne]
  rw [tokens]
  split
  · rename_i h
    rw [htoken] at h
    cases h
  · rename_i h
    rw [htoken] at h
    cases h
    rw [tokens_nil]

/-! ### Lines -/

theorem fgets_line {size : Nat} {line rest : List Char} (h : '\n' ∉ line)
    (hsize : line.length + 1 < size) :
  fgets size (line ++ '\n' :: rest) = some (line ++ ['\n'], rest)
  := by
  have hread : (line ++ '\n' :: rest).take (size - 1)
      = line ++ '\n' :: rest.take (size - 1 - line.length - 1) := by
    rw [List.take_append, List.take_of_length_le (by omega),
      show size - 1 - line.length = size - 1 - line.length - 1 + 1 by omega, List.take_succ_cons]
    rfl
  have hmem : '\n' ∈ line ++ '\n' :: rest.take (size - 1 - line.length - 1) :=
    List.mem_append_right _ List.mem_cons_self
  have hline : (line ++ '\n' :: rest.take (size - 1 - line.length - 1)).takeWhile (· ≠ '\n')
      = line := by
    apply takeWhile_append
    · intro c hc
      exact decide_eq_true (ne_of_mem_of_not_mem hc h)
    · intro c hc
      obtain rfl := Option.some.inj hc
      rfl
  rw [fgets, hread, if_pos hmem, hline, if_neg (by simp)]
  simp

/-- A line without a newline, or its beginning, is read up to the end of the buffer. -/
theorem fgets_of_notMem {size : Nat} {file : List Char} (hne : file ≠ [])
    (h : '\n' ∉ file.take (size - 1)) :
  fgets size file = some (file.take (size - 1), file.drop (size - 1))
  := by
  rw [fgets, if_neg h, if_neg hne, List.length_take]
  rcases Nat.le_total (size - 1) file.length with hle | hge
  · rw [Nat.min_eq_left hle]
  · rw [Nat.min_eq_right hge, List.drop_length, List.drop_of_length_le hge]

theorem length_of_fgets {size : Nat} {file line rest : List Char} (hsize : 2 ≤ size)
    (h : fgets size file = some (line, rest)) :
  rest.length < file.length
  := by
  rw [fgets] at h
  split at h
  · cases h
  · rename_i hne
    obtain ⟨rfl, rfl⟩ := Prod.mk.inj (Option.some.inj h)
    have hpos := List.length_pos_iff.mpr hne
    rw [List.length_drop]
    split_ifs
    · rw [List.length_append, List.length_singleton]
      omega
    · rw [List.length_take]
      omega

/-! ### Literals -/

theorem literal_append :
  literal t (t ++ s) = some s
  := List.dropPrefix?_append_of_beq s (beq_self_eq_true t)

/-- A text that starts with another character is no match. -/
theorem literal_cons_ne {d : Char} (h : d ≠ c) :
  literal (c :: t) (d :: s) = none
  := by
  simp [literal, List.dropPrefix?, h]

/-! ### Numbers -/

theorem isDigit_padDigits {width n : Nat} :
  ∀ c ∈ padDigits width n, c.isDigit = true
  := by
  intro c hc
  rw [padDigits, List.leftpad, List.mem_append] at hc
  rcases hc with hc | hc
  · rw [List.eq_of_mem_replicate hc]
    rfl
  · exact isDigit_toDigits c hc

/-- The characters of a padded number. -/
theorem of_mem_padded {width : Nat} (h : c ∈ padded width n) :
  c = '-' ∨ c.isDigit = true
  := by
  rw [padded] at h
  split at h
  · rcases List.mem_cons.mp h with rfl | h
    · exact .inl rfl
    · exact .inr (isDigit_padDigits c h)
  · exact .inr (isDigit_padDigits c h)

theorem padDigits_ne_nil {width n : Nat} :
  padDigits width n ≠ []
  := List.append_ne_nil_of_right_ne_nil _ Nat.toDigits_ne_nil

/-- The zeros do not count. -/
theorem ofDigitChars_padDigits {width n : Nat} :
  Nat.ofDigitChars 10 (padDigits width n) 0 = n
  := by
  rw [padDigits, List.leftpad, Nat.ofDigitChars_append, Nat.ofDigitChars_replicate_zero,
    Nat.mul_zero, Nat.ofDigitChars_ten_toDigits]

/-- The number at the start of a text that starts with digits. -/
theorem number_digits (hne : s ≠ []) (hs : ∀ c ∈ s, c.isDigit = true) (ht : EndsNumber t) :
  number (s ++ t) = some ((Nat.ofDigitChars 10 s 0 : Int), t)
  := by
  have hword : Word s := by
    apply Word.of_alphanum hne
    intro c hc
    rw [Char.isAlphanum, hs c hc, Bool.or_true]
  have hsign : sign (s ++ t) = (false, s ++ t) := by
    cases s with
    | nil => exact absurd rfl hne
    | cons c s => exact sign_digit (hs c List.mem_cons_self)
  have hnonempty : s.isEmpty = false := List.isEmpty_eq_false_iff.mpr hne
  simp only [number, hword.dropWhile_append, hsign, takeWhile_append hs ht,
    dropWhile_append hs ht, hnonempty, Bool.false_eq_true, if_false]

theorem ofDigitChars_lt (hs : ∀ c ∈ s, c.isDigit = true) :
  ∀ k, Nat.ofDigitChars 10 s k < (k + 1) * 10 ^ s.length
  := by
  induction s with
  | nil =>
      intro k
      rw [Nat.ofDigitChars_nil, List.length_nil, Nat.pow_zero, Nat.mul_one]
      exact Nat.lt_succ_self k
  | cons c s ih =>
      intro k
      have hc : c.toNat - '0'.toNat ≤ 9 := by
        have hdigit := hs c List.mem_cons_self
        rw [Char.isDigit_iff_toNat] at hdigit
        have hzero : '0'.toNat = 48 := rfl
        have hnine : '9'.toNat = 57 := rfl
        omega
      have hle : 10 * k + (c.toNat - '0'.toNat) + 1 ≤ (k + 1) * 10 := by omega
      rw [Nat.ofDigitChars_cons, List.length_cons]
      calc
        _ < (10 * k + (c.toNat - '0'.toNat) + 1) * 10 ^ s.length :=
          ih (fun d hd => hs d (List.mem_cons_of_mem _ hd)) _
        _ ≤ (k + 1) * 10 * 10 ^ s.length := Nat.mul_le_mul_right _ hle
        _ = (k + 1) * 10 ^ (s.length + 1) := by rw [Nat.pow_succ, Nat.mul_assoc, Nat.mul_comm 10]

/-- Digits that other digits follow have another value, unless they are a zero. -/
theorem ofDigitChars_append_ne {r : List Char} (hr : r ≠ []) (hs : Nat.ofDigitChars 10 s 0 ≠ 0) :
  Nat.ofDigitChars 10 s 0 < Nat.ofDigitChars 10 (s ++ r) 0
  := by
  have hlength : 0 < r.length := List.length_pos_of_ne_nil hr
  have hten : 10 ^ 1 ≤ 10 ^ r.length := Nat.pow_le_pow_right (by decide) hlength
  have hmul := Nat.mul_le_mul_right (Nat.ofDigitChars 10 s 0) hten
  rw [Nat.ofDigitChars_append, Nat.ofDigitChars_eq_ofDigitChars_zero (l := r)]
  omega

/-- A number that is cut off is another number, if it is one. -/
theorem ofDigitChars_toDigits_ne {n : Nat} {r : List Char} (hs : s ≠ []) (hr : r ≠ [])
    (h : s ++ r = Nat.toDigits 10 n) :
  Nat.ofDigitChars 10 s 0 < n
  := by
  have hvalue : Nat.ofDigitChars 10 (s ++ r) 0 = n := by rw [h, Nat.ofDigitChars_ten_toDigits]
  rcases Nat.eq_zero_or_pos n with rfl | hpos
  · -- a zero is one digit
    have hlength := congrArg List.length h
    rw [List.length_append, Nat.toDigits_zero, List.length_singleton] at hlength
    have hslength := List.length_pos_of_ne_nil hs
    have hrlength := List.length_pos_of_ne_nil hr
    omega
  · rcases Nat.eq_zero_or_pos (Nat.ofDigitChars 10 s 0) with hzero | hne
    · rw [hzero]
      exact hpos
    · calc
        _ < Nat.ofDigitChars 10 (s ++ r) 0 := ofDigitChars_append_ne hr (Nat.pos_iff_ne_zero.mp hne)
        _ = n := hvalue

/-- The number after a minus sign. -/
theorem number_minus (hne : s ≠ []) (hs : ∀ c ∈ s, c.isDigit = true) :
  number ('-' :: s) = some (-(Nat.ofDigitChars 10 s 0 : Int), [])
  := by
  have hskip : ('-' :: s).dropWhile isSpace = '-' :: s := rfl
  have htake : s.takeWhile Char.isDigit = s := by
    have heq := takeWhile_append (t := []) hs endsNumber_nil
    rwa [List.append_nil] at heq
  have hdrop : s.dropWhile Char.isDigit = [] := by
    have heq := dropWhile_append (t := []) hs endsNumber_nil
    rwa [List.append_nil] at heq
  have hnonempty : s.isEmpty = false := List.isEmpty_eq_false_iff.mpr hne
  simp only [number, hskip, sign, htake, hdrop, hnonempty, Bool.false_eq_true, if_false, if_true]

/-- What is read of a number that is cut off. -/
theorem number_prefix_decimal {r : List Char} {m : Int} {rest : List Char}
    (hp : p ++ r = decimal n) (h : number p = some (m, rest)) :
  rest = [] ∧ (min n 0 ≤ m ∧ m ≤ max n 0) ∧ (r ≠ [] → m ≠ n)
  := by
  have hdigits : ∀ {q : List Char}, q ++ r = Nat.toDigits 10 n.natAbs →
      ∀ c ∈ q, c.isDigit = true := by
    intro q hq c hc
    apply isDigit_toDigits (n := n.natAbs)
    rw [← hq]
    exact List.mem_append_left _ hc
  have hvalue : ∀ {q : List Char}, q ≠ [] → q ++ r = Nat.toDigits 10 n.natAbs →
      Nat.ofDigitChars 10 q 0 ≤ n.natAbs ∧ (r ≠ [] → Nat.ofDigitChars 10 q 0 < n.natAbs) := by
    intro q hne hq
    have hlt : r ≠ [] → Nat.ofDigitChars 10 q 0 < n.natAbs := by
      intro hr
      exact ofDigitChars_toDigits_ne hne hr hq
    rcases eq_or_ne r [] with rfl | hr
    · rw [List.append_nil] at hq
      rw [hq, Nat.ofDigitChars_ten_toDigits]
      exact ⟨Nat.le_refl _, fun h => absurd rfl h⟩
    · exact ⟨Nat.le_of_lt (hlt hr), hlt⟩
  rw [decimal] at hp
  split at hp
  · rename_i hneg
    cases p with
    | nil => cases h
    | cons c q =>
        obtain ⟨rfl, hq⟩ := List.cons.inj hp
        rcases eq_or_ne q [] with rfl | hne
        · cases h
        · obtain ⟨hle, hlt⟩ := hvalue hne hq
          rw [number_minus hne (hdigits hq)] at h
          cases h
          refine ⟨rfl, by omega, ?_⟩
          intro hr
          have hlt' := hlt hr
          omega
  · rename_i hpos
    rcases eq_or_ne p [] with rfl | hne
    · cases h
    · obtain ⟨hle, hlt⟩ := hvalue hne hp
      have hnumber := number_digits hne (hdigits hp) endsNumber_nil
      rw [List.append_nil] at hnumber
      rw [hnumber] at h
      cases h
      refine ⟨rfl, by omega, ?_⟩
      intro hr
      have hlt' := hlt hr
      omega

/-- A text that `%d` reads starts with a number. -/
theorem number_of_scanInt {m : Int} {rest : List Char} (h : scanInt s = some (m, rest)) :
  ∃ k, number s = some (k, rest) ∧ m = int (max (-2 ^ 63) (min k (2 ^ 63 - 1)))
  := by
  simp only [scanInt, scanLong, Option.map_map] at h
  obtain ⟨⟨k, rest'⟩, hk, heq⟩ := Option.map_eq_some_iff.mp h
  cases heq
  exact ⟨k, hk, rfl⟩

theorem number_suffix {k : Int} {rest : List Char} (h : number s = some (k, rest)) :
  rest <:+ s
  := by
  have hsign : ∀ s, (sign s).2 <:+ s := by
    intro s
    unfold sign
    split
    · exact List.suffix_cons _ _
    · exact List.suffix_cons _ _
    · exact List.suffix_refl _
  simp only [number] at h
  split at h
  · cases h
  · cases h
    apply (List.dropWhile_suffix _).trans
    apply (hsign _).trans
    apply List.dropWhile_suffix

theorem scanInt_suffix {m : Int} {rest : List Char} (h : scanInt s = some (m, rest)) :
  rest <:+ s
  := by
  obtain ⟨k, hk, -⟩ := number_of_scanInt h
  exact number_suffix hk

theorem scanIntWidth_subset {width : Nat} {m : Int} {rest : List Char}
    (h : scanIntWidth width s = some (m, rest)) :
  rest ⊆ s
  := by
  obtain ⟨⟨m', rest'⟩, hscan, heq⟩ := Option.map_eq_some_iff.mp h
  cases heq
  have hskip := (List.dropWhile_suffix (l := s) isSpace).subset
  intro c hc
  apply hskip
  rcases List.mem_append.mp hc with hc | hc
  · exact List.mem_of_mem_take ((scanInt_suffix hscan).subset hc)
  · exact List.mem_of_mem_drop hc

theorem scanInt_nil :
  scanInt [] = none
  := rfl

/-- What `%d` reads of an `int` that is cut off. -/
theorem scanInt_prefix {r : List Char} {m : Int} {rest : List Char} (hn : -2 ^ 31 ≤ n)
    (hn' : n < 2 ^ 31) (hp : p ++ r = decimal n) (h : scanInt p = some (m, rest)) :
  rest = [] ∧ (r ≠ [] → m ≠ n)
  := by
  obtain ⟨k, hk, rfl⟩ := number_of_scanInt h
  obtain ⟨hrest, hle, hne⟩ := number_prefix_decimal hp hk
  have hint : int (max (-2 ^ 63) (min k (2 ^ 63 - 1))) = k := by
    rw [Int.min_eq_left, Int.max_eq_right]
    · apply int_eq <;> omega
    · omega
    · omega
  rw [hint]
  exact ⟨hrest, hne⟩

/-- A padded number is read back. -/
theorem scanIntWidth_padded {width k : Nat} (hwidth : 0 < width) (hk : k < 10 ^ width)
    (hint : k < 2 ^ 31) :
  scanIntWidth width (padded width k ++ t) = some ((k : Int), t)
  := by
  have hpadded : padded width k = padDigits width k := by
    rw [padded, if_neg (by omega)]
    rfl
  have hlength : (padDigits width k).length = width := by
    rw [padDigits, List.length_leftpad]
    have hle := (Nat.length_toDigits_le_iff (b := 10) (by decide) hwidth).mpr hk
    omega
  have hword : Word (padDigits width k) := by
    apply Word.of_alphanum padDigits_ne_nil
    intro c hc
    rw [Char.isAlphanum, isDigit_padDigits c hc, Bool.or_true]
  have hnumber := number_digits (s := padDigits width k) padDigits_ne_nil isDigit_padDigits
    endsNumber_nil
  rw [List.append_nil, ofDigitChars_padDigits] at hnumber
  have hscan : scanInt (padDigits width k) = some ((k : Int), []) := by
    simp only [scanInt, scanLong, hnumber, Option.map_some]
    rw [Int.min_eq_left, Int.max_eq_right, int_eq]
    all_goals omega
  have htake : (padDigits width k ++ t).take width = padDigits width k := by
    rw [List.take_append_of_le_length (Nat.le_of_eq hlength.symm),
      List.take_of_length_le (Nat.le_of_eq hlength)]
  have hdrop : (padDigits width k ++ t).drop width = t := by
    rw [List.drop_append_of_le_length (Nat.le_of_eq hlength.symm),
      List.drop_of_length_le (Nat.le_of_eq hlength), List.nil_append]
  simp only [scanIntWidth, hpadded, hword.dropWhile_append, htake, hdrop, hscan, Option.map_some,
    List.nil_append]

/-- A number of few characters is small. -/
theorem number_lt {k : Int} {rest : List Char} (h : number s = some (k, rest)) :
  -10 ^ s.length < k ∧ k < 10 ^ s.length
  := by
  have hsign : ∀ s, (sign s).2.length ≤ s.length := by
    intro s
    unfold sign
    split
    · exact Nat.le_succ _
    · exact Nat.le_succ _
    · exact Nat.le_refl _
  have hlength : ((sign (s.dropWhile isSpace)).2.takeWhile Char.isDigit).length ≤ s.length :=
    calc
      _ ≤ (sign (s.dropWhile isSpace)).2.length := (List.takeWhile_prefix _).length_le
      _ ≤ (s.dropWhile isSpace).length := hsign _
      _ ≤ s.length := (List.dropWhile_suffix _).length_le
  have hlt := ofDigitChars_lt (s := (sign (s.dropWhile isSpace)).2.takeWhile Char.isDigit)
    (fun _ hc => List.mem_takeWhile_imp hc) 0
  have hpow := Nat.pow_le_pow_right (n := 10) (by decide) hlength
  simp only [number] at h
  split at h
  · cases h
  · cases h
    have hcast : ((10 ^ s.length : Nat) : Int) = 10 ^ s.length := by simp
    rw [← hcast]
    split <;> omega

/-- A number with a width of at most nine is small. -/
theorem scanIntWidth_lt {width : Nat} {m : Int} {rest : List Char} (hwidth : width ≤ 9)
    (h : scanIntWidth width s = some (m, rest)) :
  m < 10 ^ width
  := by
  obtain ⟨⟨m', rest'⟩, hscan, heq⟩ := Option.map_eq_some_iff.mp h
  cases heq
  obtain ⟨k, hk, rfl⟩ := number_of_scanInt hscan
  obtain ⟨hgt, hlt⟩ := number_lt hk
  have hlength : ((s.dropWhile isSpace).take width).length ≤ width := by
    rw [List.length_take]
    apply Nat.min_le_left
  have hpow : (10 : Int) ^ ((s.dropWhile isSpace).take width).length ≤ 10 ^ width := by
    exact_mod_cast Nat.pow_le_pow_right (n := 10) (by decide) hlength
  have hnine : (10 : Int) ^ width ≤ 10 ^ 9 := by
    exact_mod_cast Nat.pow_le_pow_right (n := 10) (by decide) hwidth
  rw [Int.min_eq_left, Int.max_eq_right, int_eq]
  all_goals omega

end CString
