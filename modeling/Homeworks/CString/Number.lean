import Homeworks.CString.Text
import Mathlib.Algebra.Group.Int.Defs
import Mathlib.Algebra.Group.Nat.Defs

/-!
# Numbers in texts

The conversions between texts and integers of the C library.
-/

namespace CString

/-- The optional sign at the start of a text: whether it is a minus sign, and what
follows. -/
def sign : List Char → Bool × List Char
  | '-' :: s => (true, s)
  | '+' :: s => (false, s)
  | s => (false, s)

/-- The number at the start of a text, white space skipped, and what follows it. -/
def number (s : List Char) : Option (Int × List Char) :=
  let (negative, s) := sign (s.dropWhile isSpace)
  let digits := s.takeWhile Char.isDigit
  if digits.isEmpty then
    none
  else
    let n : Int := Nat.ofDigitChars 10 digits 0
    some (if negative then -n else n, s.dropWhile Char.isDigit)

/-- `std::stol`, or the text of the exception thrown. -/
def stol (s : List Char) : Except String Int :=
  match number s with
  | none => .error "stol"
  | some (n, _) => if -2 ^ 63 ≤ n ∧ n < 2 ^ 63 then .ok n else .error "stol"

/-- `std::stoul`, or the text of the exception thrown.  A number with a minus sign is
negated modulo `2 ^ 64`. -/
def stoul (s : List Char) : Except String Int :=
  match number s with
  | none => .error "stoul"
  | some (n, _) => if -2 ^ 64 < n ∧ n < 2 ^ 64 then .ok (n % 2 ^ 64) else .error "stoul"

/-- An integer as an `int`. -/
def int (n : Int) : Int := n.bmod (2 ^ 32)

/-- An integer that is an `int` stays as it is. -/
theorem int_eq {n : Int} (h : -2 ^ 31 ≤ n) (h' : n < 2 ^ 31) :
  int n = n
  := by
  apply Int.bmod_eq_of_le
  · exact h
  · exact h'

/-- `atoi`: the number at the start of a text as a `long`, the closest one where there is none,
converted to an `int`. -/
def atoi (s : List Char) : Int :=
  match number s with
  | none => 0
  | some (n, _) => int (max (-2 ^ 63) (min n (2 ^ 63 - 1)))

/-- The result of `std::stoul` is a `size_t`. -/
theorem stoul_bounds {s : List Char} {a : Int} (h : stoul s = .ok a) :
  0 ≤ a ∧ a < 2 ^ 64
  := by
  unfold stoul at h
  split at h
  · cases h
  · split at h
    · cases h
      constructor
      · apply Int.emod_nonneg
        decide
      · apply Int.emod_lt_of_pos
        decide
    · cases h

end CString
