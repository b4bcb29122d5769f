import Homeworks.CString.Fields
import Mathlib.Algebra.Field.Rat

/-!
# Floating-point numbers in texts

`%lf` over exact numbers.  The names of infinities and of NaNs are not read, since they are no
numbers.
-/

namespace CString

def isHexDigit (c : Char) : Bool := c.isDigit || ('a' ≤ c.toLower && c.toLower ≤ 'f')

/-- The value of a digit, decimal or hexadecimal. -/
def digitValue (c : Char) : ℕ := if c.isDigit then c.toNat - 48 else c.toLower.toNat - 87

def digitsValue (base : ℕ) (s : List Char) : ℕ := s.foldl (fun n c => base * n + digitValue c) 0

/-- The number that is written with digits before and behind a point. -/
def pointValue (base : ℕ) (whole fraction : List Char) : ℚ :=
  digitsValue base (whole ++ fraction) / base ^ fraction.length

/-- The digits before and behind an optional point, and what follows. -/
def scanDigits (isDigit : Char → Bool) (s : List Char) : List Char × List Char × List Char :=
  match s.dropWhile isDigit with
  | '.' :: rest => (s.takeWhile isDigit, rest.takeWhile isDigit, rest.dropWhile isDigit)
  | rest => (s.takeWhile isDigit, [], rest)

/-- The power of a base that an optional exponent stands for.  A marker without digits is a
failure. -/
def scanExponent (marker : Char) (base : ℚ) : List Char → Option (ℚ × List Char)
  | [] => some (1, [])
  | c :: s =>
      if c.toLower = marker then
        let (negative, s) := sign s
        let digits := s.takeWhile Char.isDigit
        if digits.isEmpty then none
        else
          let n : ℤ := digitsValue 10 digits
          some (base ^ (if negative then -n else n), s.dropWhile Char.isDigit)
      else
        some (1, c :: s)

/-- What follows the mark of a hexadecimal number. -/
def hexMark : List Char → Option (List Char)
  | '0' :: c :: s => if c.toLower = 'x' then some s else none
  | _ => none

/-- A number without a sign. -/
def scanUnsigned (s : List Char) : Option (ℚ × List Char) :=
  match hexMark s with
  | some s =>
      let (whole, fraction, s) := scanDigits isHexDigit s
      if (whole ++ fraction).isEmpty then none
      else (scanExponent 'p' 2 s).map fun (factor, rest) =>
        (pointValue 16 whole fraction * factor, rest)
  | none =>
      let (whole, fraction, s) := scanDigits Char.isDigit s
      if (whole ++ fraction).isEmpty then none
      else (scanExponent 'e' 10 s).map fun (factor, rest) =>
        (pointValue 10 whole fraction * factor, rest)

/-- `%lf`: the number at the start of a text, white space skipped, and what follows it. -/
def scanDouble (s : List Char) : Option (ℚ × List Char) :=
  let (negative, s) := sign (s.dropWhile isSpace)
  (scanUnsigned s).map fun (value, rest) => (if negative then -value else value, rest)

variable {s t whole fraction : List Char} {c : Char}

/-! ### Decimal numbers -/

/-- What may follow a decimal number. -/
structure EndsDouble (t : List Char) : Prop where
  digit : ∀ c ∈ t.head?, c.isDigit = false
  point : ∀ c ∈ t.head?, c ≠ '.'
  exponent : ∀ c ∈ t.head?, c.toLower ≠ 'e'

theorem scanExponent_of_ends (h : EndsDouble t) : scanExponent 'e' 10 t = some (1, t)
  := by
  cases t with
  | nil => rfl
  | cons c t => exact if_neg (h.exponent c rfl)

theorem scanDigits_whole (hs : ∀ c ∈ s, c.isDigit = true) (h : EndsDouble t) :
  scanDigits Char.isDigit (s ++ t) = (s, [], t)
  := by
  rw [scanDigits, takeWhile_append hs h.digit, dropWhile_append hs h.digit]
  split
  · exact absurd rfl (h.point _ rfl)
  · rfl

theorem scanDigits_point (hwhole : ∀ c ∈ whole, c.isDigit = true)
    (hfraction : ∀ c ∈ fraction, c.isDigit = true) (h : EndsDouble t) :
  scanDigits Char.isDigit (whole ++ '.' :: (fraction ++ t)) = (whole, fraction, t)
  := by
  have hpoint : ∀ c ∈ ('.' :: (fraction ++ t)).head?, c.isDigit = false := by
    intro c hc
    obtain rfl := Option.some.inj hc
    rfl
  rw [scanDigits, takeWhile_append hwhole hpoint, dropWhile_append hwhole hpoint]
  exact congrArg₂ (fun fraction rest => (whole, fraction, rest))
    (takeWhile_append hfraction h.digit) (dropWhile_append hfraction h.digit)

end CString
