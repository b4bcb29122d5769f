import Homeworks.CString.Number
import Mathlib.Data.Fin.Basic
import Mathlib.Data.List.FinRange

/-!
# The number guessing game

A secret of hexadecimal digits is drawn, the player types numbers and is told how many of their
digits are at the right and at the wrong place.  The results of `rand` are a sequence of any
numbers.
-/

namespace GuessingGame

open CString

/-- The size of the arrays. -/
def DIGIT : ℕ := 17

abbrev Digit := Fin 16

abbrev Digits := Vector Digit DIGIT

/-- The element at an index below the number of digits, of which there are at most 16. -/
def digitAt {digitNum : Fin DIGIT} (num : Digits) (i : Fin digitNum) : Digit :=
  getElem num i (i.isLt.trans digitNum.isLt)

/-! ### The secret -/

/-- The variables of `generate_random_number`. -/
structure Generation (digitNum : Fin DIGIT) where
  i : ℕ
  i_le : i ≤ digitNum
  randomNum : Digits

variable {digitNum : Fin DIGIT}

/-- The array before the first digit is drawn. -/
def Generation.start : Generation digitNum := ⟨0, Nat.zero_le _, Vector.replicate DIGIT 0⟩

/-- The body of the loop with a random number, after which `i` is counted up.  A digit that
repeats another one is drawn again. -/
def Generation.step (s : Generation digitNum) (rand : ℕ) : Generation digitNum :=
  if h : s.i < digitNum then
    let digit := Fin.ofNat 16 rand
    let randomNum := s.randomNum.set s.i digit (h.trans digitNum.isLt)
    if ∃ j : Fin s.i, getElem s.randomNum j (j.isLt.trans (h.trans digitNum.isLt)) = digit then
      { s with randomNum }
    else
      ⟨s.i + 1, h, randomNum⟩
  else s

/-- The variables after a number of random numbers. -/
def run (digitNum : Fin DIGIT) (rand : ℕ → ℕ) : ℕ → Generation digitNum
  | 0 => .start
  | n + 1 => (run digitNum rand n).step (rand n)

/-- `generate_random_number` ends with an array. -/
def Generates (digitNum : Fin DIGIT) (rand : ℕ → ℕ) (secret : Digits) : Prop :=
  ∃ n, (run digitNum rand n).i = digitNum ∧ (run digitNum rand n).randomNum = secret

/-! ### A guess -/

/-- What ends the program: a message, or an index that is not below the size of the array. -/
inductive Exit where
  | E1
  | E2
  | pastEnd
  deriving DecidableEq, Repr

/-- The value of a character. -/
def digit? (c : Char) : Option Digit :=
  if 48 ≤ c.toNat ∧ c.toNat ≤ 57 then some (Fin.ofNat 16 (c.toNat - 48))
  else if 97 ≤ c.toNat ∧ c.toNat ≤ 102 then some (Fin.ofNat 16 (c.toNat - 87))
  else none

/-- The loop of `get_input` over the characters from an index on, with the index at its end. -/
def readDigits : List Char → ℕ → Digits → Except Exit (ℕ × Digits)
  | [], i, userNum => .ok (i, userNum)
  | c :: input, i, userNum =>
      match digit? c with
      | none => .error .E2
      | some digit =>
          if h : i < DIGIT then readDigits input (i + 1) (userNum.set i digit h)
          else .error .pastEnd

/-- Two of the digits are equal. -/
def Repeats (digitNum : Fin DIGIT) (num : Digits) : Prop :=
  ∃ j k : Fin digitNum, j < k ∧ digitAt num j = digitAt num k

instance (num : Digits) : Decidable (Repeats digitNum num) :=
  inferInstanceAs (Decidable (∃ _ _, _))

/-- `get_input`. -/
def getInput (digitNum : Fin DIGIT) (input : List Char) (userNum : Digits) :
    Except Exit Digits := do
  let (i, userNum) ← readDigits (input.filter fun c => !isSpace c) 0 userNum
  if getElem userNum 0 (Nat.zero_lt_succ 16) = 0 then throw .E1
  if i ≠ digitNum then throw .E1
  if Repeats digitNum userNum then throw .E1
  return userNum

/-! ### Hints -/

/-- The variables of `hints`. -/
structure Tally where
  exact : ℕ
  arr : Vector ℕ DIGIT

/-- A digit occurs at another place. -/
def Tally.count (t : Tally) (digit : Digit) : Tally :=
  have h : digit < DIGIT := digit.isLt.trans (Nat.lt_succ_self 16)
  { t with arr := t.arr.set digit (getElem t.arr digit h + 1) h }

/-- The body of the first loop. -/
def Tally.compare (randomNum userNum : Digits) (t : Tally) (i : Fin digitNum) : Tally :=
  if digitAt randomNum i = digitAt userNum i then { t with exact := t.exact + 1 }
  else (t.count (digitAt randomNum i)).count (digitAt userNum i)

inductive Answer where
  | found (count : ℕ)
  | hint (exact misplaced : ℕ)
  deriving DecidableEq, Repr

/-- `hints`. -/
def hints (digitNum : Fin DIGIT) (randomNum userNum : Digits) (count : ℕ) : Answer :=
  let t := (List.finRange digitNum).foldl (Tally.compare randomNum userNum)
    ⟨0, Vector.replicate DIGIT 0⟩
  if t.exact = digitNum then .found count
  else .hint t.exact (t.arr.toList.count 2)

/-! ### The secret as it is typed -/

/-- The lower-case hexadecimal digits of a number. -/
def typed (digitNum : Fin DIGIT) (num : Digits) : List Char :=
  (List.finRange digitNum).map fun i => Nat.digitChar (digitAt num i)

/-- The secret is accepted when it is typed, and it is found. -/
def Guessable (digitNum : Fin DIGIT) (secret : Digits) : Prop :=
  ∀ userNum count, ∃ userNum', getInput digitNum (typed digitNum secret) userNum = .ok userNum'
    ∧ (∀ i : Fin digitNum, digitAt userNum' i = digitAt secret i)
    ∧ hints digitNum secret userNum' count = .found count

end GuessingGame
