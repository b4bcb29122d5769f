import Homeworks.CString.Floating

/-!
# Evaluating polynomials

The program reads polynomials as texts and evaluates them at numbers, which are exact here.
-/

namespace Polynomials

open CString

/-- The variables of `evaluation` that `next_term` assigns to. -/
structure Output where
  coefficient : ℚ
  power : ℤ

/-- `sscanf` with the format `%lfx^%d`: the number of conversions, and the variables.  What is not
converted keeps its value. -/
def sscanfPower (term : List Char) (out : Output) : ℕ × Output :=
  match scanDouble term with
  | none => (0, out)
  | some (coefficient, rest) =>
      match (literal ['x', '^'] rest).bind scanInt with
      | none => (1, { out with coefficient })
      | some (power, _) => (2, ⟨coefficient, power⟩)

/-- `sscanf` with the format `%lfx`. -/
def sscanfLinear (term : List Char) (out : Output) : ℕ × Output :=
  match scanDouble term with
  | none => (0, out)
  | some (coefficient, _) => (1, { out with coefficient })

/-- The loop that moves to the next term. -/
def skipTerm (term : List Char) : List Char :=
  (term.dropWhile fun c => c ≠ '+' && c ≠ '\n').drop 1

/-- `next_term`. -/
def nextTerm (term : List Char) (out : Output) : List Char × Output :=
  let (converted, out) := sscanfPower term out
  if converted = 2 then
    let (_, out) := sscanfPower term out
    (skipTerm term, out)
  else
    let (converted, out) := sscanfLinear term out
    if converted = 1 then
      let (_, out) := sscanfLinear term out
      (skipTerm term, { out with power := 1 })
    else
      (skipTerm term, { out with power := 0 })

variable {term : List Char} {out : Output}

theorem fst_nextTerm : (nextTerm term out).1 = skipTerm term
  := by
  rw [nextTerm]
  dsimp only
  split_ifs <;> rfl

theorem length_skipTerm (h : term ≠ []) : (skipTerm term).length < term.length
  := by
  rw [skipTerm, List.length_drop]
  have hle := (List.dropWhile_suffix (fun c => c ≠ '+' && c ≠ '\n') (l := term)).length_le
  have hpos := List.length_pos_iff.mpr h
  omega

/-- The loop of `evaluation`. -/
def evaluationFrom (value : ℚ) (term : List Char) (out : Output) (result : ℚ) : ℚ :=
  if _h : term = [] then
    result
  else
    let next := nextTerm term out
    evaluationFrom value next.1 next.2 (result + next.2.coefficient * value ^ next.2.power)
termination_by term.length
decreasing_by
  rw [fst_nextTerm]
  exact length_skipTerm _h

/-- `evaluation`, with what the variables hold at its start. -/
def evaluation (value : ℚ) (polynomial : List Char) (out : Output) : ℚ :=
  evaluationFrom value polynomial out 0

end Polynomials
