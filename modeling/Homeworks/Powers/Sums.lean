import Mathlib.Algebra.Polynomial.Roots

/-!
# Sums of multiples of powers

A list of coefficients, each with an exponent, is a sum of multiples of powers of a number.  Its
values are all zero if and only if the coefficients of each exponent add up to zero.
-/

namespace Powers

section

variable {R : Type*} [CommRing R] {l l' : List (R × ℕ)} {c x : R} {n : ℕ}

def valueAt (l : List (R × ℕ)) (x : R) : R := (l.map fun p => p.1 * x ^ p.2).sum

/-- The coefficients of an exponent. -/
def coefficientAt (n : ℕ) (l : List (R × ℕ)) : R := ((l.filter (·.2 = n)).map Prod.fst).sum

theorem valueAt_nil : valueAt [] x = 0
  := rfl

theorem valueAt_cons : valueAt ((c, n) :: l) x = c * x ^ n + valueAt l x
  := List.sum_cons

theorem valueAt_append : valueAt (l ++ l') x = valueAt l x + valueAt l' x
  := by
  rw [valueAt, List.map_append, List.sum_append, valueAt, valueAt]

theorem coefficientAt_cons (m : ℕ) :
  coefficientAt m ((c, n) :: l) = (if n = m then c else 0) + coefficientAt m l
  := by
  rw [coefficientAt, coefficientAt, List.filter_cons]
  split_ifs with hexponent hne hne
  · rw [List.map_cons, List.sum_cons]
  · exact absurd (of_decide_eq_true hexponent) hne
  · exact absurd (decide_eq_true hne) hexponent
  · rw [zero_add]

/-- The polynomial of a sum. -/
noncomputable def polynomial (l : List (R × ℕ)) : Polynomial R :=
  (l.map fun p => Polynomial.monomial p.2 p.1).sum

theorem eval_polynomial : (polynomial l).eval x = valueAt l x
  := by
  induction l with
  | nil => exact Polynomial.eval_zero
  | cons p l ih =>
      rw [polynomial, List.map_cons, List.sum_cons, Polynomial.eval_add, Polynomial.eval_monomial,
        valueAt_cons, ← ih, polynomial]

theorem coeff_polynomial : (polynomial l).coeff n = coefficientAt n l
  := by
  induction l with
  | nil => exact Polynomial.coeff_zero n
  | cons p l ih =>
      rw [polynomial, List.map_cons, List.sum_cons, Polynomial.coeff_add,
        Polynomial.coeff_monomial, coefficientAt_cons, ← ih, polynomial]

end

/-- Over an infinite domain the values tell the coefficients. -/
theorem valueAt_eq_zero_iff {R : Type*} [CommRing R] [IsDomain R] [Infinite R]
    {l : List (R × ℕ)} :
  (∀ x, valueAt l x = 0) ↔ ∀ n, coefficientAt n l = 0
  := by
  have hzero : polynomial l = 0 ↔ ∀ x, valueAt l x = 0 := by
    constructor
    · intro h x
      rw [← eval_polynomial, h, Polynomial.eval_zero]
    · intro h
      apply Polynomial.funext
      intro x
      rw [eval_polynomial, h, Polynomial.eval_zero]
  rw [← hzero, Polynomial.ext_iff]
  apply forall_congr'
  intro n
  rw [coeff_polynomial, Polynomial.coeff_zero]

end Powers
