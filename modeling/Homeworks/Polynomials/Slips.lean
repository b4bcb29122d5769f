import Homeworks.Polynomials.Texts
import Homeworks.Powers.Sums
import Mathlib.Algebra.CharZero.Infinite

/-!
# Terms that are misread

A constant is evaluated as if an `x` followed, a term without a coefficient as the coefficient that
was read last, and a term with a plus sign twice, with its sign and without it.
-/

namespace Polynomials

open CString Powers

variable {t : Term} {ts : List Term} {rest : List Char} {v g r : ℚ} {out : Output}

/-! ### Plus signs -/

def Term.HasPlus (t : Term) : Prop := t.coefficient.map Coefficient.sign = some .plus

instance (t : Term) : Decidable t.HasPlus := inferInstanceAs (Decidable (_ = _))

/-- How often a term is evaluated. -/
def Term.times (t : Term) : ℕ := if t.HasPlus then 2 else 1

def Term.withoutSign (t : Term) : Term where
  coefficient := t.coefficient.map fun c => { c with sign := .none }
  part := t.part
  ne_nil := fun h => t.ne_nil (Option.map_eq_none_iff.mp h)

theorem coefficient_withoutSign :
  t.withoutSign.coefficient = t.coefficient.map fun c => { c with sign := .none }
  := rfl

theorem part_withoutSign : t.withoutSign.part = t.part
  := rfl

theorem text_of_hasPlus (h : t.HasPlus) : t.text = '+' :: t.withoutSign.text
  := by
  obtain ⟨c, hc, hsign⟩ := Option.map_eq_some_iff.mp h
  rw [Term.text, Term.text, coefficient_withoutSign, part_withoutSign, hc, Option.elim_some,
    Coefficient.text, hsign]
  rfl

theorem output_withoutSign (h : t.HasPlus) (out : Output) : t.withoutSign.output out = t.output out
  := by
  obtain ⟨c, hc, hsign⟩ := Option.map_eq_some_iff.mp h
  have hread : t.withoutSign.read? = t.read? := by
    rw [Term.read?, Term.read?, coefficient_withoutSign, part_withoutSign, hc, Option.map_some,
      Option.bind_some, Option.bind_some, Coefficient.value, Coefficient.value, hsign]
    rfl
  rw [Term.output, hread, part_withoutSign, Term.output]

theorem not_hasPlus_withoutSign : ¬t.withoutSign.HasPlus
  := by
  intro h
  obtain ⟨c, hc, hsign⟩ := Option.map_eq_some_iff.mp h
  obtain ⟨c', -, rfl⟩ := Option.map_eq_some_iff.mp hc
  cases hsign

theorem notMem_decimal (d : Decimal) : ∀ c ∈ d.text, c ≠ '+' ∧ c ≠ '\n'
  := by
  have hdigit : ∀ c : Char, c.isDigit = true → c ≠ '+' ∧ c ≠ '\n' := by
    intro c hc
    constructor
    all_goals
      rintro rfl
      cases hc
  have hfraction := d.fraction_isDigit
  intro c hc
  rw [Decimal.text, List.mem_append] at hc
  rcases hc with hc | hc
  · exact hdigit c (d.whole_isDigit c hc)
  · cases hf : d.fraction with
    | none =>
        rw [hf] at hc
        exact absurd hc List.not_mem_nil
    | some fraction =>
        rw [hf] at hc hfraction
        rcases List.mem_cons.mp hc with rfl | hc
        · decide
        · exact hdigit c (hfraction c hc)

/-- A plus sign in front is the only end of a term inside it. -/
theorem notMem_text (h : ¬t.HasPlus) : ∀ c ∈ t.text, c ≠ '+' ∧ c ≠ '\n'
  := by
  intro c hc
  rw [Term.text, List.mem_append] at hc
  rcases hc with hc | hc
  · cases hcoefficient : t.coefficient with
    | none =>
        rw [hcoefficient] at hc
        exact absurd hc List.not_mem_nil
    | some a =>
        rw [hcoefficient, Option.elim_some, Coefficient.text, List.mem_append] at hc
        rcases hc with hc | hc
        · cases hsign : a.sign with
          | none =>
              rw [hsign] at hc
              exact absurd hc List.not_mem_nil
          | plus =>
              apply absurd _ h
              rw [Term.HasPlus, hcoefficient, Option.map_some, hsign]
          | minus =>
              rw [hsign] at hc
              obtain rfl := List.mem_singleton.mp hc
              decide
        · exact notMem_decimal a.decimal c hc
  · cases hpart : t.part with
    | constant =>
        rw [hpart] at hc
        exact absurd hc List.not_mem_nil
    | x =>
        rw [hpart] at hc
        obtain rfl := List.mem_singleton.mp hc
        decide
    | power n =>
        rw [hpart] at hc
        rcases List.mem_cons.mp hc with rfl | hc
        · decide
        · rcases List.mem_cons.mp hc with rfl | hc
          · decide
          · have hdigit := n.isDigit c hc
            constructor
            all_goals
              rintro rfl
              cases hdigit

theorem skipTerm_append (hnot : ∀ c ∈ rest, c ≠ '+' ∧ c ≠ '\n') {s : List Char} (hs : EndsTerm s) :
  skipTerm (rest ++ s) = s.drop 1
  := by
  rw [skipTerm, dropWhile_append]
  · intro c hc
    rw [Bool.and_eq_true, decide_eq_true_iff, decide_eq_true_iff]
    exact hnot c hc
  · intro c hc
    rcases hs c hc with rfl | rfl <;> decide

/-! ### The sum -/

/-- What is added for a term. -/
def Term.added (t : Term) (v : ℚ) (out : Output) : ℚ :=
  t.times * ((t.output out).coefficient * v ^ (t.output out).power)

theorem text_ne_nil (t : Term) : t.text ≠ []
  := by
  rw [Term.text]
  cases hc : t.coefficient with
  | none =>
      have hpart := t.ne_nil hc
      cases hp : t.part with
      | constant => exact absurd hp hpart
      | x => exact List.cons_ne_nil _ _
      | power n => exact List.cons_ne_nil _ _
  | some c =>
      obtain ⟨d, tail, htext, -⟩ := exists_text_eq_cons c.decimal
      rw [Option.elim_some, Coefficient.text, htext]
      simp

theorem evaluationFrom_term (ht : t.part.Fits) (hrest : EndsTerm rest) :
  evaluationFrom v (t.text ++ rest) out r
    = evaluationFrom v (rest.drop 1) (t.output out) (r + t.added v out)
  := by
  have hstep : ∀ (t : Term) (out : Output) (r : ℚ), t.part.Fits → ¬t.HasPlus →
      evaluationFrom v (t.text ++ rest) out r
        = evaluationFrom v (rest.drop 1) (t.output out)
          (r + (t.output out).coefficient * v ^ (t.output out).power) := by
    intro t out r ht hplus
    rw [evaluationFrom, dif_neg (List.append_ne_nil_of_left_ne_nil (text_ne_nil t) rest)]
    dsimp only
    rw [nextTerm_term t ht hrest, skipTerm_append (notMem_text hplus) hrest]
  by_cases hplus : t.HasPlus
  · rw [evaluationFrom, dif_neg (List.append_ne_nil_of_left_ne_nil (text_ne_nil t) rest)]
    dsimp only
    have hskip : skipTerm (t.text ++ rest) = t.withoutSign.text ++ rest := by
      rw [text_of_hasPlus hplus]
      rfl
    have hsame : t.output (t.output out) = t.output out := by
      rw [Term.output, Term.output]
      cases t.read? <;> rfl
    rw [nextTerm_term t ht hrest, hskip, hstep t.withoutSign _ _ ht not_hasPlus_withoutSign,
      output_withoutSign hplus, hsame, Term.added, Term.times, if_pos hplus]
    congr 1
    push_cast
    ring
  · rw [hstep t out r ht hplus, Term.added, Term.times, if_neg hplus, Nat.cast_one, one_mul]

/-! ### Slips -/

/-- The multiples of powers that are added for a term beyond its value, where a coefficient has been
read before. -/
def Term.slips (previous : ℚ) (t : Term) : List (ℚ × ℕ) :=
  t.read?.elim [(t.times * previous, 0), (-t.factor, t.part.exponent)] fun a =>
    (if t.part = .constant then [(a, 1), (-a, 0)] else [])
      ++ if t.HasPlus then [(a, t.part.countedAs)] else []

/-- Those of a sum of terms. -/
def slips : ℚ → List Term → List (ℚ × ℕ)
  | _, [] => []
  | previous, t :: ts => t.slips previous ++ slips (t.read?.getD previous) ts

theorem factor_of_read? {a : ℚ} (h : t.read? = some a) : t.factor = a
  := by
  obtain ⟨c, hc, hread⟩ := Option.bind_eq_some_iff.mp h
  split_ifs at hread
  rw [Term.factor, hc]
  exact Option.some.inj hread

theorem coefficient_output : (t.output out).coefficient = t.read?.getD out.coefficient
  := by
  rw [Term.output]
  cases t.read? <;> rfl

theorem countedAs_eq {p : Part} (h : p ≠ .constant) : p.countedAs = p.exponent
  := by
  cases p with
  | constant => exact absurd rfl h
  | x => rfl
  | power n => rfl

/-- The slips of a term are what it is evaluated as, less its value. -/
theorem added_eq : t.added v out = t.value v + valueAt (t.slips out.coefficient) v
  := by
  rw [Term.added, Term.value, Term.slips, Term.output]
  cases hread : t.read? with
  | none =>
      simp only [Option.elim_none, valueAt_cons, valueAt_nil, zpow_zero, pow_zero]
      ring
  | some a =>
      rw [factor_of_read? hread, Option.elim_some, Option.elim_some, zpow_natCast, valueAt_append,
        Term.times]
      dsimp only
      by_cases hpart : t.part = .constant
      · rw [hpart, if_pos rfl]
        split_ifs
        all_goals
          simp only [valueAt_cons, valueAt_nil, Part.countedAs, Part.exponent]
          push_cast
          ring
      · rw [countedAs_eq hpart, if_neg hpart]
        split_ifs
        all_goals
          simp only [valueAt_cons, valueAt_nil]
          push_cast
          ring

theorem slips_cons (g : ℚ) (t : Term) (ts : List Term) :
  slips g (t :: ts) = t.slips g ++ slips (t.read?.getD g) ts
  := rfl

theorem sum_cons (t : Term) (ts : List Term) : sum (t :: ts) v = t.value v + sum ts v
  := List.sum_cons

theorem text_singleton (newline : Bool) :
  text [t] newline = t.text ++ if newline then ['\n'] else []
  := by
  simp [text, List.intercalate]

theorem text_cons_cons {t' : Term} (newline : Bool) :
  text (t :: t' :: ts) newline = t.text ++ '+' :: text (t' :: ts) newline
  := by
  simp [text, List.intercalate]

/-- The program computes the value of the sum and of the slips. -/
theorem evaluationFrom_text (t : Term) (ts : List Term) (hts : ∀ t' ∈ t :: ts, t'.part.Fits)
    (newline : Bool) :
  evaluationFrom v (text (t :: ts) newline) out r
    = r + sum (t :: ts) v + valueAt (slips out.coefficient (t :: ts)) v
  := by
  have ht := hts t List.mem_cons_self
  induction ts generalizing t out r with
  | nil =>
      have hend : EndsTerm (if newline then ['\n'] else []) := by
        cases newline with
        | false => exact fun c hc => by cases hc
        | true => exact fun c hc => .inr (Option.some.inj hc).symm
      have hdrop : (if newline then ['\n'] else []).drop 1 = [] := by
        cases newline <;> rfl
      rw [text_singleton, evaluationFrom_term ht hend, hdrop, evaluationFrom, dif_pos rfl, added_eq,
        sum_cons, slips, slips, List.append_nil, sum, List.map_nil, List.sum_nil]
      ring
  | cons t' ts ih =>
      have hend : EndsTerm ('+' :: text (t' :: ts) newline) :=
        fun c hc => .inl (Option.some.inj hc).symm
      have hts' : ∀ t'' ∈ t' :: ts, t''.part.Fits := fun t'' ht'' =>
        hts t'' (List.mem_cons_of_mem _ ht'')
      rw [text_cons_cons, evaluationFrom_term ht hend, List.drop_one, List.tail_cons,
        ih t' hts' (hts' t' List.mem_cons_self), added_eq, sum_cons t, slips_cons _ t,
        valueAt_append, coefficient_output]
      ring

theorem evaluation_text (t : Term) (ts : List Term) (hts : ∀ t' ∈ t :: ts, t'.part.Fits)
    (newline : Bool) :
  evaluation v (text (t :: ts) newline) out
    = sum (t :: ts) v + valueAt (slips out.coefficient (t :: ts)) v
  := by
  rw [evaluation, evaluationFrom_text t ts hts, zero_add]

/-! ### What the variable holds before -/

/-- A term has a coefficient that is read: not a single 0 in front of an `x`. -/
def Term.HasCoefficient (t : Term) : Prop :=
  ∃ c, t.coefficient = some c ∧ (c.decimal.IsZeroDigit → t.part = .constant)

theorem hasCoefficient_iff : t.HasCoefficient ↔ ∃ a, t.read? = some a
  := by
  rw [Term.HasCoefficient, Term.read?]
  cases hc : t.coefficient with
  | none =>
      constructor
      · rintro ⟨c, hnone, -⟩
        cases hnone
      · rintro ⟨a, hnone⟩
        cases hnone
  | some c =>
      rw [Option.bind_some]
      constructor
      · rintro ⟨c', hsome, hzero⟩
        obtain rfl := Option.some.inj hsome
        use c.value
        apply if_neg
        rintro ⟨hdigit, hpart⟩
        exact hpart (hzero hdigit)
      · rintro ⟨a, hread⟩
        split_ifs at hread with hzero
        refine ⟨c, rfl, ?_⟩
        intro hdigit
        by_contra hpart
        exact hzero ⟨hdigit, hpart⟩

theorem slips_of_hasCoefficient (h : t.HasCoefficient) : slips g (t :: ts) = slips 0 (t :: ts)
  := by
  obtain ⟨a, hread⟩ := hasCoefficient_iff.mp h
  rw [slips_cons, slips_cons, Term.slips, Term.slips, hread]
  rfl

theorem valueAt_slips_cons {k : ℕ} (h : ¬t.HasCoefficient)
    (hk : valueAt (slips g ts) v = valueAt (slips 0 ts) v + k * g) :
  valueAt (slips g (t :: ts)) v = valueAt (slips 0 (t :: ts)) v + (t.times + k : ℕ) * g
  := by
  have hread : t.read? = none := by
    apply Option.eq_none_iff_forall_ne_some.mpr
    intro a hsome
    exact h (hasCoefficient_iff.mpr ⟨a, hsome⟩)
  rw [slips_cons, slips_cons, valueAt_append, valueAt_append, Term.slips, Term.slips, hread,
    Option.getD_none, Option.getD_none, hk]
  simp only [Option.elim_none, valueAt_cons, valueAt_nil]
  push_cast
  ring

/-- What the variable holds before is added once for each evaluation up to the first coefficient
that is read. -/
theorem valueAt_slips (ts : List Term) :
  ∃ k : ℕ, ∀ g v, valueAt (slips g ts) v = valueAt (slips 0 ts) v + k * g
  := by
  induction ts with
  | nil =>
      use 0
      intro g v
      rw [slips, slips, Nat.cast_zero, zero_mul, add_zero]
  | cons t ts ih =>
      by_cases h : t.HasCoefficient
      · use 0
        intro g v
        rw [slips_of_hasCoefficient h, Nat.cast_zero, zero_mul, add_zero]
      · obtain ⟨k, hk⟩ := ih
        use t.times + k
        intro g v
        exact valueAt_slips_cons h (hk g v)

theorem evaluation_eq_sum_at (t : Term) (ts : List Term) (hts : ∀ t' ∈ t :: ts, t'.part.Fits)
    (newline : Bool) (v : ℚ) :
  (∀ out, evaluation v (text (t :: ts) newline) out = sum (t :: ts) v)
    ↔ t.HasCoefficient ∧ valueAt (slips 0 (t :: ts)) v = 0
  := by
  simp only [evaluation_text t ts hts, add_eq_left]
  constructor
  · intro h
    have hzero : valueAt (slips 0 (t :: ts)) v = 0 := h ⟨0, 0⟩
    refine ⟨?_, hzero⟩
    by_contra hnot
    obtain ⟨k, hk⟩ := valueAt_slips ts
    have hone := h ⟨1, 0⟩
    rw [valueAt_slips_cons hnot (hk 1 v), hzero, zero_add, mul_one, Nat.cast_eq_zero,
      Term.times] at hone
    split_ifs at hone
    all_goals
      omega
  · rintro ⟨hcoefficient, hzero⟩ out
    rw [slips_of_hasCoefficient hcoefficient, hzero]

/-- The constant `5`. -/
def five : Term where
  coefficient := some ⟨.none, ['5'], none, forall_mem_of_all rfl, forall_mem_of_all rfl,
    List.cons_ne_nil _ _⟩
  part := .constant
  ne_nil := fun h => absurd h (Option.some_ne_none _)

theorem five_fits : five.part.Fits
  := Nat.zero_lt_succ _

/-- The term `-3x^2`. -/
def square : Term where
  coefficient := some ⟨.minus, ['3'], none, forall_mem_of_all rfl, forall_mem_of_all rfl,
    List.cons_ne_nil _ _⟩
  part := .power ⟨['2'], forall_mem_of_all rfl, List.cons_ne_nil _ _⟩
  ne_nil := fun h => absurd h (Option.some_ne_none _)

/-- A polynomial whose exponents are `int`s is evaluated right at a number, whatever the variables
hold before, if and only if its first term has a coefficient that is read and the slips of its terms
cancel there; it is evaluated right everywhere if and only if they cancel for each exponent. -/
theorem evaluation_eq_sum_iff (first : Term) (others : List Term)
    (hexponents : ∀ t ∈ first :: others, t.part.Fits) (newline : Bool) :
  (∀ v, (∀ out, evaluation v (text (first :: others) newline) out = sum (first :: others) v)
      ↔ first.HasCoefficient ∧ valueAt (slips 0 (first :: others)) v = 0)
    ∧ ((∀ v out, evaluation v (text (first :: others) newline) out = sum (first :: others) v)
      ↔ first.HasCoefficient ∧ ∀ n, coefficientAt n (slips 0 (first :: others)) = 0)
  := by
  constructor
  · exact evaluation_eq_sum_at first others hexponents newline
  · simp only [evaluation_eq_sum_at first others hexponents, forall_and, forall_const]
    rw [valueAt_eq_zero_iff]

/-- The polynomial `-3x^2+5` is evaluated right at 1, where `5x` is 5, and not everywhere. -/
theorem evaluation_eq_sum_square :
  (∀ out, evaluation 1 (text [square, five] true) out = sum [square, five] 1)
    ∧ ¬ ∀ v out, evaluation v (text [square, five] true) out = sum [square, five] v
  := by
  have hfits : ∀ t ∈ [square, five], t.part.Fits := by
    simp only [List.forall_mem_cons]
    exact ⟨(by decide : 2 < 2 ^ 31), five_fits, List.forall_mem_nil _⟩
  obtain ⟨hat, hall⟩ := evaluation_eq_sum_iff square [five] hfits true
  have hcoefficient : square.HasCoefficient := ⟨_, rfl, fun hzero => absurd hzero.1 (by decide)⟩
  constructor
  · exact (hat 1).mpr ⟨hcoefficient, by decide +kernel⟩
  · intro h
    exact absurd ((hall.mp h).2 0) (by decide +kernel)

/-! ### Terms without slips -/

/-- Terms with a coefficient that is read, without a plus sign, and with an `x`, have no slips. -/
theorem slips_eq_nil (h : ∀ t ∈ ts, t.HasCoefficient ∧ ¬t.HasPlus ∧ t.part ≠ .constant) :
  slips g ts = []
  := by
  induction ts generalizing g with
  | nil => rfl
  | cons t ts ih =>
      obtain ⟨hcoefficient, hplus, hpart⟩ := h t List.mem_cons_self
      obtain ⟨a, hread⟩ := hasCoefficient_iff.mp hcoefficient
      rw [slips_cons, ih fun t ht => h t (List.mem_cons_of_mem _ ht), Term.slips, hread,
        Option.elim_some, if_neg hpart, if_neg hplus]
      rfl

theorem evaluation_of_regular {t : Term} {ts : List Term}
    (hts : ∀ t' ∈ t :: ts, t'.part.Fits)
    (h : ∀ t' ∈ t :: ts, t'.HasCoefficient ∧ ¬t'.HasPlus ∧ t'.part ≠ .constant) (newline : Bool) :
  evaluation v (text (t :: ts) newline) out = sum (t :: ts) v
  := by
  rw [evaluation_text t ts hts, slips_eq_nil h, valueAt_nil, add_zero]

/-- It is evaluated as `5x`. -/
theorem constant_five :
  ¬ ∀ (first : Term) (others : List Term) (newline : Bool) (v : ℚ) (out : Output),
    evaluation v (text (first :: others) newline) out = sum (first :: others) v
  := by
  intro h
  have heq := h five [] false 2 ⟨0, 0⟩
  rw [evaluation_text five [] (List.forall_mem_singleton.mpr five_fits), add_eq_left] at heq
  exact absurd heq (by decide +kernel)

end Polynomials
