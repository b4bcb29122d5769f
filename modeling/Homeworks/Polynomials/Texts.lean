import Homeworks.Polynomials.Evaluation

/-!
# Texts of polynomials

A polynomial is written as a sum of terms, of which each has a decimal coefficient, a power of `x`,
or both.
-/

namespace Polynomials

open CString

/-! ### Terms -/

inductive Sign where
  | none
  | plus
  | minus
  deriving DecidableEq, Repr

def Sign.text : Sign → List Char
  | .none => []
  | .plus => ['+']
  | .minus => ['-']

def Sign.apply : Sign → ℚ → ℚ
  | .minus, a => -a
  | _, a => a

/-- Digits, with an optional point before, between or behind them. -/
structure Decimal where
  whole : List Char
  fraction : Option (List Char)
  whole_isDigit : ∀ c ∈ whole, c.isDigit = true
  fraction_isDigit : ∀ c ∈ fraction.getD [], c.isDigit = true
  ne_nil : whole ++ fraction.getD [] ≠ []

def Decimal.text (d : Decimal) : List Char := d.whole ++ d.fraction.elim [] ('.' :: ·)

def Decimal.value (d : Decimal) : ℚ := pointValue 10 d.whole (d.fraction.getD [])

/-- A decimal that is written as a single `0`. -/
def Decimal.IsZeroDigit (d : Decimal) : Prop := d.whole = ['0'] ∧ d.fraction = none

instance (d : Decimal) : Decidable d.IsZeroDigit := inferInstanceAs (Decidable (_ ∧ _))

structure Coefficient where
  sign : Sign
  decimal : Decimal

def Coefficient.text (c : Coefficient) : List Char := c.sign.text ++ c.decimal.text

def Coefficient.value (c : Coefficient) : ℚ := c.sign.apply c.decimal.value

/-- A natural number in digits. -/
structure Numeral where
  digits : List Char
  isDigit : ∀ c ∈ digits, c.isDigit = true
  ne_nil : digits ≠ []
  deriving DecidableEq

def Numeral.value (n : Numeral) : ℕ := Nat.ofDigitChars 10 n.digits 0

/-- What follows a coefficient. -/
inductive Part where
  | constant
  | x
  | power (n : Numeral)
  deriving DecidableEq

def Part.text : Part → List Char
  | .constant => []
  | .x => ['x']
  | .power n => 'x' :: '^' :: n.digits

def Part.exponent : Part → ℕ
  | .constant => 0
  | .x => 1
  | .power n => n.value

structure Term where
  coefficient : Option Coefficient
  part : Part
  ne_nil : coefficient = none → part ≠ .constant

def Term.text (t : Term) : List Char := t.coefficient.elim [] Coefficient.text ++ t.part.text

/-- The coefficient of a term, which is 1 where it is not written. -/
def Term.factor (t : Term) : ℚ := t.coefficient.elim 1 Coefficient.value

def Term.value (t : Term) (v : ℚ) : ℚ := t.factor * v ^ t.part.exponent

/-- The text of a sum of terms, with an optional newline. -/
def text (terms : List Term) (newline : Bool) : List Char :=
  ['+'].intercalate (terms.map Term.text) ++ if newline then ['\n'] else []

/-- The value of a sum of terms. -/
def sum (terms : List Term) (v : ℚ) : ℚ := (terms.map fun t => t.value v).sum

/-! ### Reading coefficients -/

variable {d : Decimal} {s rest : List Char} {t : Term}

theorem scanUnsigned_of_hexMark {part : List Char} (hmark : hexMark s = none)
    (hdigits : scanDigits Char.isDigit s = (d.whole, d.fraction.getD [], part))
    (hpart : EndsDouble part) :
  scanUnsigned s = some (d.value, part)
  := by
  rw [scanUnsigned, hmark]
  dsimp only
  rw [hdigits]
  dsimp only
  rw [if_neg, scanExponent_of_ends hpart, Option.map_some, mul_one, Decimal.value]
  rw [List.isEmpty_iff]
  exact d.ne_nil

theorem scanDigits_decimal (hs : EndsDouble s) :
  scanDigits Char.isDigit (d.text ++ s) = (d.whole, d.fraction.getD [], s)
  := by
  have hfraction := d.fraction_isDigit
  rw [Decimal.text]
  cases h : d.fraction with
  | none =>
      rw [Option.elim_none, List.append_nil]
      exact scanDigits_whole d.whole_isDigit hs
  | some fraction =>
      rw [h] at hfraction
      rw [Option.elim_some, List.append_assoc]
      exact scanDigits_point d.whole_isDigit hfraction hs

/-- The first character of a decimal. -/
theorem exists_text_eq_cons (d : Decimal) :
  ∃ c tail, d.text = c :: tail ∧ (c.isDigit = true ∨ c = '.')
  := by
  have hne := d.ne_nil
  have hwhole := d.whole_isDigit
  rw [Decimal.text]
  cases h : d.whole with
  | cons c whole => exact ⟨c, _, rfl, .inl (hwhole c (h ▸ List.mem_cons_self))⟩
  | nil =>
      cases h' : d.fraction with
      | none => exact absurd (by rw [h, h']; rfl) hne
      | some fraction => exact ⟨'.', fraction, rfl, .inr rfl⟩

theorem hexMark_cons_of_ne {c : Char} (hc : c ≠ '0') : hexMark (c :: s) = none
  := by
  rw [hexMark]
  rintro d s' heq
  exact hc (List.head_eq_of_cons_eq heq)

theorem hexMark_zero_cons {c : Char} (hc : c.toLower ≠ 'x') : hexMark ('0' :: c :: s) = none
  := if_neg hc

theorem toLower_of_isDigit {c : Char} (h : c.isDigit = true) : c.toLower ≠ 'x'
  := by
  have hle : c.val ≤ 57 := by
    rw [Char.isDigit, Bool.and_eq_true, decide_eq_true_iff, decide_eq_true_iff] at h
    exact h.2
  have hlower : c.toLower = c := by
    apply dif_neg
    intro hupper
    exact absurd (UInt32.le_trans hupper.1 hle) (by decide)
  rw [hlower]
  rintro rfl
  cases h

/-- A decimal that is not a single 0 in front of an `x` is not taken for a hexadecimal number. -/
theorem hexMark_decimal (h : d.IsZeroDigit → ∀ c ∈ s.head?, c.toLower ≠ 'x') :
  hexMark (d.text ++ s) = none
  := by
  have hne := d.ne_nil
  have hwhole := d.whole_isDigit
  rw [Decimal.text]
  cases hw : d.whole with
  | nil =>
      cases hf : d.fraction with
      | none => exact absurd (by rw [hw, hf]; rfl) hne
      | some fraction => exact hexMark_cons_of_ne (by decide)
  | cons c whole =>
      rw [hw] at hwhole
      rcases Decidable.em (c = '0') with rfl | hc
      · cases whole with
        | cons c' whole =>
            have hdigit := hwhole c' (List.mem_cons_of_mem _ List.mem_cons_self)
            exact hexMark_zero_cons (toLower_of_isDigit hdigit)
        | nil =>
            cases hf : d.fraction with
            | some fraction => exact hexMark_zero_cons (by decide)
            | none =>
                have hs := h ⟨hw, hf⟩
                cases s with
                | nil => rfl
                | cons c s => exact hexMark_zero_cons (hs c rfl)
      · exact hexMark_cons_of_ne hc

/-- A sign is read in front of a number. -/
theorem scanDouble_sign (sign : Sign) {c : Char} (hc : c.isDigit = true ∨ c = '.' ∨ c = 'x') :
  scanDouble (sign.text ++ c :: s)
    = (scanUnsigned (c :: s)).map fun (value, rest) => (sign.apply value, rest)
  := by
  have hspace : isSpace c = false ∧ CString.sign (c :: s) = (false, c :: s) := by
    rcases hc with hdigit | rfl | rfl
    · have hle : '0'.toNat ≤ c.toNat := by
        rw [Char.isDigit, Bool.and_eq_true, decide_eq_true_iff, decide_eq_true_iff] at hdigit
        exact hdigit.1
      exact ⟨isSpace_eq_false hle, sign_digit hdigit⟩
    · exact ⟨rfl, rfl⟩
    · exact ⟨rfl, rfl⟩
  obtain ⟨hspace, hsign⟩ := hspace
  cases sign with
  | none =>
      rw [Sign.text, List.nil_append, scanDouble,
        List.dropWhile_cons_of_neg (by rw [hspace]; decide),
        hsign]
      rfl
  | plus => rfl
  | minus => rfl

/-- A coefficient is read. -/
theorem scanDouble_decimal (sign : Sign) (hs : EndsDouble s)
    (h : d.IsZeroDigit → ∀ c ∈ s.head?, c.toLower ≠ 'x') :
  scanDouble (sign.text ++ (d.text ++ s)) = some (sign.apply d.value, s)
  := by
  have hscan := scanUnsigned_of_hexMark (hexMark_decimal h) (scanDigits_decimal hs) hs
  obtain ⟨c, tail, htext, hc⟩ := exists_text_eq_cons d
  rw [htext, List.cons_append] at hscan ⊢
  rw [scanDouble_sign sign (by tauto), hscan]
  rfl

/-- A single 0 in front of an `x` is taken for the mark of a hexadecimal number, whose digits are
missing. -/
theorem scanDouble_zero (sign : Sign) (h : d.IsZeroDigit)
    (hs : ∀ c ∈ s.head?, isHexDigit c = false ∧ c ≠ '.') :
  scanDouble (sign.text ++ (d.text ++ 'x' :: s)) = none
  := by
  have htext : d.text = ['0'] := by
    rw [Decimal.text, h.1, h.2]
    rfl
  have hdigits : scanDigits isHexDigit s = ([], [], s) := by
    cases s with
    | nil => rfl
    | cons c s =>
        obtain ⟨hhex, hpoint⟩ := hs c rfl
        rw [scanDigits, List.takeWhile_cons_of_neg (by rw [hhex]; decide),
          List.dropWhile_cons_of_neg (by rw [hhex]; decide)]
        split
        · rename_i heq
          exact absurd (List.head_eq_of_cons_eq heq) hpoint
        · rfl
  rw [htext, List.singleton_append, scanDouble_sign sign (.inl rfl), scanUnsigned]
  have hmark : hexMark ('0' :: 'x' :: s) = some s := rfl
  rw [hmark]
  dsimp only
  rw [hdigits]
  rfl

/-! ### Reading terms -/

/-- What may follow a term. -/
def EndsTerm (rest : List Char) : Prop := ∀ c ∈ rest.head?, c = '+' ∨ c = '\n'

/-- The exponent with which a term is evaluated once its coefficient is read. -/
def Part.countedAs : Part → ℕ
  | .constant => 1
  | .x => 1
  | .power n => n.value

/-- The coefficient that is read from a term.  A single 0 in front of an `x` is not. -/
def Term.read? (t : Term) : Option ℚ :=
  t.coefficient.bind fun c =>
    if c.decimal.IsZeroDigit ∧ t.part ≠ .constant then none else some c.value

/-- The variables after a term has been read. -/
def Term.output (t : Term) (out : Output) : Output :=
  t.read?.elim { out with power := 0 } fun a => ⟨a, t.part.countedAs⟩

theorem endsDouble_of (h : ∀ c ∈ s.head?, c = 'x' ∨ c = '+' ∨ c = '\n') : EndsDouble s
  := by
  constructor
  all_goals
    intro c hc
    rcases h c hc with rfl | rfl | rfl <;> decide

theorem of_mem_head?_part (p : Part) (hrest : EndsTerm rest) :
  ∀ c ∈ (p.text ++ rest).head?, c = 'x' ∨ c = '+' ∨ c = '\n'
  := by
  cases p with
  | constant => exact fun c hc => .inr (hrest c hc)
  | x => exact fun c hc => .inl (Option.some.inj hc).symm
  | power n => exact fun c hc => .inl (Option.some.inj hc).symm

theorem scanDouble_term (t : Term) (hrest : EndsTerm rest) :
  scanDouble (t.text ++ rest) = t.read?.map fun a => (a, t.part.text ++ rest)
  := by
  have hends := of_mem_head?_part t.part hrest
  rw [Term.text, Term.read?]
  cases hc : t.coefficient with
  | none =>
      have hpart := t.ne_nil hc
      cases hp : t.part with
      | constant => exact absurd hp hpart
      | x => rfl
      | power n => rfl
  | some c =>
      rw [Option.elim_some, Option.bind_some, Coefficient.text, List.append_assoc,
        List.append_assoc]
      split_ifs with hzero
      · obtain ⟨hzero, hpart⟩ := hzero
        cases hp : t.part with
        | constant => exact absurd hp hpart
        | x =>
            apply scanDouble_zero c.sign hzero
            intro d hd
            rcases hrest d hd with rfl | rfl <;> decide
        | power n =>
            apply scanDouble_zero c.sign hzero
            intro d hd
            obtain rfl := Option.some.inj hd
            decide
      · rw [scanDouble_decimal c.sign (endsDouble_of hends)]
        · rfl
        · intro hdigit d hd
          have hpart : t.part = .constant := by
            by_contra hpart
            exact hzero ⟨hdigit, hpart⟩
          rw [hpart] at hd
          rcases hrest d hd with rfl | rfl <;> decide

/-- The exponent of a term is an `int`. -/
def Part.Fits (p : Part) : Prop := p.exponent < 2 ^ 31

theorem scanInt_numeral (n : Numeral) (hn : n.value < 2 ^ 31) (hrest : EndsNumber rest) :
  scanInt (n.digits ++ rest) = some ((n.value : ℤ), rest)
  := by
  rw [scanInt, scanLong, number_digits n.ne_nil n.isDigit hrest, Option.map_some, Option.map_some]
  rw [Numeral.value] at hn ⊢
  dsimp only
  rw [Int.min_eq_left (by omega), Int.max_eq_right (by omega), int_eq (by omega) (by omega)]

theorem literal_part (p : Part) (hp : p.Fits) (hrest : EndsTerm rest) :
  (((literal ['x', '^'] (p.text ++ rest)).bind scanInt).elim 1 Prod.fst : ℤ) = p.countedAs
  := by
  cases p with
  | constant =>
      cases rest with
      | nil => rfl
      | cons c rest =>
          have hc : c ≠ 'x' := by
            rcases hrest c rfl with rfl | rfl <;> decide
          rw [Part.text, List.nil_append, literal_cons_ne hc]
          rfl
  | x =>
      have hliteral : literal ['x', '^'] ('x' :: rest) = literal ['^'] rest := by
        simp [literal, List.dropPrefix?]
      rw [Part.text, List.singleton_append, hliteral]
      cases rest with
      | nil => rfl
      | cons c rest =>
          have hc : c ≠ '^' := by
            rcases hrest c rfl with rfl | rfl <;> decide
          rw [literal_cons_ne hc]
          rfl
  | power n =>
      have hnumber : EndsNumber rest := by
        intro c hc
        rcases hrest c hc with rfl | rfl <;> decide
      have htext : (Part.power n).text ++ rest = ['x', '^'] ++ (n.digits ++ rest) := rfl
      rw [htext, literal_append, Option.bind_some, scanInt_numeral n hp hnumber]
      rfl

/-- What `next_term` assigns. -/
theorem nextTerm_term (t : Term) (ht : t.part.Fits) (hrest : EndsTerm rest) (out : Output) :
  nextTerm (t.text ++ rest) out = (skipTerm (t.text ++ rest), t.output out)
  := by
  have hscan := scanDouble_term t hrest
  have hliteral := literal_part t.part ht hrest
  rw [nextTerm, Term.output]
  cases hread : t.read? with
  | none =>
      rw [hread, Option.map_none] at hscan
      simp only [sscanfPower, sscanfLinear, hscan]
      rfl
  | some a =>
      rw [hread, Option.map_some] at hscan
      rw [Option.elim_some, ← hliteral]
      cases hpower : (literal ['x', '^'] (t.part.text ++ rest)).bind scanInt with
      | none =>
          simp only [sscanfPower, sscanfLinear, hscan, hpower]
          rfl
      | some n =>
          simp only [sscanfPower, hscan, hpower]
          rfl

end Polynomials
