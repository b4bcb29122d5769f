import Homeworks.CString.Format
import Homeworks.Converter.Conversions
import Homeworks.Relation.Acyclic

/-!
# Loops that count

A line `for (int v = a; v < b; v++) {` and the head of the loop that it is converted to.
-/

namespace Converter

open CString (decimal)
open Relation (Visits)

/-! ### Lines -/

inductive Comparison where
  | lt
  | le
  | gt
  | ge
  deriving DecidableEq

namespace Comparison

def text : Comparison → Line
  | lt => ['<']
  | le => ['<', '=']
  | gt => ['>']
  | ge => ['>', '=']

def Holds (x y : Int) : Comparison → Prop
  | lt => x < y
  | le => x ≤ y
  | gt => x > y
  | ge => x ≥ y

end Comparison

inductive Step where
  | increment
  | decrement
  deriving DecidableEq

namespace Step

def text : Step → Line
  | increment => ['+', '+']
  | decrement => ['-', '-']

def change : Step → Int
  | increment => 1
  | decrement => -1

end Step

/-- `for (int v = a; v OP b; v++) {`, and with `v--`. -/
def forLine (v : Line) (a b : Int) (comparison : Comparison) (step : Step) : Line :=
  "for (int ".toList ++ v ++ " = ".toList ++ decimal a ++ "; ".toList ++ v ++ " ".toList
    ++ comparison.text ++ " ".toList ++ decimal b ++ "; ".toList ++ v ++ step.text
    ++ ") \x7b".toList

/-! ### Meanings -/

/-- The values of an `int`. -/
def IsInt (n : Int) : Prop := -2 ^ 31 ≤ n ∧ n < 2 ^ 31

instance (n : Int) : Decidable (IsInt n) := inferInstanceAs (Decidable (_ ∧ _))

/-- The values for which the body of the loop in C runs, if the loop ends.  An `int` has no value
after the last one. -/
def Sees (a b : Int) (comparison : Comparison) (step : Step) : List Int → Prop :=
  Visits (fun x => comparison.Holds x b)
    (fun x => if IsInt (x + step.change) then some (x + step.change) else none) a

/-- The head of a loop in Lisp. -/
def loopHeader (v : Line) (a b : Int) (direction : String) : Line :=
  "(loop for ".toList ++ v ++ " from ".toList ++ decimal a ++ " ".toList ++ direction.toList
    ++ " ".toList ++ decimal b ++ " do".toList

/-- The constants of Lisp whose names are identifiers of C. -/
def constants : List Line := [['T'], ['N', 'I', 'L'], ['P', 'I']]

/-- A loop can bind what is read as a symbol, in upper case, that names no constant. -/
def Bindable (v : Line) : Prop := v.map Char.toUpper ∉ constants

instance (v : Line) : Decidable (Bindable v) := inferInstanceAs (Decidable (_ ∉ _))

/-- The values that a loop with a head takes.  A loop over a constant is an error. -/
inductive Takes (v : Line) : Line → List Int → Prop where
  | below {a b : Int} {values : List Int} (hv : Bindable v)
      (h : Visits (fun x => x < b) (fun x => some (x + 1)) a values) :
      Takes v (loopHeader v a b "below") values
  | downto {a b : Int} {values : List Int} (hv : Bindable v)
      (h : Visits (fun x => b ≤ x) (fun x => some (x - 1)) a values) :
      Takes v (loopHeader v a b "downto") values

/-! ### Tokens -/

section

variable {isDelimiter : Char → Bool} {word rest : Line} {c : Char}

theorem splitAt_append (hword : ∀ c ∈ word, isDelimiter c = false) (rest currentWord : Line) :
  splitAt isDelimiter (word ++ rest) currentWord = splitAt isDelimiter rest (currentWord ++ word)
  := by
  induction word generalizing currentWord with
  | nil => rw [List.nil_append, List.append_nil]
  | cons c word ih =>
      have hc := hword c List.mem_cons_self
      rw [List.cons_append, splitAt, hc, if_neg Bool.false_ne_true,
        ih fun d hd => hword d (List.mem_cons_of_mem _ hd), List.append_assoc,
        List.singleton_append]

theorem splitAt_delimiter (hc : isDelimiter c = true) :
  splitAt isDelimiter (c :: rest) [] = splitAt isDelimiter rest []
  := by rw [splitAt, if_pos hc, if_pos rfl]

/-- A word in front of a delimiter is a token. -/
theorem splitAt_word (hne : word ≠ []) (hword : ∀ c ∈ word, isDelimiter c = false)
    (hc : isDelimiter c = true) :
  splitAt isDelimiter (word ++ c :: rest) [] = word :: splitAt isDelimiter rest []
  := by rw [splitAt_append hword, List.nil_append, splitAt, if_pos hc, if_neg hne]

end

/-! ### Converted lines -/

section

variable {v : Line} {a b : Int} {comparison : Comparison} {step : Step}

/-- The delimiters of `splitString`. -/
def isDelimiter (c : Char) : Bool := c ∈ [' ', '\t', ';', '(', ',', ')']

theorem isDelimiter_of_isNameChar {c : Char} (h : isNameChar c = true) :
  isDelimiter c = false
  := by
  have hall : ∀ d ∈ [' ', '\t', ';', '(', ',', ')'], isNameChar d = false :=
    CString.forall_mem_of_all (by decide)
  rw [isDelimiter, decide_eq_false_iff_not]
  intro hc
  rw [hall c hc] at h
  cases h

theorem isNameChar_of_isDigit {c : Char} (hc : c.isDigit = true) :
  isNameChar c = true
  := by rw [isNameChar, Char.isAlphanum, hc, Bool.or_true, Bool.true_or]

theorem isDelimiter_decimal (n : Int) :
  ∀ c ∈ decimal n, isDelimiter c = false
  := by
  intro c hc
  rcases CString.of_mem_decimal hc with rfl | hdigit
  · decide
  · exact isDelimiter_of_isNameChar (isNameChar_of_isDigit hdigit)

/-- The line, cut at the ends of the tokens. -/
theorem forLine_eq :
  forLine v a b comparison step
    = ['f', 'o', 'r'] ++ ' ' :: '(' :: (['i', 'n', 't'] ++ ' ' :: (v ++ ' ' :: (['='] ++ ' ' ::
      (decimal a ++ ';' :: ' '
        :: (v ++ ' ' :: (comparison.text ++ ' ' :: (decimal b ++ ';' :: ' ' ::
        ((v ++ step.text) ++ ')' :: ' ' :: ['{']))))))))
  := by
  have hfor : "for (int ".toList = ['f', 'o', 'r', ' ', '(', 'i', 'n', 't', ' '] := by decide
  have heq : " = ".toList = [' ', '=', ' '] := by decide
  have hsemicolon : "; ".toList = [';', ' '] := by decide
  have hspace : " ".toList = [' '] := by decide
  have hbrace : ") \x7b".toList = [')', ' ', '{'] := by decide
  unfold forLine
  simp only [hfor, heq, hsemicolon, hspace, hbrace, List.append_assoc, List.cons_append,
    List.nil_append]

theorem splitString_forLine (hv : Identifier v) :
  splitString (forLine v a b comparison step)
    = [['f', 'o', 'r'], ['i', 'n', 't'], v, ['='], decimal a, v, comparison.text, decimal b,
        v ++ step.text, ['{']]
  := by
  have hname : ∀ c ∈ v, isDelimiter c = false :=
    fun c hc => isDelimiter_of_isNameChar (hv.chars c hc)
  have hcomparison : comparison.text ≠ [] ∧ ∀ c ∈ comparison.text, isDelimiter c = false := by
    cases comparison <;> exact ⟨by decide, CString.forall_mem_of_all (by decide)⟩
  have hstep : ∀ c ∈ v ++ step.text, isDelimiter c = false := by
    apply List.forall_mem_append.mpr ⟨hname, _⟩
    cases step <;> exact CString.forall_mem_of_all (by decide)
  change splitAt isDelimiter _ [] = _
  rw [forLine_eq, splitAt_word (by decide) (CString.forall_mem_of_all (by decide)) rfl,
    splitAt_delimiter rfl, splitAt_word (by decide) (CString.forall_mem_of_all (by decide)) rfl,
    splitAt_word hv.ne_nil hname rfl,
    splitAt_word (by decide) (CString.forall_mem_of_all (by decide)) rfl,
    splitAt_word (CString.decimal_ne_nil a) (isDelimiter_decimal a) rfl, splitAt_delimiter rfl,
    splitAt_word hv.ne_nil hname rfl, splitAt_word hcomparison.1 hcomparison.2 rfl,
    splitAt_word (CString.decimal_ne_nil b) (isDelimiter_decimal b) rfl, splitAt_delimiter rfl,
    splitAt_word (List.append_ne_nil_of_left_ne_nil hv.ne_nil _) hstep rfl, splitAt_delimiter rfl]
  rfl

/-- The direction of the loop is read off the step. -/
theorem search_forLine (hv : Identifier v) :
  search "++" (forLine v a b comparison step) = true ↔ step = .increment
  := by
  have hplus : "++".toList = ['+', '+'] := by decide
  rw [search, hplus, decide_eq_true_iff]
  constructor
  · intro h
    cases step with
    | increment => rfl
    | decrement =>
        exfalso
        have hmem : '+' ∈ forLine v a b comparison .decrement := h.subset List.mem_cons_self
        have hname : '+' ∉ v := fun hc => absurd (hv.chars _ hc) (by decide)
        have hdecimal : ∀ n, '+' ∉ decimal n := by
          intro n hc
          rcases CString.of_mem_decimal hc with hminus | hplus
          · exact absurd hminus (by decide)
          · exact absurd hplus (by decide)
        have hcomparison : '+' ∉ comparison.text := by cases comparison <;> decide
        rw [forLine_eq] at hmem
        simp [hname, hdecimal, hcomparison, Step.text] at hmem
  · rintro rfl
    rw [forLine_eq]
    refine ⟨['f', 'o', 'r'] ++ ' ' :: '('
      :: (['i', 'n', 't'] ++ ' ' :: (v ++ ' ' :: (['='] ++ ' ' ::
      (decimal a ++ ';' :: ' '
        :: (v ++ ' ' :: (comparison.text ++ ' ' :: (decimal b ++ ';' :: ' ' ::
        v))))))), [')', ' ', '{'], ?_⟩
    simp [Step.text]

/-- The head of the converted loop. -/
theorem forConversion_forLine (hv : Identifier v) :
  forConversion (forLine v a b comparison step)
    = loopHeader v a b (if step = .increment then "below" else "downto")
  := by
  have htrimmed : trimmedLine (forLine v a b comparison step) = forLine v a b comparison step := by
    rw [forLine_eq]
    rfl
  have hspaces : spaces (forLine v a b comparison step) = [] := by
    rw [forLine_eq]
    rfl
  have hdirection :
      (if search "++" (forLine v a b comparison step) = true then "below" else "downto")
      = if step = .increment then "below" else "downto" := by
    simp only [search_forLine hv]
  unfold forConversion loopHeader
  rw [htrimmed, hspaces, splitString_forLine hv, hdirection, List.nil_append]
  simp only [List.getElem?_cons_succ, List.getElem?_cons_zero, princ, Option.getD_some]

/-! ### Values -/

theorem endsNumber_space (t : Line) :
  CString.EndsNumber (' ' :: t)
  := by
  rintro c ⟨⟩
  rfl

/-- The parts of a head are read off it. -/
theorem loopHeader_inj {a' b' : Int} {direction direction' : String}
    (hdirection : ' ' ∉ direction.toList) (hdirection' : ' ' ∉ direction'.toList)
    (h : loopHeader v a b direction = loopHeader v a' b' direction') :
  a = a' ∧ direction.toList = direction'.toList ∧ b = b'
  := by
  have hspace : " ".toList = [' '] := by decide
  have hdo : " do".toList = ' ' :: "do".toList := by decide
  unfold loopHeader at h
  rw [hspace, hdo] at h
  simp only [List.append_assoc, List.append_cancel_left_eq, List.nil_append,
    List.cons_append] at h
  have hnumber := congrArg CString.number h
  rw [CString.number_decimal (endsNumber_space _), CString.number_decimal (endsNumber_space _),
    Option.some.injEq, Prod.mk.injEq, List.cons.injEq] at hnumber
  obtain ⟨ha, -, hrest⟩ := hnumber
  have htake : ∀ {d t : Line}, ' ' ∉ d → (d ++ ' ' :: t).takeWhile (· ≠ ' ') = d := by
    intro d t hd
    rw [List.takeWhile_append_of_pos, List.takeWhile_cons_of_neg (by decide), List.append_nil]
    exact fun c hc => decide_eq_true fun heq => hd (heq ▸ hc)
  have hwords := congrArg (List.takeWhile (· ≠ ' ')) hrest
  rw [htake hdirection, htake hdirection'] at hwords
  rw [hwords, List.append_cancel_left_eq, List.cons.injEq] at hrest
  have hnumber' := congrArg CString.number hrest.2
  rw [CString.number_decimal (endsNumber_space _), CString.number_decimal (endsNumber_space _),
    Option.some.injEq, Prod.mk.injEq] at hnumber'
  exact ⟨ha, hwords, hnumber'.1⟩

variable {values : List Int}

theorem takes_below_iff :
  Takes v (loopHeader v a b "below") values
    ↔ Bindable v ∧ Visits (fun x => x < b) (fun x => some (x + 1)) a values
  := by
  refine ⟨fun h => ?_, fun h => .below h.1 h.2⟩
  generalize hheader : loopHeader v a b "below" = header at h
  cases h with
  | below hv h =>
      obtain ⟨rfl, -, rfl⟩ := loopHeader_inj (by decide) (by decide) hheader
      exact ⟨hv, h⟩
  | downto _ h =>
      have hwords := (loopHeader_inj (by decide) (by decide) hheader).2.1
      exact absurd hwords (by decide)

theorem takes_downto_iff :
  Takes v (loopHeader v a b "downto") values
    ↔ Bindable v ∧ Visits (fun x => b ≤ x) (fun x => some (x - 1)) a values
  := by
  refine ⟨fun h => ?_, fun h => .downto h.1 h.2⟩
  generalize hheader : loopHeader v a b "downto" = header at h
  cases h with
  | below _ h =>
      have hwords := (loopHeader_inj (by decide) (by decide) hheader).2.1
      exact absurd hwords (by decide)
  | downto hv h =>
      obtain ⟨rfl, -, rfl⟩ := loopHeader_inj (by decide) (by decide) hheader
      exact ⟨hv, h⟩

/-- The loops that count in the same way. -/
def Alike (a b : Int) : Comparison → Step → Prop
  | .lt, .increment => True
  | .le, .increment => b < a
  | .gt, .increment => a = b
  | .ge, .increment => False
  | .lt, .decrement => False
  | .le, .decrement => False
  | .gt, .decrement => a < b
  | .ge, .decrement => True

/-- A step of the loop in C is one of the loop in Lisp. -/
theorem eq_of_next {x y : Int}
    (h : (if IsInt (x + step.change) then some (x + step.change) else none) = some y) :
  x + step.change = y
  := by
  split at h
  · exact Option.some.inj h
  · cases h

/-- A loop whose condition is kept by a step does not end. -/
theorem Sees.not_holds (h : Sees a b comparison step values)
    (hstep : ∀ x, comparison.Holds x b → comparison.Holds (x + step.change) b) :
  ¬ comparison.Holds a b
  := by
  intro ha
  refine Visits.not_goes (fun x y hx hxy => ?_) h ha
  rw [← eq_of_next hxy]
  exact hstep x hx

theorem takes_increment_iff (h : Sees a b comparison .increment values) :
  Visits (fun x => x < b) (fun x => some (x + 1)) a values ↔ Alike a b comparison .increment
  := by
  have hnext : ∀ x y : Int, (if IsInt (x + Step.increment.change) then
      some (x + Step.increment.change) else none) = some y → some (x + 1) = some y :=
    fun x y hxy => congrArg some (eq_of_next hxy)
  have hup : ∀ x y : Int, (if IsInt (x + Step.increment.change) then
      some (x + Step.increment.change) else none) = some y → x + 1 = y :=
    fun x y hxy => eq_of_next hxy
  cases comparison with
  | lt => exact iff_of_true (h.mono (fun _ => Iff.rfl) hnext) trivial
  | le =>
      constructor
      · intro hlisp
        by_contra hle
        have hmem : b ∈ values := by
          refine h.mem_of_step (P := fun x => x ≤ b) (fun _ hx => hx) ?_ (Int.not_lt.mp hle)
          intro x y hx hne hxy
          have := hup x y hxy
          omega
        exact Int.lt_irrefl b (hlisp.forall_goes b hmem)
      · intro (hlt : b < a)
        obtain rfl := h.eq_nil (Int.not_le.mpr hlt)
        exact .stop (by omega)
  | gt =>
      have hle : ¬ a > b := h.not_holds fun x (hx : x > b) => (by omega : x + 1 > b)
      obtain rfl := h.eq_nil hle
      rw [Visits.nil_iff, Alike]
      omega
  | ge =>
      have hlt : ¬ a ≥ b := h.not_holds fun x (hx : x ≥ b) => (by omega : x + 1 ≥ b)
      obtain rfl := h.eq_nil hlt
      exact iff_of_false (fun hlisp => absurd (Visits.nil_iff.mp hlisp) (by omega)) id

theorem takes_decrement_iff (h : Sees a b comparison .decrement values) :
  Visits (fun x => b ≤ x) (fun x => some (x - 1)) a values ↔ Alike a b comparison .decrement
  := by
  have hdown : ∀ x y : Int, (if IsInt (x + Step.decrement.change) then
      some (x + Step.decrement.change) else none) = some y → x - 1 = y :=
    fun x y hxy => eq_of_next hxy
  have hnext : ∀ x y : Int, (if IsInt (x + Step.decrement.change) then
      some (x + Step.decrement.change) else none) = some y → some (x - 1) = some y :=
    fun x y hxy => congrArg some (hdown x y hxy)
  cases comparison with
  | lt =>
      have hle : ¬ a < b := h.not_holds fun x (hx : x < b) => (by omega : x - 1 < b)
      obtain rfl := h.eq_nil hle
      exact iff_of_false (fun hlisp => absurd (Visits.nil_iff.mp hlisp) (by omega)) id
  | le =>
      have hlt : ¬ a ≤ b := h.not_holds fun x (hx : x ≤ b) => (by omega : x - 1 ≤ b)
      obtain rfl := h.eq_nil hlt
      exact iff_of_false (fun hlisp => absurd (Visits.nil_iff.mp hlisp) (by omega)) id
  | gt =>
      constructor
      · intro hlisp
        by_contra hle
        have hmem : b ∈ values := by
          refine hlisp.mem_of_step (P := fun x => b ≤ x) (fun _ hx => hx) ?_ (Int.not_lt.mp hle)
          intro x y hx hne hxy
          have := Option.some.inj hxy
          omega
        exact Int.lt_irrefl b (h.forall_goes b hmem)
      · intro (hlt : a < b)
        obtain rfl := h.eq_nil (Int.not_lt.mpr (Int.le_of_lt hlt))
        exact .stop (by omega)
  | ge => exact iff_of_true (h.mono (fun _ => Iff.rfl) hnext) trivial

/-- A loop over `t`, which is the constant `T`. -/
example : ¬ Bindable ['t'] := by decide

end

theorem identifier_i :
  Identifier ['i']
  where
  ne_nil := by decide
  first := by simp
  chars := CString.forall_mem_of_all (by decide)

end Converter
