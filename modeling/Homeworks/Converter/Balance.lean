import Homeworks.Converter.Conversions
import Homeworks.Parsing.Level

/-!
# Parens of the converted text

A line opens a paren when it is taken for the head of a loop or a function or for an `if` whose
condition has an operator, a closing brace closes one, and a line that is not understood keeps its
own parens.  The converted text is balanced exactly when these parens are and no conversion fails.
-/

open Parsing

namespace Converter

/-- An opening paren raises the level, a closing one lowers it. -/
def weight (c : Char) : ℤ := if c = '(' then 1 else if c = ')' then -1 else 0

/-- There are as many closing as opening parens, and no prefix has more closing ones. -/
def Balanced (text : Line) : Prop :=
  text.count ')' = text.count '(' ∧ ∀ front, front <+: text → front.count ')' ≤ front.count '('

theorem level_eq (text : Line) :
  level weight text = (text.count '(' : ℤ) - text.count ')'
  := by
  induction text with
  | nil => rfl
  | cons c text ih =>
      rw [level_cons, ih, List.count_cons, List.count_cons, weight]
      split_ifs <;> simp_all <;> omega

theorem balanced_iff {text : Line} :
  Balanced text ↔ level weight text = 0 ∧ StaysUp weight 0 text
  := by
  rw [Balanced, staysUp_iff, level_eq]
  refine and_congr (by omega) (forall_congr' fun front => imp_congr_right fun _ => ?_)
  rw [level_eq]
  omega

/-! ### Texts without parens -/

def Silent (text : Line) : Prop := ∀ c ∈ text, weight c = 0

instance (text : Line) : Decidable (Silent text) :=
  List.decidableBAll (fun c => weight c = 0) text

theorem Silent.level {text : Line} (h : Silent text) :
  level weight text = 0
  := level_of_silent h

theorem Silent.staysUp {text : Line} (h : Silent text) (d : ℤ) :
  StaysUp weight d text ↔ 0 ≤ d
  := staysUp_of_silent h

theorem Silent.append {s t : Line} (hs : Silent s) (ht : Silent t) :
  Silent (s ++ t)
  := List.forall_mem_append.mpr ⟨hs, ht⟩

theorem Silent.subset {s t : Line} (h : Silent t) (hst : s ⊆ t) :
  Silent s
  := fun c hc => h c (hst hc)

theorem eq_space {line : Line} {c : Char} (h : c ∈ spaces line) :
  c = ' '
  := by
  have hspace := List.mem_takeWhile_imp h
  exact of_decide_eq_true hspace

theorem silent_spaces (line : Line) :
  Silent (spaces line)
  := by
  intro c hc
  rw [eq_space hc]
  rfl

theorem silent_flatten {items : List Line} (h : ∀ item ∈ items, Silent item) :
  Silent items.flatten
  := by
  intro c hc
  obtain ⟨item, hitem, hmem⟩ := List.mem_flatten.mp hc
  exact h item hitem c hmem

theorem silent_joined {items : List Line} (h : ∀ item ∈ items, Silent item) :
  Silent (joined items)
  := by
  induction items with
  | nil => decide
  | cons item items ih =>
      obtain ⟨hitem, hitems⟩ := List.forall_mem_cons.mp h
      rcases eq_or_ne items [] with rfl | hne
      · rwa [joined, List.intercalate_singleton]
      · rw [joined, List.intercalate_cons_of_ne_nil hne]
        exact (hitem.append (by decide)).append (ih hitems)

theorem silent_princ {value : Option Line} (h : ∀ text ∈ value, Silent text) :
  Silent (princ value)
  := by
  cases value with
  | none => decide
  | some text => exact h text rfl

theorem silent_substitute {line : Line} (h : Silent line) (new old : Char) (hnew : weight new = 0) :
  Silent (substitute new old line)
  := by
  intro c hc
  obtain ⟨b, hb, rfl⟩ := List.mem_map.mp hc
  split
  · exact hnew
  · exact h b hb

/-- What is cut at both parens has none. -/
theorem silent_splitAt {isDelimiter : Char → Bool}
    (h : ∀ c, isDelimiter c = false → weight c = 0) (chars : Line) {currentWord : Line}
    (hword : Silent currentWord) :
  ∀ token ∈ splitAt isDelimiter chars currentWord, Silent token
  := by
  fun_induction splitAt isDelimiter chars currentWord with
  | case1 => simp
  | case2 word hne => simpa using hword
  | case3 c chars hc ih => exact ih (by decide)
  | case4 c chars word hc hne ih =>
      rintro token (_ | ⟨_, htoken⟩)
      · exact hword
      · exact ih (by decide) token htoken
  | case5 c chars word hc ih =>
      refine ih (hword.append ?_)
      rintro b (_ | ⟨_, ⟨⟩⟩)
      exact h c (by simpa using hc)

theorem silent_splitString {line token : Line} (h : token ∈ splitString line) :
  Silent token
  := by
  refine silent_splitAt (fun c hc => ?_) line (by decide) token h
  rw [weight, if_neg (by rintro rfl; revert hc; decide), if_neg (by rintro rfl; revert hc; decide)]

theorem silent_splitFunctionCall {line token : Line} (h : token ∈ splitFunctionCall line) :
  Silent token
  := by
  refine silent_splitAt (fun c hc => ?_) line (by decide) token h
  rw [weight, if_neg (by rintro rfl; revert hc; decide), if_neg (by rintro rfl; revert hc; decide)]

@[simp]
theorem level_spaces (line : Line) :
  level weight (spaces line) = 0
  := (silent_spaces line).level

@[simp]
theorem staysUp_spaces (line : Line) (d : ℤ) :
  StaysUp weight d (spaces line) ↔ 0 ≤ d
  := (silent_spaces line).staysUp d

theorem silent_getElem {tokens : List Line} (h : ∀ token ∈ tokens, Silent token) (i : ℕ) :
  Silent (princ tokens[i]?)
  := silent_princ fun token htoken => h token (List.mem_of_getElem? htoken)

@[simp]
theorem level_token (line : Line) (i : ℕ) :
  level weight (princ (splitString line)[i]?) = 0
  := (silent_getElem (fun _ => silent_splitString) i).level

@[simp]
theorem staysUp_token (line : Line) (i : ℕ) (d : ℤ) :
  StaysUp weight d (princ (splitString line)[i]?) ↔ 0 ≤ d
  := (silent_getElem (fun _ => silent_splitString) i).staysUp d

/-- The text closes the parens that it opens. -/
def Closed (text : Line) : Prop :=
  level weight text = 0 ∧ ∀ d, StaysUp weight d text ↔ 0 ≤ d

/-- The text opens one paren that it does not close. -/
def Opening (text : Line) : Prop :=
  level weight text = 1 ∧ ∀ d, StaysUp weight d text ↔ 0 ≤ d

theorem Silent.closed {text : Line} (h : Silent text) :
  Closed text
  := ⟨h.level, h.staysUp⟩

theorem Closed.append {s t : Line} (hs : Closed s) (ht : Closed t) :
  Closed (s ++ t)
  := by
  refine ⟨by rw [level_append, hs.1, ht.1]; rfl, fun d => ?_⟩
  rw [staysUp_append, hs.1, add_zero, hs.2, ht.2, and_self]

theorem closed_application {operator left right : Line} (hoperator : Silent operator)
    (hleft : Silent left) (hright : Silent right) :
  Closed (application operator left right)
  := by
  constructor
  · simp [application, weight, hoperator.level, hleft.level, hright.level]
  · intro d
    simp [application, weight, hoperator.level, hleft.level, hright.level, hoperator.staysUp,
      hleft.staysUp, hright.staysUp]
    omega

theorem closed_variableAssignmentConversion (line : Line) :
  Closed (variableAssignmentConversion line)
  := by
  constructor
  · simp [variableAssignmentConversion, weight]
  · intro d
    simp [variableAssignmentConversion, weight]
    omega

theorem opening_forConversion (line : Line) :
  Opening (forConversion line)
  := by
  have hdirection : Silent (if search "++" (trimmedLine line) then "below"
    else "downto").toList := by
    split <;> decide
  constructor
  · simp [forConversion, weight, hdirection.level]
  · intro d
    simp [forConversion, weight, hdirection.level, hdirection.staysUp]
    omega

theorem silent_dataTypes (dataType : Option Line) :
  Silent (dataTypes dataType)
  := by
  rw [dataTypes]
  split_ifs <;> decide

theorem silent_logicalOperators {operator : Line} (h : Silent operator) :
  Silent (logicalOperators operator)
  := by
  rw [logicalOperators]
  split_ifs
  · decide
  · decide
  · decide
  · decide
  · exact h

theorem silent_arithmeticOperators {operator : Line} (h : Silent operator) :
  Silent (arithmeticOperators operator)
  := by
  rw [arithmeticOperators]
  split_ifs
  · decide
  · decide
  · decide
  · exact h

theorem mem_of_firstThree {tokens : List Line} {operator left right : Line}
    (h : firstThree tokens = some (operator, left, right)) :
  operator ∈ tokens ∧ left ∈ tokens ∧ right ∈ tokens
  := by
  fun_cases firstThree tokens with
  | case1 => simp_all [firstThree]
  | case2 => simp_all [firstThree]

theorem silent_splitLogicalArithmetic {line operator left right : Line}
    (h : splitLogicalArithmetic line = some (operator, left, right)) :
  Silent operator ∧ Silent left ∧ Silent right
  := by
  have htokens : ∀ token ∈ (splitString (cleanLine line)).filter (· ≠ ";".toList), Silent token :=
    fun token htoken => silent_splitString (List.mem_filter.mp htoken).1
  rw [splitLogicalArithmetic] at h
  split at h
  · obtain ⟨ho, hl, hr⟩ := mem_of_firstThree h
    exact ⟨htokens _ (List.mem_of_mem_tail ho), htokens _ (List.mem_of_mem_tail hl),
      htokens _ (List.mem_of_mem_tail hr)⟩
  · obtain ⟨ho, hl, hr⟩ := mem_of_firstThree h
    exact ⟨htokens _ ho, htokens _ hl, htokens _ hr⟩

theorem closed_logicalOperationConversion {line output : Line}
    (h : logicalOperationConversion line = some output) :
  Closed output
  := by
  obtain ⟨⟨operator, left, right⟩, hsplit, rfl⟩ := Option.map_eq_some_iff.mp h
  obtain ⟨ho, hl, hr⟩ := silent_splitLogicalArithmetic hsplit
  exact (silent_spaces line).closed.append
    (closed_application (silent_logicalOperators ho) hl hr)

theorem closed_arithmeticOperationConversion (line : Line) :
  Closed (arithmeticOperationConversion line)
  := by
  rw [arithmeticOperationConversion]
  refine (silent_spaces line).closed.append ?_
  cases hsplit : splitLogicalArithmetic line with
  | none => exact Silent.closed (by decide)
  | some found =>
      obtain ⟨operator, left, right⟩ := found
      obtain ⟨ho, hl, hr⟩ := silent_splitLogicalArithmetic hsplit
      exact closed_application (silent_arithmeticOperators ho) hl hr

theorem mem_of_mem_evens {items : List Line} {item : Line} (h : item ∈ evens items) :
  item ∈ items
  := by
  fun_induction evens items <;> simp_all
  grind

theorem closed_functionPrototypeDefinitionConversion (line : Line) :
  Closed (functionPrototypeDefinitionConversion line)
  := by
  have hargs : Silent (joined ((evens ((splitString (trimmedLine line)).drop 2)).map
      fun dataType => dataTypes (some dataType))) := by
    apply silent_joined
    intro item hitem
    obtain ⟨dataType, -, rfl⟩ := List.mem_map.mp hitem
    exact silent_dataTypes _
  have hreturn := silent_dataTypes (splitString (trimmedLine line))[0]?
  constructor
  · simp [functionPrototypeDefinitionConversion, weight, hargs.level, hreturn.level]
  · intro d
    simp [functionPrototypeDefinitionConversion, weight, hargs.level, hreturn.level, hargs.staysUp,
      hreturn.staysUp]
    omega

theorem opening_functionDefinitionConversion (line : Line) :
  Opening (functionDefinitionConversion line)
  := by
  have hargs : Silent (joined (odds ((splitString (trimmedLine line)).drop 2))) := by
    apply silent_joined
    intro item hitem
    exact silent_splitString (List.mem_of_mem_drop (List.mem_of_mem_tail (mem_of_mem_evens hitem)))
  constructor
  · simp [functionDefinitionConversion, weight, hargs.level]
  · intro d
    simp [functionDefinitionConversion, weight, hargs.level, hargs.staysUp]
    omega

theorem silent_processedFormat {formatString : Line} (h : Silent formatString) :
  Silent (processedFormat formatString)
  := by
  rw [processedFormat]
  split
  · exact (h.subset (List.rdropWhile_prefix _ _).subset).append (by decide)
  · exact h

theorem closed_format {format rest : Line} (hformat : Silent format) (hrest : Silent rest) :
  Closed ("(format t \"".toList ++ format ++ "\"".toList ++ rest ++ ")".toList)
  := by
  constructor
  · simp [weight, hformat.level, hrest.level]
  · intro d
    simp [weight, hformat.level, hrest.level, hformat.staysUp, hrest.staysUp]
    omega

theorem closed_printfConversion {args : List Line} (h : ∀ arg ∈ args, Silent arg) :
  Closed (printfConversion args)
  := by
  have hformat : Silent (processedFormat (substitute '~' '%' (args.headD []))) := by
    apply silent_processedFormat
    apply silent_substitute _ _ _ (by decide)
    cases args with
    | nil => decide
    | cons arg args => exact h arg List.mem_cons_self
  have hargs : Silent (args.tail.flatMap fun arg => " ".toList ++ arg) := by
    rw [List.flatMap]
    apply silent_flatten
    intro item hitem
    obtain ⟨arg, harg, rfl⟩ := List.mem_map.mp hitem
    exact Silent.append (by decide) (h arg (List.mem_of_mem_tail harg))
  exact closed_format hformat hargs

theorem closed_functionCallConversion (line : Line) :
  Closed (functionCallConversion line)
  := by
  have htokens : ∀ token ∈ splitFunctionCall (trimmedLine line), Silent token :=
    fun _ => silent_splitFunctionCall
  dsimp only [functionCallConversion]
  refine (silent_spaces line).closed.append ?_
  split
  · exact closed_printfConversion fun arg harg => htokens arg (List.mem_of_mem_tail harg)
  · have hname := silent_getElem htokens 0
    have hargs : Silent (splitFunctionCall (trimmedLine line)).tail.flatten :=
      silent_flatten fun arg harg => htokens arg (List.mem_of_mem_tail harg)
    constructor
    · simp [weight, hname.level, hargs.level]
    · intro d
      simp [weight, hname.level, hargs.level, hname.staysUp, hargs.staysUp]
      omega

theorem closed_variableDefinitionByArithmeticOperationConversion (line : Line) :
  Closed (variableDefinitionByArithmeticOperationConversion line)
  := by
  have htokens : ∀ token ∈ splitString (trimmedLine line), Silent token :=
    fun _ => silent_splitString
  have htoken := silent_getElem htokens
  have happlication := closed_application (htoken 4) (htoken 3) (htoken 5)
  constructor
  · simp [variableDefinitionByArithmeticOperationConversion, weight, happlication.1]
  · intro d
    simp [variableDefinitionByArithmeticOperationConversion, weight, happlication.1,
      happlication.2]
    omega

theorem closed_variableAssignmentByArithmeticOperationConversion (line : Line) :
  Closed (variableAssignmentByArithmeticOperationConversion line)
  := by
  have htokens : ∀ token ∈ splitString (trimmedLine line), Silent token :=
    fun _ => silent_splitString
  have htoken := silent_getElem htokens
  have hoperator :
      Silent (princ ((splitString (trimmedLine line))[3]?.map arithmeticOperators)) := by
    apply silent_princ
    intro text htext
    obtain ⟨operator, hoperator, rfl⟩ := Option.map_eq_some_iff.mp htext
    exact silent_arithmeticOperators (silent_splitString (List.mem_of_getElem? hoperator))
  have happlication := closed_application hoperator (htoken 2) (htoken 4)
  constructor
  · simp [variableAssignmentByArithmeticOperationConversion, weight, happlication.1]
  · intro d
    simp [variableAssignmentByArithmeticOperationConversion, weight, happlication.1,
      happlication.2]
    omega

theorem closed_variableDefinitionConversion {line output : Line}
    (h : variableDefinitionConversion line = some output) :
  Closed output
  := by
  obtain ⟨initialValue, hinitial, rfl⟩ := Option.map_eq_some_iff.mp h
  have htokens : ∀ token ∈ splitString (trimmedLine line), Silent token :=
    fun _ => silent_splitString
  have hfinal : Silent (princ
      (if initialValue.getLast? = some '=' ∧ 4 ≤ (splitString (trimmedLine line)).length then
        (splitString (trimmedLine line))[3]?
      else some initialValue)) := by
    split
    · exact silent_getElem htokens 3
    · exact htokens _ (List.mem_of_getElem? hinitial)
  constructor
  · simp [weight, hfinal.level]
  · intro d
    simp [weight, hfinal.level, hfinal.staysUp]
    omega

theorem closed_variableAssignmentByFunctionReturnConversion {line output : Line}
    (h : variableAssignmentByFunctionReturnConversion line = some output) :
  Closed output
  := by
  have hargs : Silent (joined ((splitString (trimmedLine line)).drop 4)) :=
    silent_joined fun _ harg => silent_splitString (List.mem_of_mem_drop harg)
  rw [variableAssignmentByFunctionReturnConversion] at h
  split at h
  · cases h
    refine (silent_spaces line).closed.append ?_
    split
    · constructor
      · simp [weight, hargs.level]
      · intro d
        simp [weight, hargs.level, hargs.staysUp]
        omega
    · exact Silent.closed (by decide)
  · cases h

theorem closed_returnStatementConversion {line output : Line}
    (h : returnStatementConversion line = some output) :
  Closed output
  := by
  rw [returnStatementConversion] at h
  split at h
  · obtain ⟨number, hnumber, rfl⟩ := Option.map_eq_some_iff.mp h
    have hmem := List.mem_of_getElem? hnumber
    exact ((silent_spaces line).append
      (silent_splitString (List.mem_filter.mp hmem).1)).closed
  · cases h

theorem closed_princ {value : Option Line} (h : ∀ text, value = some text → Closed text) :
  Closed (princ value)
  := by
  cases value with
  | none => exact Silent.closed (by decide)
  | some text => exact h text rfl

/-! ### The parens of a line -/

/-- The condition of an `if` or `while` has an operator between two operands. -/
def hasOperator (line : Line) : Bool :=
  ((condition (trimmedLine line)).bind splitLogicalArithmetic).isSome

/-- The line opens a paren that a later line has to close. -/
def opens (line : Line) : Bool :=
  match lineType line with
  | .forLoop | .functionDefinition => true
  | .ifStatement | .whileLoop => hasOperator line
  | _ => false

/-- The parens that the line has itself and keeps, a closing brace among them. -/
def kept (line : Line) : Line :=
  match lineType line with
  | .ifStatement | .whileLoop => if hasOperator line then [] else line
  | .curlyBrace => substitute ')' '\x7d' line
  | .postIncrementDecrement | .postIncrementDecrementReturn =>
      "(".toList ++ princ ((splitPostIncrementDecrement (trimmedLine line)).map Prod.fst)
        ++ ")".toList
  | _ => []

/-- The conversion fails: a closing paren in front of the opening one, or tokens are missing. -/
def Fails (line : Line) : Prop :=
  match lineType line with
  | .ifStatement | .whileLoop => condition (trimmedLine line) = none
  | .variableDefinition => (splitString (trimmedLine line)).length < 3
  | .variableAssignmentByFunctionReturn => (splitString (trimmedLine line)).length < 4
  | _ => False

/-- The output has the parens of a text, and those that the line opens. -/
def Represents (output text : Line) (opened : Bool) : Prop :=
  level weight output = level weight text + (if opened then 1 else 0)
    ∧ ∀ d, StaysUp weight d output ↔ StaysUp weight d text

theorem Closed.represents {output : Line} (h : Closed output) :
  Represents output [] false
  := h

theorem Opening.represents {output : Line} (h : Opening output) :
  Represents output [] true
  := h

theorem spaces_append_trimmedLine (line : Line) :
  spaces line ++ trimmedLine line = line
  := List.takeWhile_append_dropWhile

theorem curlyBraceConversion_eq (line : Line) :
  curlyBraceConversion line = substitute ')' '\x7d' line
  := by
  have hspaces : substitute ')' '\x7d' (spaces line) = spaces line := by
    rw [substitute, List.map_congr_left, List.map_id]
    intro c hc
    rw [eq_space hc]
    rfl
  rw [curlyBraceConversion, ← hspaces, substitute, substitute, ← List.map_append,
    spaces_append_trimmedLine]
  rfl

theorem operator_of_findOperator {front line left operator : Line}
    (h : findOperator front line = some (left, operator)) :
  operator = "++".toList ∨ operator = "--".toList
  := by
  fun_induction findOperator front line with
  | case1 front c d rest hoperator =>
      cases h
      exact hoperator
  | case2 front c d rest _ ih => exact ih h
  | case3 => cases h

theorem represents_postIncrementDecrementConversion (line : Line) :
  Represents (postIncrementDecrementConversion line)
    ("(".toList ++ princ ((splitPostIncrementDecrement (trimmedLine line)).map Prod.fst)
      ++ ")".toList) false
  := by
  have hoperator : Silent (princ ((splitPostIncrementDecrement (trimmedLine line)).map
      fun found => arithmeticOperators found.2)) := by
    apply silent_princ
    intro text htext
    obtain ⟨⟨left, operator⟩, hfound, rfl⟩ := Option.map_eq_some_iff.mp htext
    apply silent_arithmeticOperators
    have hincrement : Silent "++".toList := by decide
    have hdecrement : Silent "--".toList := by decide
    rcases operator_of_findOperator hfound with rfl | rfl
    · exact hincrement
    · exact hdecrement
  rw [postIncrementDecrementConversion]
  generalize princ ((splitPostIncrementDecrement (trimmedLine line)).map Prod.fst) = left
  constructor
  · simp [application, weight, hoperator.level]
  · intro d
    simp [application, weight, hoperator.level, hoperator.staysUp]
    omega

theorem hasOperator_eq {line text : Line} (h : condition (trimmedLine line) = some text) :
  hasOperator line = (logicalOperationConversion text).isSome
  := by
  rw [hasOperator, h, logicalOperationConversion, Option.isSome_map]
  rfl

theorem represents_line (line : Line) :
  Represents (trimmedLine line) line false
  := by
  have hlevel : level weight (spaces line ++ trimmedLine line) = _ := level_append
  rw [spaces_append_trimmedLine, level_spaces, zero_add] at hlevel
  refine ⟨by rw [hlevel]; exact (add_zero _).symm, fun d => ?_⟩
  have hstays : StaysUp weight d (spaces line ++ trimmedLine line) ↔ _ := staysUp_append
  rw [spaces_append_trimmedLine, level_spaces, add_zero, staysUp_spaces] at hstays
  rw [hstays]
  exact ⟨fun h => ⟨h.nonneg, h⟩, And.right⟩

theorem represents_ifConversion {line output : Line} (h : ifConversion line = some output) :
  Represents output (if hasOperator line then [] else line) (hasOperator line)
  := by
  obtain ⟨text, htext, rfl⟩ := Option.map_eq_some_iff.mp h
  rw [hasOperator_eq htext]
  cases hconverted : logicalOperationConversion text with
  | none =>
      dsimp only
      rw [spaces_append_trimmedLine]
      exact ⟨(add_zero _).symm, fun _ => Iff.rfl⟩
  | some converted =>
      have hclosed := closed_logicalOperationConversion hconverted
      apply Opening.represents
      constructor
      · simp [weight, hclosed.1]
      · intro d
        simp [weight, hclosed.2]
        omega

theorem represents_whileConversion {line output : Line} (h : whileConversion line = some output) :
  Represents output (if hasOperator line then [] else line) (hasOperator line)
  := by
  obtain ⟨text, htext, rfl⟩ := Option.map_eq_some_iff.mp h
  rw [hasOperator_eq htext]
  cases hconverted : logicalOperationConversion text with
  | none => exact represents_line line
  | some converted =>
      have hclosed := closed_logicalOperationConversion hconverted
      apply Opening.represents
      constructor
      · simp [weight, hclosed.1]
      · intro d
        simp [weight, hclosed.1, hclosed.2]
        omega

theorem ifConversion_eq_none (line : Line) :
  ifConversion line = none ↔ condition (trimmedLine line) = none
  := Option.map_eq_none_iff

theorem whileConversion_eq_none (line : Line) :
  whileConversion line = none ↔ condition (trimmedLine line) = none
  := Option.map_eq_none_iff

theorem variableDefinitionConversion_eq_none (line : Line) :
  variableDefinitionConversion line = none ↔ (splitString (trimmedLine line)).length < 3
  := by
  rw [variableDefinitionConversion, Option.map_eq_none_iff, List.getElem?_eq_none_iff,
    Nat.lt_succ_iff]

theorem variableAssignmentByFunctionReturnConversion_eq_none (line : Line) :
  variableAssignmentByFunctionReturnConversion line = none
    ↔ (splitString (trimmedLine line)).length < 4
  := by
  rw [variableAssignmentByFunctionReturnConversion, ← not_le]
  split
  next h => exact iff_of_false nofun fun hnot => hnot h
  next h => exact iff_of_true rfl h

/-- A conversion that fails or has the parens of a text. -/
theorem spec_of_conversion {conversion : Option Line} {fails : Prop} {text : Line} {opened : Bool}
    (hnone : conversion = none ↔ fails)
    (hsome : ∀ output, conversion = some output → Represents output text opened) :
  (fails ∧ conversion = none)
    ∨ ¬ fails ∧ ∃ output, conversion = some output ∧ Represents output text opened
  := by
  cases conversion with
  | none => exact .inl ⟨hnone.mp rfl, rfl⟩
  | some output => exact .inr ⟨fun h => (nomatch hnone.mpr h), output, rfl, hsome output rfl⟩

/-- A line is converted to its parens, unless its conversion fails. -/
theorem convert_spec (line : Line) :
  (Fails line ∧ convert line = none)
    ∨ ¬ Fails line
      ∧ ∃ output, convert line = some output ∧ Represents output (kept line) (opens line)
  := by
  rw [Fails, convert, kept, opens]
  cases lineType line with
  | ifStatement =>
      exact spec_of_conversion (ifConversion_eq_none line) fun _ => represents_ifConversion
  | whileLoop =>
      exact spec_of_conversion (whileConversion_eq_none line) fun _ => represents_whileConversion
  | variableDefinition =>
      exact spec_of_conversion (variableDefinitionConversion_eq_none line) fun _ h =>
        (closed_variableDefinitionConversion h).represents
  | variableAssignmentByFunctionReturn =>
      exact spec_of_conversion (variableAssignmentByFunctionReturnConversion_eq_none line)
        fun _ h => (closed_variableAssignmentByFunctionReturnConversion h).represents
  | forLoop => exact .inr ⟨id, _, rfl, (opening_forConversion line).represents⟩
  | functionDefinition =>
      exact .inr ⟨id, _, rfl, (opening_functionDefinitionConversion line).represents⟩
  | curlyBrace =>
      rw [curlyBraceConversion_eq]
      exact .inr ⟨id, _, rfl, (add_zero _).symm, fun _ => Iff.rfl⟩
  | postIncrementDecrement | postIncrementDecrementReturn =>
      exact .inr ⟨id, _, rfl, represents_postIncrementDecrementConversion line⟩
  | variableAssignmentByArithmeticOperation =>
      exact .inr ⟨id, _, rfl,
        (closed_variableAssignmentByArithmeticOperationConversion line).represents⟩
  | variableDefinitionByArithmeticOperation =>
      exact .inr ⟨id, _, rfl,
        (closed_variableDefinitionByArithmeticOperationConversion line).represents⟩
  | functionPrototypeDefinition =>
      exact .inr ⟨id, _, rfl, (closed_functionPrototypeDefinitionConversion line).represents⟩
  | functionCall => exact .inr ⟨id, _, rfl, (closed_functionCallConversion line).represents⟩
  | variableAssignment =>
      exact .inr ⟨id, _, rfl, (closed_variableAssignmentConversion line).represents⟩
  | returnStatement =>
      exact .inr ⟨id, _, rfl,
        (closed_princ fun _ => closed_returnStatementConversion).represents⟩
  | arithmeticOperation | arithmeticOperationReturn =>
      exact .inr ⟨id, _, rfl, (closed_arithmeticOperationConversion line).represents⟩
  | logicalOperation | logicalOperationReturn =>
      exact .inr ⟨id, _, rfl,
        (closed_princ fun _ => closed_logicalOperationConversion).represents⟩
  | unknown => exact .inr ⟨id, _, rfl, (Silent.closed (by decide)).represents⟩

/-! ### The parens of a program -/

/-- From this level on the parens of the lines are closed. -/
def Closes : ℤ → List Line → Prop
  | d, [] => d = 0
  | d, line :: lines =>
      StaysUp weight d (kept line)
        ∧ Closes (d + level weight (kept line) + if opens line then 1 else 0) lines

/-- The text that is written for the lines has their parens. -/
theorem closes_iff {lines : List Line} (h : ∀ line ∈ lines, ¬ Fails line) :
  ∃ text, converted lines = some text
    ∧ ∀ d, Closes d lines ↔ d + level weight text = 0 ∧ StaysUp weight d text
  := by
  induction lines with
  | nil =>
      refine ⟨[], rfl, fun d => ?_⟩
      rw [Closes, level_nil, staysUp_nil, add_zero]
      omega
  | cons line lines ih =>
      obtain ⟨hline, hlines⟩ := List.forall_mem_cons.mp h
      obtain ⟨rest, hrest, hiff⟩ := ih hlines
      obtain ⟨output, houtput, rfl⟩ := Option.map_eq_some_iff.mp hrest
      obtain ⟨hfails, -⟩ | ⟨-, out, hout, hlevel, hstays⟩ := convert_spec line
      · exact absurd hfails hline
      · refine ⟨(out ++ ['\n']) ++ output.flatMap (· ++ ['\n']), ?_, fun d => ?_⟩
        · rw [converted, List.mapM_cons, hout, houtput]
          rfl
        · have hnewline : Closed ['\n'] := Silent.closed (by decide)
          have hassoc : d + level weight (kept line) + (if opens line then 1 else 0)
              = d + level weight out := by
            rw [hlevel, add_assoc]
          rw [Closes, hassoc, hiff, ← hstays, level_append, level_append, hnewline.1, add_zero,
            staysUp_append, staysUp_append, level_append, hnewline.1, add_zero, hnewline.2,
            add_assoc]
          constructor
          · rintro ⟨hup, htotal, hrest⟩
            exact ⟨htotal, ⟨hup, hrest.nonneg⟩, hrest⟩
          · rintro ⟨htotal, ⟨hup, -⟩, hrest⟩
            exact ⟨hup, htotal, hrest⟩

theorem converted_of_fails {lines : List Line} {line : Line} (h : line ∈ lines)
    (hfails : Fails line) :
  converted lines = none
  := by
  have hnone : convert line = none := by
    obtain ⟨-, hnone⟩ | ⟨hnot, -⟩ := convert_spec line
    · exact hnone
    · exact absurd hfails hnot
  rw [converted, Option.map_eq_none_iff]
  induction h with
  | head lines =>
      rw [List.mapM_cons, hnone]
      rfl
  | tail other _ ih =>
      rw [List.mapM_cons, ih]
      cases convert other <;> rfl

/-- The converted text is balanced if and only if no conversion fails and the parens of the lines
are closed. -/
theorem converted_balanced_iff (lines : List Line) :
  (∃ text, converted lines = some text ∧ Balanced text)
    ↔ (∀ line ∈ lines, ¬ Fails line) ∧ Closes 0 lines
  := by
  constructor
  · rintro ⟨text, htext, hbalanced⟩
    have hfails : ∀ line ∈ lines, ¬ Fails line := by
      intro line hline hfails
      rw [converted_of_fails hline hfails] at htext
      cases htext
    obtain ⟨text', htext', hiff⟩ := closes_iff hfails
    rw [htext] at htext'
    cases htext'
    rw [balanced_iff] at hbalanced
    exact ⟨hfails, (hiff 0).mpr ⟨(zero_add _).trans hbalanced.1, hbalanced.2⟩⟩
  · rintro ⟨hfails, hcloses⟩
    obtain ⟨text, htext, hiff⟩ := closes_iff hfails
    obtain ⟨htotal, hup⟩ := (hiff 0).mp hcloses
    exact ⟨text, htext, balanced_iff.mpr ⟨(zero_add _).symm.trans htotal, hup⟩⟩

/-- The head of an `if` with a plain variable is left as it is, but its brace is a paren. -/
theorem converted_not_balanced :
  ¬ ∃ text, converted ["int f(int x) \x7b".toList, "    if (x) \x7b".toList,
      "        x = 1;".toList, "    \x7d".toList, "    return x;".toList, "\x7d".toList] = some text
    ∧ Balanced text
  := by
  rintro ⟨text, htext, hcount, -⟩
  have hcounts : (converted ["int f(int x) \x7b".toList, "    if (x) \x7b".toList,
      "        x = 1;".toList, "    \x7d".toList, "    return x;".toList, "\x7d".toList]).map
        (fun text => (text.count ')', text.count '(')) = some (5, 4) := by
    decide
  rw [htext] at hcounts
  injection hcounts with hcounts
  injection hcounts with hclosing hopening
  omega

end Converter
