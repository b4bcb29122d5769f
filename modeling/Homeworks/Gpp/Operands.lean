import Homeworks.Gpp.Syntax

/-!
# The operands of what the syntax checker accepts

An operand that is a list need not be accepted itself: it may also be a list of valid expressions.
-/

namespace Gpp

open Sexp

/-! ### The check of an expression depends on its parts only -/

/-- Two checks agree on the parts of a list and, where these are lists, on their parts. -/
structure Alike (v v' : Sexp → Bool) (args : List Sexp) : Prop where
  exp : ∀ x ∈ args, v x = v' x
  items : ∀ items, list items ∈ args → ∀ x ∈ items, v x = v' x

variable {v v' : Sexp → Bool} {args tokens : List Sexp}

theorem Alike.expList (h : Alike v v' args) (x : Sexp) (hx : x ∈ args) :
  validateExpList v x = validateExpList v' x
  := by
  cases x with
  | list items =>
      have hitems := h.items items hx
      rw [Bool.eq_iff_iff, validateExpList, validateExpList, List.all_eq_true, List.all_eq_true]
      constructor
      · intro hall x hx
        rw [← hitems x hx]
        exact hall x hx
      · intro hall x hx
        rw [hitems x hx]
        exact hall x hx
  | atom | dotted => rfl

theorem Alike.tail (h : Alike v v' tokens) :
  Alike v v' tokens.tail
  where
  exp x hx := h.exp x (List.mem_of_mem_tail hx)
  items items hitems := h.items items (List.mem_of_mem_tail hitems)

theorem Alike.checkArithSyntax (h : Alike v v' args) :
  checkArithSyntax v args = checkArithSyntax v' args
  := by
  have hexp := h.exp
  fun_cases Gpp.checkArithSyntax v args <;> simp_all [Gpp.checkArithSyntax]

theorem Alike.checkConcatSyntax (h : Alike v v' args) :
  checkConcatSyntax v args = checkConcatSyntax v' args
  := h.checkArithSyntax

theorem Alike.checkAppendSyntax (h : Alike v v' args) :
  checkAppendSyntax v args = checkAppendSyntax v' args
  := h.checkArithSyntax

theorem Alike.checkBooleanSyntax (h : Alike v v' args) (op : String) :
  checkBooleanSyntax v op args = checkBooleanSyntax v' op args
  := by
  have hexp := h.exp
  fun_cases Gpp.checkBooleanSyntax v op args <;> simp_all [Gpp.checkBooleanSyntax]

theorem Alike.checkDefvarSyntax (h : Alike v v' args) :
  checkDefvarSyntax v args = checkDefvarSyntax v' args
  := by
  have hexp := h.exp
  fun_cases Gpp.checkDefvarSyntax v args <;> simp_all [Gpp.checkDefvarSyntax]

theorem Alike.checkSetSyntax (h : Alike v v' args) :
  checkSetSyntax v args = checkSetSyntax v' args
  := h.checkDefvarSyntax

theorem Alike.checkDeffunSyntax (h : Alike v v' args) :
  checkDeffunSyntax v args = checkDeffunSyntax v' args
  := by
  have hlist := h.expList
  fun_cases Gpp.checkDeffunSyntax v args <;> simp_all [Gpp.checkDeffunSyntax]

theorem Alike.checkFunctionCallSyntax (h : Alike v v' args) :
  checkFunctionCallSyntax v args = checkFunctionCallSyntax v' args
  := by
  have hexp := h.exp
  rw [Gpp.checkFunctionCallSyntax, Gpp.checkFunctionCallSyntax, Bool.eq_iff_iff]
  simp_all

theorem Alike.checkIfSyntax (h : Alike v v' args) :
  checkIfSyntax v args = checkIfSyntax v' args
  := by
  have hexp := h.exp
  fun_cases Gpp.checkIfSyntax v args <;> simp_all [Gpp.checkIfSyntax]

theorem Alike.checkWhileSyntax (h : Alike v v' args) :
  checkWhileSyntax v args = checkWhileSyntax v' args
  := by
  have hexp := h.exp
  have hlist := h.expList
  fun_cases Gpp.checkWhileSyntax v args <;> simp_all [Gpp.checkWhileSyntax]

theorem Alike.checkForSyntax (h : Alike v v' args) :
  checkForSyntax v args = checkForSyntax v' args
  := by
  have hlist := h.expList
  have hitems := h.items
  fun_cases Gpp.checkForSyntax v args <;> simp_all [Gpp.checkForSyntax]

theorem validateValues_congr (h : ∀ x ∈ args, v x = v' x) :
  validateValues v args = validateValues v' args
  := by
  fun_induction validateValues v args <;> simp_all [validateValues, validateValue]

theorem Alike.checkPrintSyntax (h : Alike v v' args) :
  checkPrintSyntax v args = checkPrintSyntax v' args
  := by
  have hexp := h.exp
  fun_cases Gpp.checkPrintSyntax v args <;> simp_all [Gpp.checkPrintSyntax]

theorem Alike.checkTokens (h : Alike v v' tokens) :
  checkTokens v tokens = checkTokens v' tokens
  := by
  rw [Gpp.checkTokens, Gpp.checkTokens, h.tail.checkArithSyntax, h.tail.checkDefvarSyntax,
    h.tail.checkSetSyntax, h.tail.checkDeffunSyntax, h.tail.checkIfSyntax, h.tail.checkWhileSyntax,
    h.tail.checkForSyntax, checkListSyntax, checkListSyntax, validateValues_congr h.tail.exp,
    h.tail.checkConcatSyntax, h.tail.checkAppendSyntax, h.tail.checkPrintSyntax,
    h.tail.checkFunctionCallSyntax]
  simp only [h.tail.checkBooleanSyntax]

/-! ### Any depth -/

theorem depth_le_of_mem {x : Sexp} {items : List Sexp} (h : x ∈ items) :
  x.depth ≤ depthOf items
  := by
  induction items with
  | nil => cases h
  | cons y items ih =>
      rw [depthOf]
      rcases List.mem_cons.mp h with rfl | hmem
      · exact Nat.le_max_left _ _
      · exact Nat.le_trans (ih hmem) (Nat.le_max_right _ _)

theorem alike_of_depth {items : List Sexp} {n : ℕ} (hn : depthOf items ≤ n)
    (h : ∀ x : Sexp, x.depth ≤ n → v x = v' x) :
  Alike v v' items
  where
  exp x hx := h x (Nat.le_trans (depth_le_of_mem hx) hn)
  items inner hinner x hx := by
    have hdepth := depth_le_of_mem hinner
    rw [depth] at hdepth
    have hx := depth_le_of_mem hx
    exact h x (by omega)

/-- Beyond the depth of the expression the bound does not matter. -/
theorem validateExpWithin_eq {exp : Sexp} {m n : ℕ} (hm : exp.depth < m) (hn : exp.depth < n) :
  validateExpWithin m exp = validateExpWithin n exp
  := by
  induction m generalizing exp n with
  | zero => cases hm
  | succ m ih =>
      obtain ⟨n, rfl⟩ := Nat.exists_eq_succ_of_ne_zero (Nat.ne_zero_of_lt hn)
      cases exp with
      | atom | dotted => rfl
      | list items =>
          rw [depth] at hm hn
          have halike : Alike (validateExpWithin m) (validateExpWithin n) items :=
            alike_of_depth (Nat.le_refl _) fun x hx => ih (by omega) (by omega)
          have hall : items.all (validateExpWithin m) = items.all (validateExpWithin n) :=
            halike.checkFunctionCallSyntax
          rw [validateExpWithin, validateExpWithin, checkSyntaxWith, checkSyntaxWith,
            halike.checkTokens, validateExpList, validateExpList, hall]

/-- A list is valid if it is empty or accepted or all of its elements are valid. -/
theorem validateExp_list (items : List Sexp) :
  validateExp (list items)
    = ((list items).symbolp || (checkSyntax (list items) || items.all validateExp))
  := by
  have halike : Alike (validateExpWithin (list items).depth) validateExp items := by
    rw [depth]
    exact alike_of_depth (Nat.le_refl _) fun x hx =>
      validateExpWithin_eq (by omega) (Nat.lt_succ_self _)
  have hall : items.all (validateExpWithin (list items).depth) = items.all validateExp :=
    halike.checkFunctionCallSyntax
  rw [validateExp, validateExpWithin, checkSyntaxWith, halike.checkTokens, validateExpList, hall]
  rfl

/-! ### Operands -/

/-- The operands of an arithmetic, boolean, `set`, `defvar`, `if`, `concat`, `append`, `print` or
function-call expression, and the condition of a `while`. -/
def operands (tokens : List Sexp) : List Sexp :=
  match operator tokens with
  | none => []
  | some op =>
    if op ∈ ["deffun", "for", "list", "load", "exit"] then []
    else if op ∈ ["set", "defvar"] then tokens.drop 2
    else if op = "while" then (tokens.drop 1).take 1
    else tokens.drop 1

/-- An expression that is inside another one, when of each list a part only is gone into. -/
inductive Inside (part : List Sexp → List Sexp) (exp : Sexp) : Sexp → Prop where
  | refl : Inside part exp exp
  | item {items : List Sexp} {x : Sexp} (h : Inside part exp (list items)) (hx : x ∈ part items) :
    Inside part exp x

/-- Of a `while` the checker looks at the condition and the body, of another list at all of it. -/
def looked (tokens : List Sexp) : List Sexp :=
  if operator tokens = some "while" then tokens.take 3 else tokens

theorem operands_subset {tokens : List Sexp} {l : Sexp} (h : l ∈ operands tokens) :
  l ∈ looked tokens
  := by
  revert h
  fun_cases operands tokens with
  | case1 hnone => exact fun h => nomatch h
  | case2 op hop hskip => exact fun h => nomatch h
  | case3 op hop hskip hassign =>
      intro h
      have hne : ¬ operator tokens = some "while" := by
        rw [hop]
        rintro heq
        cases heq
        exact absurd hassign (by decide)
      rw [looked, if_neg hne]
      exact List.mem_of_mem_drop h
  | case4 hop hskip hassign =>
      intro h
      rw [looked, if_pos hop]
      have htake : tokens.take 2 = (tokens.take 3).take 2 := by rw [List.take_take]; rfl
      have hmem := List.mem_of_mem_drop (List.take_drop ▸ h)
      exact List.mem_of_mem_take (htake ▸ hmem)
  | case5 op hop hskip hassign hwhile =>
      intro h
      have hne : ¬ operator tokens = some "while" := by
        rw [hop]
        exact fun heq => hwhile (Option.some.inj heq)
      rw [looked, if_neg hne]
      exact List.mem_of_mem_drop h

theorem valid_of_symbolp {x : Sexp} (h : x.symbolp = true) :
  validateExp x = true
  := by
  rw [validateExp, validateExpWithin, h, Bool.or_true, Bool.true_or]

theorem valid_of_items {items : List Sexp} (h : ∀ x ∈ items, validateExp x = true) :
  validateExp (list items) = true
  := by
  rw [validateExp_list, List.all_eq_true.mpr h, Bool.or_true, Bool.or_true]

theorem valid_of_expList {x : Sexp} (h : validateExpList validateExp x = true) :
  validateExp x = true
  := by
  cases x with
  | list items => exact valid_of_items (List.all_eq_true.mp h)
  | atom | dotted => cases h

theorem symbolp_of_null {x : Sexp} (h : x.null = true) :
  x.symbolp = true
  := by
  fun_cases null x with
  | case1 => rfl
  | case2 x hne =>
      rw [null] at h
      · cases h
      · exact hne

/-- What an accepted list has after its operator. -/
def Good (x : Sexp) : Prop := validateExp x = true ∨ x.stringp = true

theorem good_of_two {args : List Sexp} (h : checkArithSyntax validateExp args = true) :
  ∀ x ∈ args, Good x
  := by
  revert h
  fun_cases checkArithSyntax validateExp args <;> simp_all [Good]

theorem good_of_boolean {op : String} {args : List Sexp}
    (h : checkBooleanSyntax validateExp op args = true) :
  ∀ x ∈ args, Good x
  := by
  revert h
  fun_cases checkBooleanSyntax validateExp op args <;> simp_all [Good]

theorem good_of_assignment {args : List Sexp} (h : checkSetSyntax validateExp args = true) :
  ∀ x ∈ args, Good x
  := by
  revert h
  fun_cases checkSetSyntax validateExp args <;> simp_all [Good, valid_of_symbolp]

theorem good_of_deffun {args : List Sexp} (h : checkDeffunSyntax validateExp args = true) :
  ∀ x ∈ args, Good x
  := by
  revert h
  fun_cases checkDeffunSyntax validateExp args <;>
    simp_all [Good, valid_of_symbolp, valid_of_expList]

theorem good_of_if {args : List Sexp} (h : checkIfSyntax validateExp args = true) :
  ∀ x ∈ args, Good x
  := by
  revert h
  fun_cases checkIfSyntax validateExp args with
  | case1 => simp_all [Good]
  | case2 condition exp other =>
      intro h
      simp only [Bool.and_eq_true, Bool.or_eq_true] at h
      have hother : validateExp other = true := by
        rcases h.2 with hnull | hvalid
        · exact valid_of_symbolp (symbolp_of_null hnull)
        · exact hvalid
      simp [Good, h.1, hother]
  | case3 => simp_all [Good]

theorem good_of_while {args : List Sexp} (h : checkWhileSyntax validateExp args = true) :
  ∀ x ∈ args.take 2, Good x
  := by
  revert h
  fun_cases checkWhileSyntax validateExp args <;> simp_all [Good, valid_of_expList]

theorem good_of_for {args : List Sexp} (h : checkForSyntax validateExp args = true) :
  ∀ x ∈ args, Good x
  := by
  revert h
  fun_cases checkForSyntax validateExp args with
  | case1 name start stop body =>
      intro h
      simp only [Bool.and_eq_true] at h
      have hrange : validateExp (list [name, start, stop]) = true :=
        valid_of_items (by simp [valid_of_symbolp, h])
      simp [Good, hrange, valid_of_expList h.2]
  | case2 => simp_all [Good]

theorem valid_of_value {x : Sexp} (h : validateValue validateExp x = true) :
  validateExp x = true
  := by
  rw [validateValue, Bool.or_eq_true, Bool.or_eq_true] at h
  rcases h with (hnumber | hsymbol) | hvalid
  · rw [validateExp, validateExpWithin, hnumber, Bool.true_or, Bool.true_or]
  · exact valid_of_symbolp hsymbol
  · exact hvalid

theorem good_of_values {args : List Sexp} (h : validateValues validateExp args = true) :
  ∀ x ∈ args, Good x
  := by
  have hcomma : validateExp (atom (.symbol "comma")) = true := valid_of_symbolp rfl
  revert h
  fun_induction validateValues validateExp args <;> simp_all [Good, valid_of_value]

theorem good_of_print {args : List Sexp} (h : checkPrintSyntax validateExp args = true) :
  ∀ x ∈ args, Good x
  := by
  revert h
  fun_cases checkPrintSyntax validateExp args <;> simp_all [Good, or_comm]

theorem good_of_load {args : List Sexp} (h : checkLoadSyntax args = true) :
  ∀ x ∈ args, Good x
  := by
  revert h
  fun_cases checkLoadSyntax args <;> simp_all [Good]

theorem good_of_tail {tokens : List Sexp} (h : checkTokens validateExp tokens = true) :
  ∀ x ∈ if operator tokens = some "while" then tokens.tail.take 2 else tokens.tail, Good x
  := by
  have hall (hgood : ∀ x ∈ tokens.tail, Good x) :
      ∀ x ∈ if operator tokens = some "while" then tokens.tail.take 2 else tokens.tail, Good x := by
    intro x hx
    split at hx
    · exact hgood x (List.mem_of_mem_take hx)
    · exact hgood x hx
  revert h
  fun_cases checkTokens validateExp tokens with
  | case1 => exact fun h => nomatch h
  | case2 => exact fun h => hall (good_of_two h)
  | case3 => exact fun h => hall (good_of_boolean h)
  | case4 => exact fun h => hall (good_of_assignment h)
  | case5 => exact fun h => hall (good_of_assignment h)
  | case6 => exact fun h => hall (good_of_deffun h)
  | case7 => exact fun h => hall (good_of_if h)
  | case8 hwhile =>
      intro h
      rw [if_pos hwhile]
      exact good_of_while h
  | case9 => exact fun h => hall (good_of_for h)
  | case10 => exact fun h => hall (good_of_values h)
  | case11 => exact fun h => hall (good_of_two h)
  | case12 => exact fun h => hall (good_of_two h)
  | case13 => exact fun h => hall (good_of_load h)
  | case14 => exact fun h => hall (good_of_print h)
  | case15 =>
      intro h
      refine hall fun x hx => ?_
      rw [checkExitSyntax, List.isEmpty_iff] at h
      rw [h] at hx
      cases hx
  | case16 => exact fun h => hall fun x hx => .inl (List.all_eq_true.mp h x hx)

theorem symbolp_of_operator {head : Sexp} {args : List Sexp} {op : String}
    (h : operator (head :: args) = some op) :
  head.symbolp = true
  := by
  cases head with
  | atom a =>
      cases a with
      | symbol => rfl
      | integer | ratio | float | string => cases h
  | list items =>
      cases items with
      | nil => rfl
      | cons => cases h
  | dotted => cases h

/-- What is looked at in an accepted list is valid, or it is a string. -/
theorem good_of_checkTokens {tokens : List Sexp} (h : checkTokens validateExp tokens = true) :
  ∀ x ∈ looked tokens, Good x
  := by
  have htail := good_of_tail h
  cases tokens with
  | nil => exact fun x hx => nomatch hx
  | cons head args =>
      have hhead : Good head := by
        cases hop : operator (head :: args) with
        | none =>
            rw [checkTokens, hop] at h
            cases h
        | some op => exact .inl (valid_of_symbolp (symbolp_of_operator hop))
      rw [looked]
      split
      · rename_i hwhile
        rw [if_pos hwhile] at htail
        exact List.forall_mem_cons.mpr ⟨hhead, htail⟩
      · rename_i hwhile
        rw [if_neg hwhile] at htail
        exact List.forall_mem_cons.mpr ⟨hhead, htail⟩

theorem good_of_list {tokens : List Sexp} (h : Good (list tokens)) :
  ∀ x ∈ looked tokens, Good x
  := by
  have hlooked : ∀ x ∈ looked tokens, x ∈ tokens := by
    intro x hx
    rw [looked] at hx
    split at hx
    · exact List.mem_of_mem_take hx
    · exact hx
  rcases h with hvalid | hstring
  · rw [validateExp_list, Bool.or_eq_true, Bool.or_eq_true] at hvalid
    rcases hvalid with hsymbol | haccepted | hall
    · cases tokens with
      | nil => exact fun x hx => nomatch hx
      | cons => cases hsymbol
    · exact good_of_checkTokens haccepted
    · exact fun x hx => .inl (List.all_eq_true.mp hall x (hlooked x hx))
  · cases hstring

theorem valid_of_checkSyntax {exp : Sexp} (h : checkSyntax exp = true) :
  validateExp exp = true
  := by
  cases exp with
  | atom => cases h
  | list items => rw [validateExp_list, h, Bool.true_or, Bool.or_true]
  | dotted first items last =>
      have hdotted : checkDotted first items last = true := h
      rw [validateExp, validateExpWithin, checkSyntaxWith, hdotted]
      rfl

theorem good_of_inside {exp x : Sexp} (h : checkSyntax exp = true) (hinside : Inside looked exp x) :
  Good x
  := by
  induction hinside with
  | refl => exact .inl (valid_of_checkSyntax h)
  | item _ hx ih => exact good_of_list ih _ hx

/-- Every operand that is a list, in whatever depth, is accepted itself or is a list of valid
expressions. -/
theorem operands_valid {exp : Sexp} (h : checkSyntax exp = true) {tokens : List Sexp}
    (hinside : Inside looked exp (list tokens)) {l : Sexp} (hl : l ∈ operands tokens)
    (hlist : l.listp = true) :
  checkSyntax l = true ∨ ∃ items, l = list items ∧ ∀ x ∈ items, validateExp x = true
  := by
  have hgood := good_of_list (good_of_inside h hinside) l (operands_subset hl)
  cases l with
  | atom => cases hlist
  | list items =>
      rcases hgood with hvalid | hstring
      · rw [validateExp_list, Bool.or_eq_true, Bool.or_eq_true] at hvalid
        rcases hvalid with hsymbol | haccepted | hall
        · cases items with
          | nil => exact .inr ⟨[], rfl, nofun⟩
          | cons => cases hsymbol
        · exact .inl haccepted
        · exact .inr ⟨items, rfl, List.all_eq_true.mp hall⟩
      · cases hstring
  | dotted first items last =>
      rcases hgood with hvalid | hstring
      · rw [validateExp, validateExpWithin, checkSyntaxWith] at hvalid
        have hdotted : checkDotted first items last = true := by
          simpa [numberp, symbolp, listp, validateExpList] using hvalid
        exact .inl hdotted
      · cases hstring

/-! ### The forms that the operators ask for -/

def namesOne : List Sexp → Bool
  | [name, _] => name.symbolp
  | _ => false

def booleanForm (op : String) (args : List Sexp) : Bool :=
  if op ∈ ["and", "or", "less", "equal"] then args.length = 2
  else if op = "not" then args.length = 1
  else args.isEmpty

/-- Parameters and bodies are lists of expressions. -/
def deffunForm : List Sexp → Bool
  | [function, params, body] =>
    function.symbolp && validateExpList validateExp params && validateExpList validateExp body
  | _ => false

def whileForm : List Sexp → Bool
  | _ :: body :: _ => validateExpList validateExp body
  | _ => false

def forForm : List Sexp → Bool
  | [list [name, start, stop], body] =>
    name.symbolp && validateExp start && validateExp stop && validateExpList validateExp body
  | _ => false

/-- Values with the symbol `comma` between them. -/
def commas : List Sexp → Bool
  | [] => true
  | _ :: [] => true
  | _ :: atom (.symbol "comma") :: rest => commas rest
  | _ => false

/-- A list starts with a symbol, and has the form that an operator asks for if this is one: so many
operands, symbols for names, and lists of expressions for parameters, ranges and bodies. -/
def wellFormed (tokens : List Sexp) : Bool :=
  match operator tokens with
  | none => false
  | some op =>
    if op ∈ ["+", "-", "*", "/"] then tokens.tail.length = 2
    else if op ∈ ["and", "or", "not", "less", "equal", "true", "false"] then
      booleanForm op tokens.tail
    else if op = "defvar" then namesOne tokens.tail
    else if op = "set" then namesOne tokens.tail
    else if op = "deffun" then deffunForm tokens.tail
    else if op = "if" then tokens.tail.length = 2 || tokens.tail.length = 3
    else if op = "while" then whileForm tokens.tail
    else if op = "for" then forForm tokens.tail
    else if op = "list" then commas tokens.tail
    else if op = "concat" then tokens.tail.length = 2
    else if op = "append" then tokens.tail.length = 2
    else if op = "load" then checkLoadSyntax tokens.tail
    else if op = "print" then tokens.tail.length = 1
    else if op = "exit" then tokens.tail.isEmpty
    else true

section

variable (hall : ∀ x ∈ args, validateExp x = true)

include hall

theorem checkArithSyntax_of_length (h : args.length = 2) :
  checkArithSyntax validateExp args = true
  := by
  obtain ⟨left, right, rfl⟩ := List.length_eq_two.mp h
  simp_all [checkArithSyntax]

theorem checkBooleanSyntax_of_form {op : String} (h : booleanForm op args = true) :
  checkBooleanSyntax validateExp op args = true
  := by
  unfold booleanForm at h
  unfold checkBooleanSyntax
  split at h
  · obtain ⟨left, right, rfl⟩ := List.length_eq_two.mp (of_decide_eq_true h)
    simp_all
  · split at h
    · obtain ⟨operand, rfl⟩ := List.length_eq_one_iff.mp (of_decide_eq_true h)
      simp_all
    · simp_all

theorem checkSetSyntax_of_form (h : namesOne args = true) :
  checkSetSyntax validateExp args = true
  := by
  revert h
  fun_cases namesOne args <;> simp_all [checkSetSyntax]

theorem checkIfSyntax_of_length (h : args.length = 2 ∨ args.length = 3) :
  checkIfSyntax validateExp args = true
  := by
  rcases h with h | h
  · obtain ⟨condition, exp, rfl⟩ := List.length_eq_two.mp h
    simp_all [checkIfSyntax]
  · obtain ⟨condition, exp, other, rfl⟩ := List.length_eq_three.mp h
    simp_all [checkIfSyntax]

theorem checkWhileSyntax_of_form (h : whileForm args = true) :
  checkWhileSyntax validateExp args = true
  := by
  revert h
  fun_cases whileForm args <;> simp_all [checkWhileSyntax]

theorem checkListSyntax_of_commas (h : commas args = true) :
  checkListSyntax validateExp args = true
  := by
  unfold checkListSyntax
  fun_induction commas args <;> simp_all [validateValues, validateValue]

theorem checkPrintSyntax_of_length (h : args.length = 1) :
  checkPrintSyntax validateExp args = true
  := by
  obtain ⟨exp, rfl⟩ := List.length_eq_one_iff.mp h
  simp_all [checkPrintSyntax]

end

theorem listp_of_expList {x : Sexp} (h : validateExpList validateExp x = true) :
  x.listp = true
  := by
  cases x with
  | list => rfl
  | atom | dotted => cases h

theorem checkDeffunSyntax_of_form (h : deffunForm args = true) :
  checkDeffunSyntax validateExp args = true
  := by
  revert h
  fun_cases deffunForm args <;> simp_all [checkDeffunSyntax, listp_of_expList]

theorem ite_imp_ite {p : Prop} [Decidable p] {a a' b b' : Bool} (ha : a = true → a' = true)
    (hb : b = true → b' = true) :
  (if p then a else b) = true → (if p then a' else b') = true
  := by
  split
  · exact ha
  · exact hb

/-- A list that is accepted has the form that its operator asks for. -/
theorem wellFormed_of_checkTokens {tokens : List Sexp} (h : checkTokens validateExp tokens = true) :
  wellFormed tokens = true
  := by
  have htwo {args : List Sexp} : checkArithSyntax validateExp args = true → args.length = 2 := by
    fun_cases checkArithSyntax validateExp args <;> simp_all
  have hboolean {op : String} {args : List Sexp} :
      checkBooleanSyntax validateExp op args = true → booleanForm op args = true := by
    fun_cases checkBooleanSyntax validateExp op args <;> simp_all [booleanForm]
  have hnames {args : List Sexp} : checkSetSyntax validateExp args = true →
    namesOne args = true := by
    fun_cases checkSetSyntax validateExp args <;> simp_all [namesOne]
  have hdeffun {args : List Sexp} :
      checkDeffunSyntax validateExp args = true → deffunForm args = true := by
    fun_cases checkDeffunSyntax validateExp args <;> simp_all [deffunForm]
  have hif {args : List Sexp} : checkIfSyntax validateExp args = true →
      (args.length = 2 || args.length = 3 : Bool) = true := by
    fun_cases checkIfSyntax validateExp args <;> simp_all
  have hwhile {args : List Sexp} :
      checkWhileSyntax validateExp args = true → whileForm args = true := by
    fun_cases checkWhileSyntax validateExp args <;> simp_all [whileForm]
  have hfor {args : List Sexp} : checkForSyntax validateExp args = true → forForm args = true := by
    fun_cases checkForSyntax validateExp args <;> simp_all [forForm]
  have hlist {args : List Sexp} : validateValues validateExp args = true → commas args = true := by
    fun_induction validateValues validateExp args <;> simp_all [commas]
  have hprint {args : List Sexp} : checkPrintSyntax validateExp args = true → args.length = 1 := by
    fun_cases checkPrintSyntax validateExp args <;> simp_all
  revert h
  unfold checkTokens wellFormed
  cases operator tokens with
  | none => exact id
  | some op =>
      have htwo' {args : List Sexp} (h : checkArithSyntax validateExp args = true) :
          decide (args.length = 2) = true := decide_eq_true (htwo h)
      exact ite_imp_ite htwo' <| ite_imp_ite hboolean <| ite_imp_ite hnames <|
        ite_imp_ite hnames <| ite_imp_ite hdeffun <| ite_imp_ite hif <| ite_imp_ite hwhile <|
        ite_imp_ite hfor <| ite_imp_ite hlist <| ite_imp_ite htwo' <|
        ite_imp_ite htwo' <| ite_imp_ite id <|
        ite_imp_ite (fun h => decide_eq_true (hprint h)) <|
        ite_imp_ite id fun _ => rfl

/-- A list of valid expressions that has the form its operator asks for is accepted. -/
theorem checkTokens_of_wellFormed {tokens : List Sexp} (hall : ∀ x ∈ tokens, validateExp x = true)
    (h : wellFormed tokens = true) :
  checkTokens validateExp tokens = true
  := by
  have hargs : ∀ x ∈ tokens.tail, validateExp x = true :=
    fun x hx => hall x (List.mem_of_mem_tail hx)
  have hfor : forForm tokens.tail = true → checkForSyntax validateExp tokens.tail = true := id
  revert h
  unfold checkTokens wellFormed
  cases operator tokens with
  | none => exact id
  | some op =>
      have htwo (h : decide (tokens.tail.length = 2) = true) :
          checkArithSyntax validateExp tokens.tail = true :=
        checkArithSyntax_of_length hargs (of_decide_eq_true h)
      exact ite_imp_ite htwo <| ite_imp_ite (checkBooleanSyntax_of_form hargs) <|
        ite_imp_ite (checkSetSyntax_of_form hargs) <| ite_imp_ite (checkSetSyntax_of_form hargs) <|
        ite_imp_ite checkDeffunSyntax_of_form <|
        ite_imp_ite (fun h => checkIfSyntax_of_length hargs (by simpa using h)) <|
        ite_imp_ite (checkWhileSyntax_of_form hargs) <| ite_imp_ite hfor <|
        ite_imp_ite (checkListSyntax_of_commas hargs) <| ite_imp_ite htwo <| ite_imp_ite htwo <|
        ite_imp_ite id <|
        ite_imp_ite (fun h => checkPrintSyntax_of_length hargs (of_decide_eq_true h)) <|
        ite_imp_ite id fun _ => List.all_eq_true.mpr hargs

theorem accepted_list_iff {items : List Sexp} (hvalid : validateExp (list items) = true) :
  checkSyntax (list items) = true ↔ wellFormed items = true
  := by
  constructor
  · exact wellFormed_of_checkTokens
  · intro hform
    rw [validateExp_list, Bool.or_eq_true, Bool.or_eq_true] at hvalid
    rcases hvalid with hsymbol | haccepted | hall
    · cases items with
      | nil => rfl
      | cons => cases hsymbol
    · exact haccepted
    · exact checkTokens_of_wellFormed (List.all_eq_true.mp hall) hform

/-- An operand is a list of the form that its operator asks for; in a part of the expression that
the checker does not look at it is a valid expression too. -/
def FormedOperand (exp : Sexp) (tokens : List Sexp) : Sexp → Prop
  | atom _ => True
  | list items =>
    wellFormed items = true ∧ (¬ Inside looked exp (list tokens) → validateExp (list items) = true)
  | dotted first items last =>
    ¬ Inside looked exp (list tokens) → validateExp (dotted first items last) = true

theorem accepted_dotted_iff {first : Sexp} {items : List Sexp} {last : Atom} :
  checkSyntax (dotted first items last) = true ↔ validateExp (dotted first items last) = true
  := by
  constructor
  · exact valid_of_checkSyntax
  · intro hvalid
    rw [validateExp, validateExpWithin, checkSyntaxWith] at hvalid
    have hdotted : checkDotted first items last = true := by
      simpa [numberp, symbolp, listp, validateExpList] using hvalid
    exact hdotted

end Gpp
