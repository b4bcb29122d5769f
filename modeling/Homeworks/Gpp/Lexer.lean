import Homeworks.Gpp.Tokenizer
import Homeworks.Lexing.Regex
import Mathlib.Data.List.TakeWhile

/-!
# The flex lexer of G++

The rules of the specification, and which of them is taken at the front of a text.
-/

open Lexing

namespace Gpp

open Token

/-- A rule for a word, which prints its kind. -/
def prints (s : String) (token : Token) : Rule Char (Option Kind) :=
  ⟨Regex.literal s.toList, some (.token token)⟩

def keywordRules : List (Rule Char (Option Kind)) :=
  [prints "and" kwAnd, prints "or" kwOr, prints "not" kwNot, prints "equal" kwEqual,
    prints "less" kwLess, prints "nil" kwNil, prints "list" kwList, prints "append" kwAppend,
    prints "concat" kwConcat, prints "set" kwSet, prints "deffun" kwDeffun, prints "for" kwFor,
    prints "if" kwIf, prints "exit" kwExit, prints "load" kwLoad, prints "print" kwDisp,
    prints "true" kwTrue, prints "false" kwFalse]

def operatorRules : List (Rule Char (Option Kind)) :=
  [prints "+" opPlus, prints "-" opMinus, prints "/" opDiv, prints "*" opMult, prints "(" opOp,
    prints ")" opCp, prints "," opComma]

/-- `[a-zA-Z0-9_]` -/
def isWordChar (c : Char) : Bool := c.isAlphanum || c == '_'

open Regex

def commentRule : Rule Char (Option Kind) :=
  ⟨seq (chars (· == ';')) (star (chars (· != '\n'))), some .comment⟩

def valueiRule : Rule Char (Option Kind) := ⟨plus Char.isDigit, some (.token valuei)⟩

def valuefRule : Rule Char (Option Kind) :=
  ⟨seq (plus Char.isDigit) (seq (chars (· == 'f')) (plus Char.isDigit)), some (.token valuef)⟩

def identifierRule : Rule Char (Option Kind) :=
  ⟨seq (chars Char.isAlpha) (star (chars isWordChar)), some (.token identifier)⟩

def newlineRule : Rule Char (Option Kind) := ⟨chars (· == '\n'), none⟩

def isSpaceTab (c : Char) : Bool := c == ' ' || c == '\t' || c == '\r'

def whitespaceRule : Rule Char (Option Kind) := ⟨plus isSpaceTab, none⟩

def notValueRule : Rule Char (Option Kind) :=
  ⟨seq (plus Char.isDigit)
    (seq (chars fun c => c.isAlpha || c == '_') (star (chars isWordChar))), some .syntaxError⟩

def anyRule : Rule Char (Option Kind) := ⟨chars (· != '\n'), some .syntaxError⟩

/-- The rules in the order of the specification.  The start condition `SKIP_LINE` is never
entered. -/
def lexerRules : List (Rule Char (Option Kind)) :=
  keywordRules ++ operatorRules
    ++ [commentRule, valueiRule, valuefRule, identifierRule, newlineRule, whitespaceRule,
      notValueRule, anyRule]

/-- What `yylex` prints for a text. -/
def yylex (text : List Char) : List Kind :=
  (lexemes lexerRules text).filterMap fun lexeme => lexeme.1.join

/-! ### The rule that is taken -/

variable {w v rest : List Char} {c : Char} {r : Rule Char (Option Kind)}

theorem keywordRules_eq :
  keywordRules = keywords.map fun entry => ⟨literal entry.1, some (.token entry.2)⟩
  := rfl

theorem operatorRules_eq :
  operatorRules = operators.map fun entry => ⟨literal entry.1, some (.token entry.2)⟩
  := rfl

theorem mem_of_keywordRule (hr : r ∈ keywordRules) (hv : v ∈ r.pattern.language) :
  ∃ t, (v, t) ∈ keywords
  := by
  rw [keywordRules_eq, List.mem_map] at hr
  obtain ⟨⟨word, t⟩, hmem, rfl⟩ := hr
  rw [mem_literal.mp hv]
  exact ⟨t, hmem⟩

theorem mem_of_operatorRule (hr : r ∈ operatorRules) (hv : v ∈ r.pattern.language) :
  ∃ t, (v, t) ∈ operators
  := by
  rw [operatorRules_eq, List.mem_map] at hr
  obtain ⟨⟨word, t⟩, hmem, rfl⟩ := hr
  rw [mem_literal.mp hv]
  exact ⟨t, hmem⟩

theorem alpha_of_keyword :
  ∀ entry ∈ keywords, entry.1 ≠ [] ∧ ∀ c ∈ entry.1, c.isAlpha = true
  := by
  have hall : keywords.all (fun entry => entry.1 ≠ [] ∧ entry.1.all Char.isAlpha) = true := by
    decide
  simpa using hall

theorem operator_of_mem :
  ∀ entry ∈ operators, entry.1.length = 1 ∧ ∀ c ∈ entry.1, charType c = .operator
  := by
  have hall : operators.all
      (fun entry => entry.1.length = 1 ∧ entry.1.all fun c => charType c = .operator) = true := by
    decide
  simpa using hall

theorem isAlpha_of_isDigit (h : c.isDigit = true) :
  c.isAlpha = false
  := by
  unfold Char.isDigit at h
  unfold Char.isAlpha Char.isUpper Char.isLower
  simp [UInt32.le_iff_toNat_le] at h ⊢
  omega

/-- No word goes on after the text. -/
def Ends (rest : List Char) : Prop := ∀ c ∈ rest.head?, isWordChar c = false

theorem prefix_of_chars {p : Char → Bool} (h : v <+: w ++ rest) (hv : ∀ c ∈ v, p c = true)
    (hends : ∀ c ∈ rest.head?, p c = false) :
  v <+: w
  := by
  rcases List.prefix_or_prefix_of_prefix h (List.prefix_append w rest) with hw | ⟨u, rfl⟩
  · exact hw
  · cases u with
    | nil =>
        rw [List.append_nil]
    | cons d u =>
        obtain ⟨after, hrest⟩ := (List.prefix_append_right_inj w).mp h
        have hhead : d ∈ rest.head? := by
          rw [← hrest]
          rfl
        have hd := hv d (List.mem_append_right _ List.mem_cons_self)
        rw [hends d hhead] at hd
        cases hd

theorem wordChar_of_alpha (h : c.isAlpha = true) :
  isWordChar c = true
  := by
  rw [isWordChar, Char.isAlphanum, h]
  rfl

theorem wordChar_of_digit (h : c.isDigit = true) :
  isWordChar c = true
  := by
  rw [isWordChar, Char.isAlphanum, h, Bool.or_true]
  rfl

theorem mem_identifier :
  v ∈ identifierRule.pattern.language
    ↔ ∃ d u, v = d :: u ∧ d.isAlpha = true ∧ ∀ c ∈ u, isWordChar c = true
  := by
  rw [identifierRule, mem_seq_chars]
  simp only [mem_star_chars]

theorem mem_valuef :
  v ∈ valuefRule.pattern.language
    ↔ ∃ ds es, v = ds ++ 'f' :: es ∧ (ds ≠ [] ∧ ∀ c ∈ ds, c.isDigit = true)
      ∧ es ≠ [] ∧ ∀ c ∈ es, c.isDigit = true
  := by
  rw [valuefRule, language, Language.mem_mul]
  constructor
  · rintro ⟨ds, hds, u, hu, rfl⟩
    obtain ⟨d, es, rfl, hd, hes⟩ := mem_seq_chars.mp hu
    rw [beq_iff_eq.mp hd]
    exact ⟨ds, es, rfl, mem_plus.mp hds, mem_plus.mp hes⟩
  · rintro ⟨ds, es, rfl, hds, hes⟩
    exact ⟨ds, mem_plus.mpr hds, 'f' :: es,
      mem_seq_chars.mpr ⟨'f', es, rfl, beq_self_eq_true 'f', mem_plus.mpr hes⟩, rfl⟩

theorem mem_notValue :
  v ∈ notValueRule.pattern.language
    ↔ ∃ ds d u, v = ds ++ d :: u ∧ (ds ≠ [] ∧ ∀ c ∈ ds, c.isDigit = true)
      ∧ (d.isAlpha || d == '_') = true ∧ ∀ c ∈ u, isWordChar c = true
  := by
  rw [notValueRule, language, Language.mem_mul]
  constructor
  · rintro ⟨ds, hds, v, hv, rfl⟩
    obtain ⟨d, u, rfl, hd, hu⟩ := mem_seq_chars.mp hv
    exact ⟨ds, d, u, rfl, mem_plus.mp hds, hd, mem_star_chars.mp hu⟩
  · rintro ⟨ds, d, u, rfl, hds, hd, hu⟩
    exact ⟨ds, mem_plus.mpr hds, d :: u,
      mem_seq_chars.mpr ⟨d, u, rfl, hd, mem_star_chars.mpr hu⟩, rfl⟩

theorem wordChars_digits {ds : List Char} (h : ∀ c ∈ ds, c.isDigit = true) :
  ∀ c ∈ ds, isWordChar c = true
  := fun c hc => wordChar_of_digit (h c hc)

theorem wordChar_letter (h : (c.isAlpha || c == '_') = true) :
  isWordChar c = true
  := by
  rcases Bool.or_eq_true_iff.mp h with halpha | hunderscore
  · exact wordChar_of_alpha halpha
  · rw [beq_iff_eq.mp hunderscore]
    decide

/-- A rule for words or numbers matches characters of words only. -/
theorem wordChars_of_mem
    (hr : r = valueiRule ∨ r = valuefRule ∨ r = identifierRule ∨ r = notValueRule)
    (hv : v ∈ r.pattern.language) :
  ∀ c ∈ v, isWordChar c = true
  := by
  rcases hr with rfl | rfl | rfl | rfl
  · exact wordChars_digits (mem_plus.mp hv).2
  · obtain ⟨ds, es, rfl, hds, hes⟩ := mem_valuef.mp hv
    exact List.forall_mem_append.mpr ⟨wordChars_digits hds.2,
      List.forall_mem_cons.mpr ⟨by decide, wordChars_digits hes.2⟩⟩
  · obtain ⟨d, u, rfl, hd, hu⟩ := mem_identifier.mp hv
    exact List.forall_mem_cons.mpr ⟨wordChar_of_alpha hd, hu⟩
  · obtain ⟨ds, d, u, rfl, hds, hd, hu⟩ := mem_notValue.mp hv
    exact List.forall_mem_append.mpr ⟨wordChars_digits hds.2,
      List.forall_mem_cons.mpr ⟨wordChar_letter hd, hu⟩⟩

theorem length_le_of_match (hstart : isWordChar c = true) (hends : Ends rest)
    (hr : r ∈ lexerRules) (hfront : v <+: c :: w ++ rest) (hv : v ∈ r.pattern.language) :
  v.length ≤ (c :: w).length
  := by
  have hword : (∀ d ∈ v, isWordChar d = true) → v.length ≤ (c :: w).length := fun hall =>
    (prefix_of_chars hfront hall hends).length_le
  have hsingle : v.length = 1 → v.length ≤ (c :: w).length := fun hone => by
    rw [hone]
    exact Nat.succ_le_succ (Nat.zero_le _)
  have hhead : ∀ d u, v = d :: u → isWordChar d = true := by
    rintro d u rfl
    rw [(List.cons_prefix_cons.mp hfront).1]
    exact hstart
  rw [lexerRules, List.mem_append, List.mem_append] at hr
  rcases hr with (hkeyword | hoperator) | hother
  · obtain ⟨t, ht⟩ := mem_of_keywordRule hkeyword hv
    exact hword fun d hd => wordChar_of_alpha ((alpha_of_keyword _ ht).2 d hd)
  · obtain ⟨t, ht⟩ := mem_of_operatorRule hoperator hv
    exact hsingle (operator_of_mem _ ht).1
  · simp only [List.mem_cons, List.not_mem_nil, or_false] at hother
    rcases hother with rfl | rfl | rfl | rfl | rfl | rfl | rfl | rfl
    · obtain ⟨d, u, hdu, hd, -⟩ := mem_seq_chars.mp hv
      have hwordChar := hhead d u hdu
      rw [beq_iff_eq.mp hd] at hwordChar
      exact absurd hwordChar (by decide)
    · exact hword (wordChars_of_mem (.inl rfl) hv)
    · exact hword (wordChars_of_mem (.inr (.inl rfl)) hv)
    · exact hword (wordChars_of_mem (.inr (.inr (.inl rfl))) hv)
    · obtain ⟨d, rfl, -⟩ := mem_chars.mp hv
      exact hsingle rfl
    · obtain ⟨hne, hall⟩ := mem_plus.mp hv
      obtain ⟨d, u, rfl⟩ := List.exists_cons_of_ne_nil hne
      have hspace := hall d List.mem_cons_self
      have hwordChar := hhead d u rfl
      simp only [isSpaceTab, Bool.or_eq_true, beq_iff_eq] at hspace
      rcases hspace with (rfl | rfl) | rfl
      · exact absurd hwordChar (by decide)
      · exact absurd hwordChar (by decide)
      · exact absurd hwordChar (by decide)
    · exact hword (wordChars_of_mem (.inr (.inr (.inr rfl))) hv)
    · obtain ⟨d, rfl, -⟩ := mem_chars.mp hv
      exact hsingle rfl

/-! ### What is printed at the front of a text -/

theorem yylex_match {text : List Char} {action : Option Kind} {n : ℕ}
    (h : scan lexerRules text = some (action, n)) (hn : 0 < n) (hne : text ≠ []) :
  yylex text = action.toList ++ yylex (text.drop n)
  := by
  rw [yylex, lexemes_match h hn hne]
  cases action with
  | none => exact List.filterMap_cons_none rfl
  | some kind => exact List.filterMap_cons_some rfl

/-- The first rule that matches a word is taken. -/
theorem yylex_word {before after : List (Rule Char (Option Kind))} {kind : Kind}
    (hrules : lexerRules = before ++ r :: after) (haction : r.action = some kind)
    (hstart : isWordChar c = true) (hends : Ends rest) (hmem : c :: w ∈ r.pattern.language)
    (hfirst : ∀ q ∈ before, c :: w ∉ q.pattern.language) :
  yylex (c :: w ++ rest) = kind :: yylex rest
  := by
  have hscan : scan lexerRules (c :: w ++ rest) = some (some kind, (c :: w).length) := by
    have hmax : ∀ q ∈ lexerRules, ∀ v, v <+: c :: w ++ rest → v ∈ q.pattern.language →
        v.length ≤ (c :: w).length := fun q hq v =>
      length_le_of_match hstart hends hq
    rw [hrules] at hmax ⊢
    rw [scan_first (List.prefix_append _ _) hmem hmax hfirst, haction]
  rw [yylex_match hscan (Nat.succ_pos _) nofun, List.drop_left]
  rfl

theorem charType_digit (h : c.isDigit = true) :
  charType c = .digit
  := if_pos h

theorem charType_alpha (h : c.isAlpha = true) :
  charType c = .alpha
  := by
  rw [charType, if_pos h, if_neg]
  intro hdigit
  rw [isAlpha_of_isDigit hdigit] at h
  cases h

/-- The operator rules match operators only. -/
theorem not_mem_operatorRule (h : charType c ≠ .operator) :
  ∀ q ∈ operatorRules, c :: w ∉ q.pattern.language
  := by
  intro q hq hmem
  obtain ⟨t, ht⟩ := mem_of_operatorRule hq hmem
  exact h ((operator_of_mem _ ht).2 c List.mem_cons_self)

theorem not_mem_commentRule (h : charType c ≠ .comment) :
  c :: w ∉ commentRule.pattern.language
  := by
  intro hmem
  obtain ⟨d, u, heq, hd, -⟩ := mem_seq_chars.mp hmem
  cases heq
  rw [beq_iff_eq.mp hd] at h
  exact h (by decide)

theorem not_mem_keywordRule (h : charType c ≠ .alpha) :
  ∀ q ∈ keywordRules, c :: w ∉ q.pattern.language
  := by
  intro q hq hmem
  obtain ⟨t, ht⟩ := mem_of_keywordRule hq hmem
  exact h (charType_alpha ((alpha_of_keyword _ ht).2 c List.mem_cons_self))

/-- The rules before those for numbers do not match a number. -/
theorem not_mem_before_number (h : c.isDigit = true) :
  ∀ q ∈ keywordRules ++ operatorRules ++ [commentRule], c :: w ∉ q.pattern.language
  := by
  have htype := charType_digit h
  intro q hq
  rcases List.mem_append.mp hq with hq | hq
  · rcases List.mem_append.mp hq with hq | hq
    · exact not_mem_keywordRule (by rw [htype]; decide) q hq
    · exact not_mem_operatorRule (by rw [htype]; decide) q hq
  · rw [List.mem_singleton.mp hq]
    exact not_mem_commentRule (by rw [htype]; decide)

theorem yylex_valuei (hw : ∀ d ∈ c :: w, d.isDigit = true) (hends : Ends rest) :
  yylex (c :: w ++ rest) = .token valuei :: yylex rest
  := by
  have hc := hw c List.mem_cons_self
  have hrules : lexerRules = (keywordRules ++ operatorRules ++ [commentRule]) ++ valueiRule ::
      [valuefRule, identifierRule, newlineRule, whitespaceRule, notValueRule, anyRule] := rfl
  exact yylex_word hrules rfl (wordChar_of_digit hc) hends (mem_plus.mpr ⟨nofun, hw⟩)
    (not_mem_before_number hc)

theorem not_mem_valueiRule {d : Char} (hd : d ∈ w) (hnot : d.isDigit = false) :
  w ∉ valueiRule.pattern.language
  := by
  intro hmem
  have hdigit := (mem_plus.mp hmem).2 d hd
  rw [hnot] at hdigit
  cases hdigit

theorem yylex_valuef {es : List Char} (hw : ∀ d ∈ c :: w, d.isDigit = true) (hne : es ≠ [])
    (hes : ∀ d ∈ es, d.isDigit = true) (hends : Ends rest) :
  yylex (c :: (w ++ 'f' :: es) ++ rest) = .token valuef :: yylex rest
  := by
  have hc := hw c List.mem_cons_self
  have hrules : lexerRules = (keywordRules ++ operatorRules ++ [commentRule] ++ [valueiRule])
      ++ valuefRule :: [identifierRule, newlineRule, whitespaceRule, notValueRule, anyRule] := rfl
  refine yylex_word hrules rfl (wordChar_of_digit hc) hends
    (mem_valuef.mpr ⟨c :: w, es, rfl, ⟨nofun, hw⟩, hne, hes⟩) ?_
  refine List.forall_mem_append.mpr ⟨not_mem_before_number hc, ?_⟩
  exact List.forall_mem_singleton.mpr (not_mem_valueiRule (d := 'f') (by simp) (by decide))

theorem not_mem_identifier (h : c.isAlpha = false) :
  c :: w ∉ identifierRule.pattern.language
  := by
  intro hmem
  obtain ⟨d, u, heq, halpha, -⟩ := mem_identifier.mp hmem
  cases heq
  rw [h] at halpha
  cases halpha

theorem yylex_notValue (hc : c.isDigit = true) (hmem : c :: w ∈ notValueRule.pattern.language)
    (hvaluef : c :: w ∉ valuefRule.pattern.language) (hends : Ends rest) :
  yylex (c :: w ++ rest) = .syntaxError :: yylex rest
  := by
  have hrules : lexerRules = (keywordRules ++ operatorRules ++ [commentRule] ++ [valueiRule,
      valuefRule, identifierRule, newlineRule, whitespaceRule]) ++ notValueRule :: [anyRule] := rfl
  refine yylex_word hrules rfl (wordChar_of_digit hc) hends hmem ?_
  obtain ⟨ds, d, u, heq, -, hd, -⟩ := mem_notValue.mp hmem
  have hletter : d ∈ c :: w := by
    rw [heq]
    exact List.mem_append_right _ List.mem_cons_self
  have hnot : d.isDigit = false := by
    rcases Bool.or_eq_true_iff.mp hd with halpha | hunderscore
    · refine Bool.eq_false_iff.mpr fun hdigit => ?_
      rw [isAlpha_of_isDigit hdigit] at halpha
      cases halpha
    · rw [beq_iff_eq.mp hunderscore]
      decide
  refine List.forall_mem_append.mpr ⟨not_mem_before_number hc, ?_⟩
  simp only [List.forall_mem_cons, List.not_mem_nil, false_imp_iff, implies_true, and_true]
  refine ⟨not_mem_valueiRule hletter hnot, hvaluef,
    not_mem_identifier (isAlpha_of_isDigit hc), ?_, ?_⟩
  · intro hnewline
    obtain ⟨e, he, hline⟩ := mem_chars.mp hnewline
    cases he
    rw [beq_iff_eq.mp hline] at hc
    exact absurd hc (by decide)
  · intro hspace
    have hwhite := (mem_plus.mp hspace).2 c List.mem_cons_self
    simp only [isSpaceTab, Bool.or_eq_true, beq_iff_eq] at hwhite
    rcases hwhite with (rfl | rfl) | rfl
    · exact absurd hc (by decide)
    · exact absurd hc (by decide)
    · exact absurd hc (by decide)

theorem not_mem_number (h : c.isDigit = false)
    (hr : r = valueiRule ∨ r = valuefRule ∨ r = notValueRule) :
  c :: w ∉ r.pattern.language
  := by
  have hdigits : ∀ ds u, c :: w = ds ++ u → ds ≠ [] → (∀ d ∈ ds, d.isDigit = true) → False := by
    intro ds u heq hne hds
    obtain ⟨d, ds, rfl⟩ := List.exists_cons_of_ne_nil hne
    cases heq
    have hc := hds c List.mem_cons_self
    rw [h] at hc
    cases hc
  rcases hr with rfl | rfl | rfl
  · intro hmem
    obtain ⟨hne, hall⟩ := mem_plus.mp hmem
    exact hdigits _ [] (List.append_nil _).symm hne hall
  · intro hmem
    obtain ⟨ds, es, heq, hds, -⟩ := mem_valuef.mp hmem
    exact hdigits ds _ heq hds.1 hds.2
  · intro hmem
    obtain ⟨ds, d, u, heq, hds, -⟩ := mem_notValue.mp hmem
    exact hdigits ds _ heq hds.1 hds.2

theorem yylex_identifier (hc : c.isAlpha = true) (hw : ∀ d ∈ w, isWordChar d = true)
    (hends : Ends rest) :
  yylex (c :: w ++ rest) = (wordToken (c :: w)).printed :: yylex rest
  := by
  have hstart := wordChar_of_alpha hc
  have htype := charType_alpha hc
  cases hlookup : keywords.lookup (c :: w) with
  | some t =>
      obtain ⟨before, after, hkeywords, hbefore⟩ := List.lookup_eq_some_iff.mp hlookup
      have hrules : lexerRules = (before.map fun entry => ⟨literal entry.1, some (.token entry.2)⟩)
          ++ ⟨literal (c :: w), some (.token t)⟩
            :: ((after.map fun entry => ⟨literal entry.1, some (.token entry.2)⟩) ++ operatorRules
              ++ [commentRule, valueiRule, valuefRule, identifierRule, newlineRule, whitespaceRule,
                notValueRule, anyRule]) := by
        rw [lexerRules, keywordRules_eq, hkeywords, List.map_append, List.map_cons]
        simp only [List.append_assoc, List.cons_append]
      have hprinted : (wordToken (c :: w)).printed = .token t := by
        rw [wordToken, hlookup, if_pos Option.isSome_some, LispToken.printed, hlookup]
        rfl
      rw [hprinted]
      refine yylex_word hrules rfl hstart hends (mem_literal.mpr rfl) fun q hq hmem => ?_
      obtain ⟨entry, hentry, rfl⟩ := List.mem_map.mp hq
      have hne := hbefore entry hentry
      rw [mem_literal.mp hmem] at hne
      exact absurd hne (by simp)
  | none =>
      have hrules : lexerRules = (keywordRules ++ (operatorRules ++ [commentRule, valueiRule,
          valuefRule])) ++ identifierRule :: [newlineRule, whitespaceRule, notValueRule,
          anyRule] := rfl
      have hprinted : (wordToken (c :: w)).printed = .token identifier := by
        rw [wordToken, hlookup]
        rfl
      rw [hprinted]
      refine yylex_word hrules rfl hstart hends (mem_identifier.mpr ⟨c, w, rfl, hc, hw⟩) ?_
      refine List.forall_mem_append.mpr ⟨fun q hq hmem => ?_, List.forall_mem_append.mpr
        ⟨not_mem_operatorRule (by rw [htype]; decide), ?_⟩⟩
      · obtain ⟨t, ht⟩ := mem_of_keywordRule hq hmem
        have hnone := List.lookup_eq_none_iff.mp hlookup _ ht
        simp at hnone
      · have hdigit : c.isDigit = false := by
          refine Bool.eq_false_iff.mpr fun hdigit => ?_
          rw [isAlpha_of_isDigit hdigit] at hc
          cases hc
        simp only [List.forall_mem_cons, List.not_mem_nil, false_imp_iff, implies_true, and_true]
        exact ⟨not_mem_commentRule (by rw [htype]; decide), not_mem_number hdigit (.inl rfl),
          not_mem_number hdigit (.inr (.inl rfl))⟩

/-- The characters that no rule for words, numbers, comments or white space starts with. -/
def Alone (c : Char) : Prop :=
  (charType c = .operator ∨ charType c = .underscore ∨ charType c = .unknown) ∧ c ≠ '\r'

theorem Alone.ne (h : Alone c) :
  charType c ≠ .alpha ∧ charType c ≠ .digit ∧ charType c ≠ .comment ∧ charType c ≠ .whitespace
  := by
  rcases h.1 with htype | htype | htype
  · rw [htype]
    decide
  · rw [htype]
    decide
  · rw [htype]
    decide

theorem Alone.not_alpha (h : Alone c) :
  c.isAlpha = false
  := Bool.eq_false_iff.mpr fun halpha => h.ne.1 (charType_alpha halpha)

theorem Alone.not_digit (h : Alone c) :
  c.isDigit = false
  := Bool.eq_false_iff.mpr fun hdigit => h.ne.2.1 (charType_digit hdigit)

theorem Alone.not_space (h : Alone c) :
  c ≠ ' ' ∧ c ≠ '\t' ∧ c ≠ '\n'
  := by
  have hne := h.ne.2.2.2
  refine ⟨?_, ?_, ?_⟩
  · rintro rfl
    exact hne (by decide)
  · rintro rfl
    exact hne (by decide)
  · rintro rfl
    exact hne (by decide)

theorem Alone.not_mem_whitespaceRule (h : Alone c) :
  c :: w ∉ whitespaceRule.pattern.language
  := by
  intro hmem
  have hwhite := (mem_plus.mp hmem).2 c List.mem_cons_self
  simp only [isSpaceTab, Bool.or_eq_true, beq_iff_eq] at hwhite
  rcases hwhite with (heq | heq) | heq
  · exact h.not_space.1 heq
  · exact h.not_space.2.1 heq
  · exact h.2 heq

/-- Such a character is matched alone. -/
theorem Alone.length_le (h : Alone c) (hr : r ∈ lexerRules) (hfront : v <+: c :: rest)
    (hv : v ∈ r.pattern.language) :
  v.length ≤ 1
  := by
  cases v with
  | nil => exact Nat.zero_le 1
  | cons d u =>
      obtain ⟨rfl, -⟩ := List.cons_prefix_cons.mp hfront
      rw [lexerRules, List.mem_append, List.mem_append] at hr
      rcases hr with (hkeyword | hoperator) | hother
      · exact absurd hv (not_mem_keywordRule h.ne.1 _ hkeyword)
      · obtain ⟨t, ht⟩ := mem_of_operatorRule hoperator hv
        exact (operator_of_mem _ ht).1.le
      · simp only [List.mem_cons, List.not_mem_nil, or_false] at hother
        rcases hother with rfl | rfl | rfl | rfl | rfl | rfl | rfl | rfl
        · exact absurd hv (not_mem_commentRule h.ne.2.2.1)
        · exact absurd hv (not_mem_number h.not_digit (.inl rfl))
        · exact absurd hv (not_mem_number h.not_digit (.inr (.inl rfl)))
        · exact absurd hv (not_mem_identifier h.not_alpha)
        · obtain ⟨e, he, -⟩ := mem_chars.mp hv
          rw [he, List.length_singleton]
        · exact absurd hv h.not_mem_whitespaceRule
        · exact absurd hv (not_mem_number h.not_digit (.inr (.inr rfl)))
        · obtain ⟨e, he, -⟩ := mem_chars.mp hv
          rw [he, List.length_singleton]

/-- The first rule that matches such a character is taken. -/
theorem Alone.yylex_cons (h : Alone c) {before after : List (Rule Char (Option Kind))} {kind : Kind}
    (hrules : lexerRules = before ++ r :: after) (haction : r.action = some kind)
    (hmem : [c] ∈ r.pattern.language) (hfirst : ∀ q ∈ before, [c] ∉ q.pattern.language) :
  yylex (c :: rest) = kind :: yylex rest
  := by
  have hscan : scan lexerRules (c :: rest) = some (some kind, 1) := by
    have hmax : ∀ q ∈ lexerRules, ∀ v, v <+: c :: rest → v ∈ q.pattern.language →
        v.length ≤ [c].length := fun q hq v => h.length_le hq
    rw [hrules] at hmax ⊢
    rw [← haction]
    exact scan_first (List.prefix_append [c] rest) hmem hmax hfirst
  rw [yylex_match hscan Nat.one_pos nofun]
  rfl

theorem lookup_operators (h : charType c = .operator) :
  ∃ t, operators.lookup [c] = some t
  := by
  have hall : ['+', '-', '*', '/', '(', ')', ','].all
      (fun d => (operators.lookup [d]).isSome) = true := by
    decide
  have hmem : c ∈ ['+', '-', '*', '/', '(', ')', ','] := by
    by_contra hnot
    rw [charType] at h
    grind
  exact Option.isSome_iff_exists.mp (List.all_eq_true.mp hall c hmem)

theorem yylex_operator (h : charType c = .operator) :
  yylex (c :: rest) = (operatorToken c).printed :: yylex rest
  := by
  have halone : Alone c := by
    refine ⟨.inl h, ?_⟩
    rintro rfl
    exact absurd h (by decide)
  obtain ⟨t, hlookup⟩ := lookup_operators h
  obtain ⟨before, after, hoperators, hbefore⟩ := List.lookup_eq_some_iff.mp hlookup
  have hrules : lexerRules = (keywordRules
      ++ (before.map fun entry => ⟨literal entry.1, some (.token entry.2)⟩))
        ++ ⟨literal [c], some (.token t)⟩
          :: ((after.map fun entry => ⟨literal entry.1, some (.token entry.2)⟩)
            ++ [commentRule, valueiRule, valuefRule, identifierRule, newlineRule, whitespaceRule,
              notValueRule, anyRule]) := by
    rw [lexerRules, operatorRules_eq, hoperators, List.map_append, List.map_cons]
    simp only [List.append_assoc, List.cons_append]
  have hprinted : (operatorToken c).printed = .token t := by
    rw [operatorToken, LispToken.printed, hlookup]
    rfl
  rw [hprinted]
  refine halone.yylex_cons hrules rfl (mem_literal.mpr rfl)
    (List.forall_mem_append.mpr ⟨not_mem_keywordRule halone.ne.1, fun q hq hmem => ?_⟩)
  obtain ⟨entry, hentry, rfl⟩ := List.mem_map.mp hq
  have hne := hbefore entry hentry
  rw [mem_literal.mp hmem] at hne
  exact absurd hne (by simp)

theorem yylex_error (h : Alone c) (hne : charType c ≠ .operator) :
  yylex (c :: rest) = .syntaxError :: yylex rest
  := by
  have hrules : lexerRules = (keywordRules ++ (operatorRules ++ [commentRule, valueiRule,
      valuefRule, identifierRule, newlineRule, whitespaceRule, notValueRule])) ++ [anyRule] := rfl
  refine h.yylex_cons hrules rfl ⟨c, rfl, bne_iff_ne.mpr h.not_space.2.2⟩ ?_
  refine List.forall_mem_append.mpr ⟨not_mem_keywordRule h.ne.1, List.forall_mem_append.mpr
    ⟨not_mem_operatorRule hne, ?_⟩⟩
  simp only [List.forall_mem_cons, List.not_mem_nil, false_imp_iff, implies_true, and_true]
  refine ⟨not_mem_commentRule h.ne.2.2.1, not_mem_number h.not_digit (.inl rfl),
    not_mem_number h.not_digit (.inr (.inl rfl)), not_mem_identifier h.not_alpha, ?_,
    h.not_mem_whitespaceRule, not_mem_number h.not_digit (.inr (.inr rfl))⟩
  intro hmem
  obtain ⟨e, he, hline⟩ := mem_chars.mp hmem
  cases he
  exact h.not_space.2.2 (beq_iff_eq.mp hline)

theorem yylex_comment (h : ∀ d ∈ rest, d ≠ '\n') :
  yylex (';' :: rest) = [.comment]
  := by
  have hmem : ';' :: rest ∈ commentRule.pattern.language :=
    mem_seq_chars.mpr ⟨';', rest, rfl, rfl, mem_star_chars.mpr fun d hd => bne_iff_ne.mpr (h d hd)⟩
  have hrules : lexerRules = (keywordRules ++ operatorRules) ++ commentRule ::
      [valueiRule, valuefRule, identifierRule, newlineRule, whitespaceRule, notValueRule,
        anyRule] := rfl
  have hscan : scan lexerRules (';' :: rest) = some (some .comment, (';' :: rest).length) := by
    rw [hrules]
    refine scan_first (List.prefix_refl _) hmem (fun q _ v hv _ => hv.length_le) ?_
    exact List.forall_mem_append.mpr ⟨not_mem_keywordRule (by decide),
      not_mem_operatorRule (by decide)⟩
  rw [yylex_match hscan (Nat.succ_pos _) nofun, List.drop_length]
  rfl

theorem charType_space (h : isSpaceTab c = true) :
  charType c ≠ .alpha ∧ charType c ≠ .operator ∧ charType c ≠ .comment
    ∧ c.isDigit = false ∧ c.isAlpha = false
  := by
  simp only [isSpaceTab, Bool.or_eq_true, beq_iff_eq] at h
  rcases h with (rfl | rfl) | rfl
  · decide
  · decide
  · decide

/-- White space prints nothing. -/
theorem yylex_spaces (hne : w ≠ []) (hw : ∀ d ∈ w, isSpaceTab d = true)
    (hends : ∀ d ∈ rest.head?, isSpaceTab d = false) :
  yylex (w ++ rest) = yylex rest
  := by
  obtain ⟨c, w, rfl⟩ := List.exists_cons_of_ne_nil hne
  obtain ⟨halpha, hoperator, hcomment, hdigit, hletter⟩ := charType_space (hw c List.mem_cons_self)
  have hrules : lexerRules = (keywordRules ++ (operatorRules ++ [commentRule, valueiRule,
      valuefRule, identifierRule, newlineRule])) ++ whitespaceRule ::
      [notValueRule, anyRule] := rfl
  have hmax : ∀ q ∈ lexerRules, ∀ v, v <+: c :: w ++ rest → v ∈ q.pattern.language →
      v.length ≤ (c :: w).length := by
    intro q hq v hfront hv
    have hsingle : v.length = 1 → v.length ≤ (c :: w).length := fun hone => by
      rw [hone]
      exact Nat.succ_le_succ (Nat.zero_le _)
    cases v with
    | nil => exact Nat.zero_le _
    | cons d u =>
        obtain ⟨rfl, -⟩ := List.cons_prefix_cons.mp hfront
        rw [lexerRules, List.mem_append, List.mem_append] at hq
        rcases hq with (hkeyword | hoperators) | hother
        · exact absurd hv (not_mem_keywordRule halpha _ hkeyword)
        · exact absurd hv (not_mem_operatorRule hoperator _ hoperators)
        · simp only [List.mem_cons, List.not_mem_nil, or_false] at hother
          rcases hother with rfl | rfl | rfl | rfl | rfl | rfl | rfl | rfl
          · exact absurd hv (not_mem_commentRule hcomment)
          · exact absurd hv (not_mem_number hdigit (.inl rfl))
          · exact absurd hv (not_mem_number hdigit (.inr (.inl rfl)))
          · exact absurd hv (not_mem_identifier hletter)
          · obtain ⟨e, he, -⟩ := mem_chars.mp hv
            exact hsingle (by rw [he, List.length_singleton])
          · exact (prefix_of_chars hfront (mem_plus.mp hv).2 hends).length_le
          · exact absurd hv (not_mem_number hdigit (.inr (.inr rfl)))
          · obtain ⟨e, he, -⟩ := mem_chars.mp hv
            exact hsingle (by rw [he, List.length_singleton])
  have hscan : scan lexerRules (c :: w ++ rest) = some (none, (c :: w).length) := by
    rw [hrules] at hmax ⊢
    refine scan_first (List.prefix_append _ _) (mem_plus.mpr ⟨nofun, hw⟩) hmax ?_
    refine List.forall_mem_append.mpr ⟨not_mem_keywordRule halpha, List.forall_mem_append.mpr
      ⟨not_mem_operatorRule hoperator, ?_⟩⟩
    simp only [List.forall_mem_cons, List.not_mem_nil, false_imp_iff, implies_true, and_true]
    refine ⟨not_mem_commentRule hcomment, not_mem_number hdigit (.inl rfl),
      not_mem_number hdigit (.inr (.inl rfl)), not_mem_identifier hletter, fun hmem => ?_⟩
    obtain ⟨e, he, hline⟩ := mem_chars.mp hmem
    cases he
    have hspace := hw c List.mem_cons_self
    rw [beq_iff_eq.mp hline] at hspace
    exact absurd hspace (by decide)
  rw [yylex_match hscan (Nat.succ_pos _) nofun, List.drop_left]
  rfl

theorem yylex_whitespace (h : isSpaceTab c = true) :
  yylex (c :: rest) = yylex rest
  := by
  have hsplit := List.takeWhile_append_dropWhile (p := isSpaceTab) (l := rest)
  have hends : ∀ d ∈ (rest.dropWhile isSpaceTab).head?, isSpaceTab d = false := by
    intro d hd
    have hhead := List.head?_dropWhile_not isSpaceTab rest
    rw [hd] at hhead
    exact hhead
  have hcons := yylex_spaces (w := c :: rest.takeWhile isSpaceTab) nofun
    (List.forall_mem_cons.mpr ⟨h, fun d hd => List.mem_takeWhile_imp hd⟩) hends
  rw [List.cons_append, hsplit] at hcons
  rw [hcons]
  cases hrun : rest.takeWhile isSpaceTab with
  | nil =>
      rw [hrun, List.nil_append] at hsplit
      rw [hsplit]
  | cons e run =>
      have hrest := yylex_spaces (w := rest.takeWhile isSpaceTab) (by rw [hrun]; nofun)
        (fun d hd => List.mem_takeWhile_imp hd) hends
      rw [hsplit] at hrest
      exact hrest.symm

end Gpp
