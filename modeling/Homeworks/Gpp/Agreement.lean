import Homeworks.Gpp.Lexer

/-!
# The two lexers of G++

The two lexers agree on a line exactly when the words and numbers in it end with an operator or
white space.
-/

open Regex

namespace Gpp

/-- Printable characters, spaces and tabs. -/
def Plain (c : Char) : Prop := c = '\t' ∨ (32 ≤ c.toNat ∧ c.toNat ≤ 126)

instance : DecidablePred Plain := fun _ => inferInstanceAs (Decidable (_ ∨ _))

def upToError (kinds : List Kind) : List Kind := kinds.takeWhile (· ≠ .syntaxError)

/-- The kinds agree up to the first syntax error, and both have one or none has. -/
def Agree (kinds kinds' : List Kind) : Prop :=
  upToError kinds = upToError kinds' ∧ (.syntaxError ∈ kinds ↔ .syntaxError ∈ kinds')

/-- Where in a line a character is. -/
inductive Place where
  /-- not in a word or number -/
  | between
  /-- in a word -/
  | word
  /-- in the digits of a number -/
  | number
  /-- after the `f` that follows the digits -/
  | afterF
  /-- in the digits after the `f` -/
  | fraction

/-- Up to the first comment or error, words and numbers are followed by an operator or white space,
and an `f` after digits neither by these nor by the end of the line. -/
def separated : Place → List Char → Bool
  | .between, [] => true
  | _, [] => false
  | .between, c :: cs =>
    match charType c with
    | .alpha => separated .word cs
    | .digit => separated .number cs
    | .operator | .whitespace => separated .between cs
    | _ => true
  | .word, c :: cs =>
    match charType c with
    | .alpha | .digit | .underscore => separated .word cs
    | .operator | .whitespace => separated .between cs
    | _ => false
  | .number, c :: cs =>
    if c = 'f' then separated .afterF cs
    else match charType c with
    | .digit => separated .number cs
    | .alpha | .underscore => true
    | .operator | .whitespace => separated .between cs
    | _ => false
  | .afterF, c :: cs =>
    match charType c with
    | .digit => separated .fraction cs
    | .operator | .whitespace => false
    | _ => true
  | .fraction, c :: cs =>
    match charType c with
    | .digit => separated .fraction cs
    | .alpha | .underscore => true
    | .operator | .whitespace => separated .between cs
    | _ => false

/-! ### Agreement -/

variable {kind : Kind} {kinds kinds' : List Kind}

theorem agree_cons (h : kind ≠ .syntaxError) :
  Agree (kind :: kinds) (kind :: kinds') ↔ Agree kinds kinds'
  := by
  rw [Agree, Agree, upToError, upToError, List.takeWhile_cons_of_pos (by simpa using h),
    List.takeWhile_cons_of_pos (by simpa using h)]
  simp [h.symm, upToError]

theorem agree_error :
  Agree (.syntaxError :: kinds) (.syntaxError :: kinds')
  := by
  simp [Agree, upToError]

theorem not_agree_nil :
  ¬ Agree [] (kind :: kinds)
  := by
  rintro ⟨hkinds, herror⟩
  by_cases hkind : kind = .syntaxError
  · exact absurd (herror.mpr (by simp [hkind])) List.not_mem_nil
  · rw [upToError, upToError, List.takeWhile_cons_of_pos (by simpa using hkind)] at hkinds
    cases hkinds

theorem not_agree_left (h : kind ≠ .syntaxError) :
  ¬ Agree (.syntaxError :: kinds) (kind :: kinds')
  := by
  rintro ⟨hkinds, -⟩
  rw [upToError, upToError, List.takeWhile_cons_of_pos (a := kind) (by simpa using h)] at hkinds
  cases hkinds

theorem not_agree_right (h : kind ≠ .syntaxError) :
  ¬ Agree (kind :: kinds) (.syntaxError :: kinds')
  := by
  rintro ⟨hkinds, -⟩
  rw [upToError, upToError, List.takeWhile_cons_of_pos (a := kind) (by simpa using h)] at hkinds
  cases hkinds

/-! ### Words -/

variable {c : Char} {w cs input : List Char}

theorem separated_between :
  separated .between (c :: cs) = match charType c with
    | .alpha => separated .word cs
    | .digit => separated .number cs
    | .operator | .whitespace => separated .between cs
    | _ => true
  := rfl

theorem separated_word :
  separated .word (c :: cs) = match charType c with
    | .alpha | .digit | .underscore => separated .word cs
    | .operator | .whitespace => separated .between cs
    | _ => false
  := rfl

theorem separated_number :
  separated .number (c :: cs) = if c = 'f' then separated .afterF cs else match charType c with
    | .digit => separated .number cs
    | .alpha | .underscore => true
    | .operator | .whitespace => separated .between cs
    | _ => false
  := rfl

theorem separated_afterF :
  separated .afterF (c :: cs) = match charType c with
    | .digit => separated .fraction cs
    | .operator | .whitespace => false
    | _ => true
  := rfl

theorem separated_fraction :
  separated .fraction (c :: cs) = match charType c with
    | .digit => separated .fraction cs
    | .alpha | .underscore => true
    | .operator | .whitespace => separated .between cs
    | _ => false
  := rfl

theorem isWordChar_iff :
  isWordChar c = true ↔ charType c = .alpha ∨ charType c = .digit ∨ charType c = .underscore
  := by
  simp only [isWordChar, Char.isAlphanum, charType, Bool.or_eq_true, beq_iff_eq]
  grind

theorem Plain.ne (h : Plain c) :
  c ≠ '\n' ∧ c ≠ '\r'
  := by
  constructor
  · rintro rfl
    exact absurd h (by unfold Plain; decide)
  · rintro rfl
    exact absurd h (by unfold Plain; decide)

theorem Plain.isSpaceTab (h : Plain c) (htype : charType c = .whitespace) :
  isSpaceTab c = true
  := by
  have hmem : c ∈ [' ', '\t', '\n'] := by
    by_contra hnot
    rw [charType] at htype
    grind
  simp only [List.mem_cons, List.not_mem_nil, or_false] at hmem
  rcases hmem with rfl | rfl | rfl
  · decide
  · decide
  · exact absurd rfl h.ne.1

theorem Ends.cons (cs : List Char)
    (h : charType c ≠ .alpha ∧ charType c ≠ .digit ∧ charType c ≠ .underscore) :
  Ends (c :: cs)
  := by
  intro d hd
  cases hd
  refine Bool.eq_false_iff.mpr fun hword => ?_
  rcases isWordChar_iff.mp hword with htype | htype | htype
  · exact h.1 htype
  · exact h.2.1 htype
  · exact h.2.2 htype

theorem ends_nil :
  Ends []
  := nofun

theorem takeWhile_of_ends (h : Ends cs) :
  cs.takeWhile isWordChar = []
  := by
  cases cs with
  | nil => rfl
  | cons c cs =>
      have hc := h c rfl
      exact List.takeWhile_cons_of_neg (by rw [hc]; nofun)

theorem mem_takeWhile_cons (h : isWordChar c = true) :
  c ∈ (c :: cs).takeWhile isWordChar
  := by
  rw [List.takeWhile_cons_of_pos h]
  exact List.mem_cons_self

theorem printed_wordToken_ne :
  (wordToken w).printed ≠ .syntaxError
  := by
  rw [wordToken]
  split
  · rename_i hsome
    obtain ⟨t, ht⟩ := Option.isSome_iff_exists.mp hsome
    rw [LispToken.printed, ht]
    simp
  · simp [LispToken.printed]

theorem printed_operatorToken_ne :
  (operatorToken c).printed ≠ .syntaxError
  := by
  rw [operatorToken, LispToken.printed]
  cases operators.lookup [c] <;> simp

/-- What the tokenizer prints from a state on. -/
def printedFrom (input : List Char) (state : LexState) (current cs : List Char) : List Kind :=
  (tokenizeLoop input state current cs).map LispToken.printed

/-- A word that ends is printed by both lexers, and they agree if they agree on the rest. -/
theorem agree_endWord {state : LexState} (token : List Char → LispToken) {current : List Char}
    {place : Place} (hstep : lexStep input state current c = endWord token current c)
    (hkind : (token current).printed ≠ .syntaxError)
    (hyylex : yylex (current ++ c :: cs) = (token current).printed :: yylex (c :: cs))
    (hseparated : separated place (c :: cs) = match charType c with
      | .operator | .whitespace => separated .between cs
      | _ => false)
    (hplain : Plain c)
    (ih : Agree (printedFrom input .start [] cs) (yylex cs) ↔ separated .between cs = true) :
  Agree (printedFrom input state current (c :: cs)) (yylex (current ++ c :: cs))
    ↔ separated place (c :: cs) = true
  := by
  rw [printedFrom, tokenizeLoop, hstep, hyylex, hseparated, endWord]
  cases htype : charType c with
  | operator =>
      simp only [List.map_cons, List.cons_append, List.nil_append]
      rw [yylex_operator htype, agree_cons hkind, agree_cons printed_operatorToken_ne]
      exact ih
  | whitespace =>
      simp only [List.map_cons, List.cons_append, List.nil_append]
      rw [yylex_whitespace (hplain.isSpaceTab htype), agree_cons hkind]
      exact ih
  | digit | alpha | underscore | comment | unknown =>
      exact iff_of_false (not_agree_left hkind) nofun

/-- The lexers agree on the characters from each place on. -/
structure Simulated (input cs : List Char) : Prop where
  between : Agree (printedFrom input .start [] cs) (yylex cs) ↔ separated .between cs = true
  word : ∀ c w, c.isAlpha = true → (∀ d ∈ w, isWordChar d = true) →
    (Agree (printedFrom input .identifier (c :: w) cs) (yylex (c :: w ++ cs))
      ↔ separated .word cs = true)
  number : ∀ c w, (∀ d ∈ c :: w, d.isDigit = true) →
    (Agree (printedFrom input .integer (c :: w) cs) (yylex (c :: w ++ cs))
      ↔ separated .number cs = true)
  afterF : ∀ c w, (∀ d ∈ c :: w, d.isDigit = true) →
    (Agree (printedFrom input .fraction (c :: w ++ ['f']) cs) (yylex (c :: w ++ ['f'] ++ cs))
      ↔ separated .afterF cs = true)
  fraction : ∀ c w es, (∀ d ∈ c :: w, d.isDigit = true) → es ≠ [] → (∀ d ∈ es, d.isDigit = true) →
    (Agree (printedFrom input .fraction (c :: (w ++ 'f' :: es)) cs)
        (yylex (c :: (w ++ 'f' :: es) ++ cs))
      ↔ separated .fraction cs = true)

theorem printedFrom_goes_on {state state' : LexState} {current current' : List Char}
    (h : lexStep input state current c = ([], some (state', current'))) :
  printedFrom input state current (c :: cs) = printedFrom input state' current' cs
  := by
  rw [printedFrom, tokenizeLoop, h]
  rfl

theorem printedFrom_error {state : LexState} {current value : List Char}
    (h : lexStep input state current c = ([.error value], none)) :
  printedFrom input state current (c :: cs) = [.syntaxError]
  := by
  rw [printedFrom, tokenizeLoop, h]
  rfl

theorem simulated_word (hplain : Plain c) (ih : Simulated input cs) {e : Char}
    (he : e.isAlpha = true) (hw : ∀ d ∈ w, isWordChar d = true) :
  Agree (printedFrom input .identifier (e :: w) (c :: cs)) (yylex (e :: w ++ c :: cs))
    ↔ separated .word (c :: cs) = true
  := by
  by_cases hword : isWordChar c = true
  · have htype := isWordChar_iff.mp hword
    have hstep : lexStep input .identifier (e :: w) c
        = ([], some (.identifier, e :: (w ++ [c]))) := by
      refine if_pos ?_
      rcases htype with htype | htype | htype
      · exact .inl htype
      · exact .inr (.inl htype)
      · exact .inr (.inr htype)
    have hplace : separated .word (c :: cs) = separated .word cs := by
      rcases htype with htype | htype | htype
      · rw [separated_word, htype]
      · rw [separated_word, htype]
      · rw [separated_word, htype]
    rw [printedFrom_goes_on hstep, hplace, ← ih.word e (w ++ [c]) he
      (List.forall_mem_append.mpr ⟨hw, List.forall_mem_singleton.mpr hword⟩)]
    rw [List.cons_append, List.cons_append, List.append_assoc]
    rfl
  · have htype : ¬ (charType c = .alpha ∨ charType c = .digit ∨ charType c = .underscore) :=
      fun htype => hword (isWordChar_iff.mpr htype)
    have hends : Ends (c :: cs) := Ends.cons cs (not_or.mp htype |>.imp_right not_or.mp)
    refine agree_endWord wordToken (if_neg htype) printed_wordToken_ne
      (yylex_identifier he hw hends) ?_ hplain ih.between
    cases hc : charType c with
    | alpha => exact absurd (.inl hc) htype
    | digit => exact absurd (.inr (.inl hc)) htype
    | underscore => exact absurd (.inr (.inr hc)) htype
    | operator | whitespace | comment | unknown => rw [separated_word, hc]

/-- Digits and a letter that do not make up a number are an error. -/
theorem yylex_badNumber {e : Char} (hw : ∀ d ∈ e :: w, d.isDigit = true)
    (hc : (c.isAlpha || c == '_') = true)
    (hbad : c = 'f' → cs.takeWhile isWordChar = []
      ∨ ∃ d ∈ cs.takeWhile isWordChar, d.isDigit = false) :
  ∃ rest, yylex (e :: w ++ c :: cs) = .syntaxError :: rest
  := by
  have hends : Ends (cs.dropWhile isWordChar) := by
    intro d hd
    have hhead := List.head?_dropWhile_not isWordChar cs
    rw [hd] at hhead
    exact hhead
  have hnotDigit : c.isDigit = false := by
    refine Bool.eq_false_iff.mpr fun hdigit => ?_
    rcases Bool.or_eq_true_iff.mp hc with halpha | hunderscore
    · rw [isAlpha_of_isDigit hdigit] at halpha
      cases halpha
    · rw [beq_iff_eq.mp hunderscore] at hdigit
      cases hdigit
  have hmem : e :: (w ++ c :: cs.takeWhile isWordChar) ∈ notValueRule.pattern.language :=
    mem_notValue.mpr ⟨e :: w, c, _, rfl, ⟨nofun, hw⟩, hc, fun d hd => List.mem_takeWhile_imp hd⟩
  have hvaluef : e :: (w ++ c :: cs.takeWhile isWordChar) ∉ valuefRule.pattern.language := by
    intro hmem
    obtain ⟨ds, es, heq, hds, hne, hes⟩ := mem_valuef.mp hmem
    have hfront := congrArg (List.dropWhile Char.isDigit) heq
    rw [← List.cons_append, List.dropWhile_append_of_pos hw, List.dropWhile_append_of_pos hds.2,
      List.dropWhile_cons_of_neg (by rw [hnotDigit]; nofun),
      List.dropWhile_cons_of_neg (by decide)] at hfront
    cases hfront
    rcases hbad rfl with hnil | ⟨d, hd, hdigit⟩
    · exact hne hnil
    · rw [hes d hd] at hdigit
      cases hdigit
  have hyylex := yylex_notValue (hw e List.mem_cons_self) hmem hvaluef hends
  rw [List.cons_append, List.append_assoc, List.cons_append, List.takeWhile_append_dropWhile]
    at hyylex
  exact ⟨_, hyylex⟩

theorem isLetter_of_charType (h : charType c = .alpha ∨ charType c = .underscore) :
  (c.isAlpha || c == '_') = true ∧ c.isDigit = false ∧ isWordChar c = true
  := by
  have hword : isWordChar c = true := by
    rcases h with htype | htype
    · exact isWordChar_iff.mpr (.inl htype)
    · exact isWordChar_iff.mpr (.inr (.inr htype))
  have hdigit : c.isDigit = false := by
    refine Bool.eq_false_iff.mpr fun hdigit => ?_
    rw [charType_digit hdigit] at h
    rcases h with htype | htype
    · cases htype
    · cases htype
  refine ⟨?_, hdigit, hword⟩
  rw [isWordChar, Char.isAlphanum, hdigit, Bool.or_false] at hword
  exact hword

theorem isDigit_of_charType (h : charType c = .digit) :
  c.isDigit = true
  := by
  by_contra hnot
  rw [charType] at h
  grind

theorem simulated_number (hplain : Plain c) (ih : Simulated input cs) {e : Char}
    (hw : ∀ d ∈ e :: w, d.isDigit = true) :
  Agree (printedFrom input .integer (e :: w) (c :: cs)) (yylex (e :: w ++ c :: cs))
    ↔ separated .number (c :: cs) = true
  := by
  by_cases hf : c = 'f'
  · subst hf
    have hstep : lexStep input .integer (e :: w) 'f' = ([], some (.fraction, e :: w ++ ['f'])) :=
      rfl
    have hafter := ih.afterF e w hw
    rw [List.append_assoc, List.singleton_append] at hafter
    rw [printedFrom_goes_on hstep, hafter]
    rfl
  · cases htype : charType c with
    | digit =>
        have hdigit := isDigit_of_charType htype
        have hstep : lexStep input .integer (e :: w) c
            = ([], some (.integer, e :: (w ++ [c]))) := if_pos htype
        have hmore := ih.number e (w ++ [c]) (by
          rw [← List.cons_append]
          exact List.forall_mem_append.mpr ⟨hw, List.forall_mem_singleton.mpr hdigit⟩)
        rw [List.cons_append, List.append_assoc, List.singleton_append] at hmore
        rw [printedFrom_goes_on hstep, separated_number, if_neg hf, htype, List.cons_append, hmore]
    | alpha | underscore =>
        obtain ⟨hletter, -, -⟩ := isLetter_of_charType (c := c) (by rw [htype]; decide)
        obtain ⟨rest, hyylex⟩ := yylex_badNumber hw hletter fun h => absurd h hf
        have hstep : lexStep input .integer (e :: w) c = ([.error (e :: w ++ [c])], none) := by
          rw [lexStep, endWord, htype]
          exact if_neg nofun |>.trans (if_neg hf)
        rw [printedFrom_error hstep, hyylex, separated_number, if_neg hf, htype]
        exact iff_of_true agree_error rfl
    | operator | whitespace | comment | unknown =>
        have hends : Ends (c :: cs) := Ends.cons cs (by rw [htype]; decide)
        have hstep : lexStep input .integer (e :: w) c = endWord .valuei (e :: w) c := by
          rw [lexStep, htype]
          exact if_neg nofun |>.trans (if_neg hf)
        refine agree_endWord .valuei hstep nofun (yylex_valuei hw hends) ?_ hplain
          ih.between
        rw [separated_number, if_neg hf, htype]

theorem simulated_afterF (ih : Simulated input cs) {e : Char}
    (hw : ∀ d ∈ e :: w, d.isDigit = true) :
  Agree (printedFrom input .fraction (e :: w ++ ['f']) (c :: cs))
      (yylex (e :: w ++ ['f'] ++ c :: cs))
    ↔ separated .afterF (c :: cs) = true
  := by
  rw [List.append_assoc, List.singleton_append]
  cases htype : charType c with
  | digit =>
      have hdigit := isDigit_of_charType htype
      have hstep : lexStep input .fraction (e :: w ++ ['f']) c
          = ([], some (.fraction, e :: (w ++ ['f', c]))) := by
        refine (if_pos htype).trans ?_
        rw [List.cons_append, List.cons_append, List.append_assoc]
        rfl
      have hmore := ih.fraction e w [c] hw nofun (List.forall_mem_singleton.mpr hdigit)
      rw [printedFrom_goes_on hstep, separated_afterF, htype, ← hmore, List.cons_append,
        List.cons_append,
        List.append_assoc]
      rfl
  | alpha | underscore =>
      obtain ⟨-, hdigit, hword⟩ := isLetter_of_charType (c := c) (by rw [htype]; decide)
      obtain ⟨rest, hyylex⟩ := yylex_badNumber (c := 'f') hw (by decide) fun _ =>
        .inr ⟨c, mem_takeWhile_cons hword, hdigit⟩
      have hstep : lexStep input .fraction (e :: w ++ ['f']) c
          = ([.error (e :: w ++ ['f'] ++ [c])], none) := by
        rw [lexStep, endWord, htype]
        rfl
      rw [printedFrom_error hstep, hyylex, separated_afterF, htype]
      exact iff_of_true agree_error rfl
  | operator | whitespace =>
      obtain ⟨rest, hyylex⟩ := yylex_badNumber (c := 'f') hw (by decide) fun _ =>
        .inl (takeWhile_of_ends (Ends.cons (c := c) cs (by rw [htype]; decide)))
      rw [hyylex, separated_afterF, htype, printedFrom, tokenizeLoop, lexStep, endWord, htype]
      exact iff_of_false (not_agree_right nofun) nofun
  | comment | unknown =>
      obtain ⟨rest, hyylex⟩ := yylex_badNumber (c := 'f') hw (by decide) fun _ =>
        .inl (takeWhile_of_ends (Ends.cons (c := c) cs (by rw [htype]; decide)))
      rw [hyylex, separated_afterF, htype, printedFrom, tokenizeLoop, lexStep, endWord, htype]
      exact iff_of_true agree_error rfl

theorem simulated_fraction (hplain : Plain c) (ih : Simulated input cs) {e : Char} {es : List Char}
    (hw : ∀ d ∈ e :: w, d.isDigit = true) (hne : es ≠ []) (hes : ∀ d ∈ es, d.isDigit = true) :
  Agree (printedFrom input .fraction (e :: (w ++ 'f' :: es)) (c :: cs))
      (yylex (e :: (w ++ 'f' :: es) ++ c :: cs))
    ↔ separated .fraction (c :: cs) = true
  := by
  cases htype : charType c with
  | digit =>
      have hdigit := isDigit_of_charType htype
      have hstep : lexStep input .fraction (e :: (w ++ 'f' :: es)) c
          = ([], some (.fraction, e :: (w ++ 'f' :: (es ++ [c])))) := by
        refine (if_pos htype).trans ?_
        rw [List.cons_append, List.append_assoc]
        rfl
      have hmore := ih.fraction e w (es ++ [c]) hw (by simp)
        (List.forall_mem_append.mpr ⟨hes, List.forall_mem_singleton.mpr hdigit⟩)
      rw [printedFrom_goes_on hstep, separated_fraction, htype, ← hmore]
      simp only [List.cons_append, List.append_assoc, List.nil_append]
  | alpha | underscore =>
      obtain ⟨-, hdigit, hword⟩ := isLetter_of_charType (c := c) (by rw [htype]; decide)
      have hrun : c ∈ (es ++ c :: cs).takeWhile isWordChar := by
        rw [List.takeWhile_append_of_pos (wordChars_digits hes), List.takeWhile_cons_of_pos hword]
        exact List.mem_append_right _ List.mem_cons_self
      obtain ⟨rest, hyylex⟩ := yylex_badNumber (c := 'f') hw (by decide) fun _ =>
        .inr ⟨c, hrun, hdigit⟩
      have hstep : lexStep input .fraction (e :: (w ++ 'f' :: es)) c
          = ([.error (e :: (w ++ 'f' :: es) ++ [c])], none) := by
        rw [lexStep, endWord, htype]
        rfl
      have htext : e :: (w ++ 'f' :: es) ++ c :: cs = e :: w ++ 'f' :: (es ++ c :: cs) := by
        simp only [List.cons_append, List.append_assoc]
      rw [printedFrom_error hstep, htext, hyylex, separated_fraction, htype]
      exact iff_of_true agree_error rfl
  | operator | whitespace | comment | unknown =>
      have hends : Ends (c :: cs) := Ends.cons cs (by rw [htype]; decide)
      have hstep : lexStep input .fraction (e :: (w ++ 'f' :: es)) c
          = endWord .valuef (e :: (w ++ 'f' :: es)) c := by
        rw [lexStep, htype]
        rfl
      refine agree_endWord .valuef hstep nofun (yylex_valuef hw hne hes hends) ?_ hplain
        ih.between
      rw [separated_fraction, htype]

theorem simulated_between (hplain : ∀ d ∈ c :: cs, Plain d) (ih : Simulated input cs) :
  Agree (printedFrom input .start [] (c :: cs)) (yylex (c :: cs))
    ↔ separated .between (c :: cs) = true
  := by
  have hc := hplain c List.mem_cons_self
  cases htype : charType c with
  | alpha =>
      have halpha : c.isAlpha = true := by
        by_contra hnot
        rw [charType] at htype
        grind
      have hstep : lexStep input .start [] c = ([], some (.identifier, [c])) := by
        rw [lexStep, htype]
      have hword := ih.word c [] halpha (by simp)
      rw [printedFrom_goes_on hstep, separated_between, htype, ← hword]
      rfl
  | digit =>
      have hstep : lexStep input .start [] c = ([], some (.integer, [c])) := by
        rw [lexStep, htype]
      have hnumber := ih.number c [] (List.forall_mem_singleton.mpr (isDigit_of_charType htype))
      rw [printedFrom_goes_on hstep, separated_between, htype, ← hnumber]
      rfl
  | operator =>
      have hprinted : printedFrom input .start [] (c :: cs)
          = (operatorToken c).printed :: printedFrom input .start [] cs := by
        rw [printedFrom, tokenizeLoop, lexStep, htype]
        rfl
      rw [hprinted, yylex_operator htype, agree_cons printed_operatorToken_ne, separated_between,
        htype]
      exact ih.between
  | whitespace =>
      have hstep : lexStep input .start [] c = ([], some (.start, [])) := by
        rw [lexStep, htype]
      rw [printedFrom_goes_on hstep, yylex_whitespace (hc.isSpaceTab htype), separated_between,
        htype]
      exact ih.between
  | comment =>
      have heq : c = ';' := by
        by_contra hnot
        rw [charType] at htype
        grind
      subst heq
      have hprinted : printedFrom input .start [] (';' :: cs) = [.comment] := rfl
      rw [hprinted, yylex_comment fun d hd => (hplain d (List.mem_cons_of_mem _ hd)).ne.1]
      exact iff_of_true ⟨rfl, Iff.rfl⟩ rfl
  | underscore | unknown =>
      have hstep : lexStep input .start [] c = ([.error [c]], none) := by
        rw [lexStep, htype]
      have halone : Alone c := ⟨by rw [htype]; decide, hc.ne.2⟩
      rw [printedFrom_error hstep, yylex_error halone (by rw [htype]; decide), separated_between,
        htype]
      exact iff_of_true agree_error rfl

/-! ### Every line -/

/-- At the end of the line what is in the current token is lost. -/
theorem simulated_nil :
  Simulated input []
  where
  between := iff_of_true ⟨rfl, Iff.rfl⟩ rfl
  word c w hc hw := by
    rw [yylex_identifier hc hw ends_nil]
    exact iff_of_false not_agree_nil nofun
  number c w hw := by
    rw [yylex_valuei hw ends_nil]
    exact iff_of_false not_agree_nil nofun
  afterF c w hw := by
    have hnil : ([] : List Char).takeWhile isWordChar = [] := rfl
    obtain ⟨rest, hyylex⟩ := yylex_badNumber (c := 'f') hw (by decide) fun _ => .inl hnil
    rw [List.append_nil, hyylex]
    exact iff_of_false not_agree_nil nofun
  fraction c w es hw hne hes := by
    rw [yylex_valuef hw hne hes ends_nil]
    exact iff_of_false not_agree_nil nofun

theorem simulated (h : ∀ c ∈ cs, Plain c) :
  Simulated input cs
  := by
  induction cs with
  | nil => exact simulated_nil
  | cons c cs ih =>
      obtain ⟨hc, hcs⟩ := List.forall_mem_cons.mp h
      exact {
        between := simulated_between h (ih hcs)
        word := fun e w he hw => simulated_word hc (ih hcs) he hw
        number := fun e w hw => simulated_number hc (ih hcs) hw
        afterF := fun e w hw => simulated_afterF (ih hcs) hw
        fraction := fun e w es hw hne hes => simulated_fraction hc (ih hcs) hw hne hes }

/-- The lexers agree on a line exactly when its words and numbers are separated. -/
theorem lexers_agree_iff {line : List Char} (h : ∀ c ∈ line, Plain c) :
  Agree (processLine line) (yylex line) ↔ separated .between line = true
  := (simulated h).between

/-- On the line `(+ x 1)` the lexers agree. -/
theorem lexers_agree_iff_sum :
  Agree (processLine ['(', '+', ' ', 'x', ' ', '1', ')'])
    (yylex ['(', '+', ' ', 'x', ' ', '1', ')'])
  := by
  have hplain : ∀ c ∈ ['(', '+', ' ', 'x', ' ', '1', ')'], Plain c := by simp [Plain]
  exact (lexers_agree_iff hplain).mpr (by decide)

/-- The Lisp lexer loses the word at the end of a line. -/
theorem lexers_disagree :
  ¬ ∀ line : List Char, (∀ c ∈ line, Plain c) → Agree (processLine line) (yylex line)
  := by
  intro h
  have hyylex : yylex ['x'] = [.token .identifier] := by decide
  have hagree := h ['x'] (by simp [Plain])
  rw [hyylex] at hagree
  exact not_agree_nil hagree

end Gpp
