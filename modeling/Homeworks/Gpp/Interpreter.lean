import Homeworks.Gpp.Lexer

/-!
# The yacc interpreter of G++

The scanner's rules, and what the program prints for a file.  The parser that yacc makes is a
parameter: of a sequence of tokens it decides whether it has a derivation tree from the start
symbol.
-/

open Lexing

namespace Gpp

/-- What a rule does: it returns a token, does nothing, or prints that there is a syntax error. -/
inductive Action where
  | returns (token : Token)
  | skip
  | notValue
  | notToken
  deriving DecidableEq

def word (s : String) (token : Token) : Rule Char Action :=
  ⟨Regex.literal s.toList, .returns token⟩

open Regex in
/-- The rules in the order of the source.  The start condition `SKIP_LINE` is never entered. -/
def interpreterRules : List (Rule Char Action) :=
  [ word "and" .kwAnd, word "or" .kwOr, word "not" .kwNot, word "equal" .kwEqual,
    word "less" .kwLess, word "nil" .kwNil, word "list" .kwList, word "append" .kwAppend,
    word "concat" .kwConcat, word "set" .kwSet, word "defvar" .kwDefvar, word "deffun" .kwDeffun,
    word "for" .kwFor, word "if" .kwIf, word "exit" .kwExit, word "load" .kwLoad,
    word "print" .kwDisp, word "true" .kwTrue, word "false" .kwFalse, word "while" .kwWhile,
    word "+" .opPlus, word "-" .opMinus, word "/" .opDiv, word "*" .opMult, word "(" .opOp,
    word ")" .opCp, word "," .opComma, word "'" .opApo,
    ⟨seq (chars (· == '"')) (seq (star (chars (· != '"'))) (chars (· == '"'))),
      .returns .string⟩,
    ⟨plus Char.isDigit, .returns .valuei⟩,
    ⟨seq (plus Char.isDigit) (seq (chars (· == '.')) (plus Char.isDigit)), .returns .valuef⟩,
    ⟨seq (chars Char.isAlpha) (star (chars isWordChar)), .returns .identifier⟩,
    ⟨chars (· == '\n'), .skip⟩,
    ⟨plus fun c => c == ' ' || c == '\t' || c == '\r', .skip⟩,
    ⟨seq (plus Char.isDigit)
      (seq (chars fun c => c.isAlpha || c == '_') (star (chars isWordChar))), .notValue⟩,
    ⟨chars (· != '\n'), .notToken⟩ ]

def returned : Option Action × List Char → Option Token
  | (some (.returns token), _) => some token
  | _ => none

/-- The tokens that the parser is handed. -/
def tokens (file : List Char) : List Token :=
  (lexemes interpreterRules file).filterMap returned

inductive Verdict where
  | accept
  | reject
  deriving DecidableEq

/-- `main` with a file, and with the parser's result for the tokens. -/
def main (yyparse : List Token → ℕ) (file : List Char) : Verdict :=
  if yyparse (tokens file) = 0 then .accept else .reject

/-- The file consists of tokens and white space. -/
def Valid (file : List Char) : Prop :=
  ∀ lexeme ∈ lexemes interpreterRules file,
    lexeme.1 = some .skip ∨ ∃ token, lexeme.1 = some (.returns token)

/-- There is a derivation from `exp_list`. -/
def Derivable (ts : List Token) : Prop := ∃ exps : ExpList, exps.yield = ts

/-- What yacc promises of the parser: it returns 0 on the sentences of the grammar only. -/
def Parses (yyparse : List Token → ℕ) : Prop :=
  ∀ ts, yyparse ts = 0 ↔ ∃ start : Start, start.yield = ts

theorem exists_start_iff (ts : List Token) :
  (∃ start : Start, start.yield = ts) ↔ Derivable ts
  := by
  constructor
  · rintro ⟨⟨⟨exps⟩⟩, h⟩
    exact ⟨exps, h⟩
  · rintro ⟨exps, h⟩
    exact ⟨⟨⟨exps⟩⟩, h⟩

variable {yyparse : List Token → ℕ}

theorem main_eq_accept (hyacc : Parses yyparse) (file : List Char) :
  main yyparse file = .accept ↔ Derivable (tokens file)
  := by
  rw [main, ← exists_start_iff, ← hyacc (tokens file)]
  by_cases hzero : yyparse (tokens file) = 0
  · rw [if_pos hzero]
    exact ⟨fun _ => hzero, fun _ => rfl⟩
  · rw [if_neg hzero]
    exact ⟨fun h => (nomatch h), fun h => absurd h hzero⟩

/-- A file is accepted exactly when it is a sentence, unless it becomes one by leaving out what
has been reported as a syntax error. -/
theorem main_accepts_iff (hyacc : Parses yyparse) (file : List Char) :
  (main yyparse file = .accept ↔ Valid file ∧ Derivable (tokens file))
    ↔ (Valid file ∨ ¬ Derivable (tokens file))
  := by
  rw [main_eq_accept hyacc file]
  constructor
  · intro h
    by_cases hderivable : Derivable (tokens file)
    · exact .inl (h.mp hderivable).1
    · exact .inr hderivable
  · rintro (hvalid | hnot)
    · exact ⟨fun h => ⟨hvalid, h⟩, fun h => h.2⟩
    · exact ⟨fun h => absurd h hnot, fun h => h.2⟩

open Classical in
/-- The parser's result as yacc promises it. -/
noncomputable def parsed (ts : List Token) : ℕ :=
  if ∃ start : Start, start.yield = ts then 0 else 1

theorem parses_parsed :
  Parses parsed
  := by
  intro ts
  rw [parsed]
  by_cases hstart : ∃ start : Start, start.yield = ts
  · rw [if_pos hstart]
    exact ⟨fun _ => hstart, fun _ => rfl⟩
  · rw [if_neg hstart]
    exact ⟨fun h => absurd h Nat.one_ne_zero, fun h => absurd h hstart⟩

/-- A file with a sum. -/
theorem main_accepts_iff_sum :
  main parsed "(+ 7 x)\n".toList = .accept
    ∧ Valid "(+ 7 x)\n".toList ∧ Derivable (tokens "(+ 7 x)\n".toList)
  := by
  have hlexemes : lexemes interpreterRules "(+ 7 x)\n".toList
      = [(some (.returns .opOp), ['(']), (some (.returns .opPlus), ['+']), (some .skip, [' ']),
        (some (.returns .valuei), ['7']), (some .skip, [' ']),
        (some (.returns .identifier), ['x']), (some (.returns .opCp), [')']),
        (some .skip, ['\n'])] := by decide
  have hvalid : Valid "(+ 7 x)\n".toList := by
    rw [Valid, hlexemes]
    simp
  have hderivable : Derivable (tokens "(+ 7 x)\n".toList) := by
    rw [tokens, hlexemes]
    exact ⟨.exp (.plus .valuei .identifier), rfl⟩
  have hiff := (main_accepts_iff parses_parsed "(+ 7 x)\n".toList).mpr (.inl hvalid)
  exact ⟨hiff.mpr ⟨hvalid, hderivable⟩, hvalid, hderivable⟩

/-- A character that is no token is reported, and the file accepted. -/
theorem main_accepts_invalid :
  ¬ ∀ yyparse : List Token → ℕ, Parses yyparse → ∀ file : List Char,
    (main yyparse file = .accept ↔ Valid file ∧ Derivable (tokens file))
  := by
  intro h
  have hlexemes : lexemes interpreterRules ['@', '7']
      = [(some .notToken, ['@']), (some (.returns .valuei), ['7'])] := by decide
  have hderivable : Derivable (tokens ['@', '7']) := by
    rw [tokens, hlexemes]
    exact ⟨.exp .valuei, rfl⟩
  have haccept := (main_eq_accept parses_parsed _).mpr hderivable
  have hvalid := ((h parsed parses_parsed _).mp haccept).1
  rw [Valid, hlexemes] at hvalid
  rcases hvalid _ List.mem_cons_self with hskip | ⟨token, htoken⟩
  · cases hskip
  · cases htoken

end Gpp
