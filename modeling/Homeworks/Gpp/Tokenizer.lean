import Homeworks.Gpp.Grammar

/-!
# The Lisp lexer of G++

The tokenizer goes through a line character by character and adds a token when it sees the
character after it.
-/

namespace Gpp

open Token

/-- What a lexer prints for a token. -/
inductive Kind where
  | token (token : Token)
  | comment
  | syntaxError
  | nil
  deriving DecidableEq

inductive CharType where
  | digit
  | alpha
  | underscore
  | comment
  | whitespace
  | operator
  | unknown
  deriving DecidableEq

def charType (c : Char) : CharType :=
  if c.isDigit then .digit
  else if c.isAlpha then .alpha
  else if c = '_' then .underscore
  else if c = ';' then .comment
  else if c ∈ [' ', '\t', '\n'] then .whitespace
  else if c ∈ ['+', '-', '*', '/', '(', ')', ','] then .operator
  else .unknown

def keywords : List (List Char × Token) :=
  [("and".toList, kwAnd), ("or".toList, kwOr), ("not".toList, kwNot), ("equal".toList, kwEqual),
    ("less".toList, kwLess), ("nil".toList, kwNil), ("list".toList, kwList),
    ("append".toList, kwAppend), ("concat".toList, kwConcat), ("set".toList, kwSet),
    ("deffun".toList, kwDeffun), ("for".toList, kwFor), ("if".toList, kwIf),
    ("exit".toList, kwExit), ("load".toList, kwLoad), ("print".toList, kwDisp),
    ("true".toList, kwTrue), ("false".toList, kwFalse)]

def operators : List (List Char × Token) :=
  [("+".toList, opPlus), ("-".toList, opMinus), ("/".toList, opDiv), ("*".toList, opMult),
    ("(".toList, opOp), (")".toList, opCp), (",".toList, opComma)]

/-- A token of the tokenizer: its type and its value. -/
inductive LispToken where
  | keyword (value : List Char)
  | operator (value : Option Token)
  | valuei (value : List Char)
  | valuef (value : List Char)
  | identifier (value : List Char)
  | comment (value : List Char)
  | error (value : List Char)

inductive LexState where
  | start
  | identifier
  | integer
  | fraction
  deriving DecidableEq

def operatorToken (c : Char) : LispToken := .operator (operators.lookup [c])

/-- The token for a word. -/
def wordToken (current : List Char) : LispToken :=
  if (keywords.lookup current).isSome then .keyword current else .identifier current

/-- What a state does when the word in it ends: with an operator or white space its token is added,
with another character an error, and then the loop is left. -/
def endWord (token : List Char → LispToken) (current : List Char) (c : Char) :
    List LispToken × Option (LexState × List Char) :=
  match charType c with
  | .operator => ([token current, operatorToken c], some (.start, []))
  | .whitespace => ([token current], some (.start, []))
  | _ => ([.error (current ++ [c])], none)

/-- One character: the tokens that are added, and the next state with the current token unless the
loop is left. -/
def lexStep (input : List Char) (state : LexState) (current : List Char) (c : Char) :
    List LispToken × Option (LexState × List Char) :=
  match state with
  | .start =>
    match charType c with
    | .comment => ([.comment input], none)
    | .alpha => ([], some (.identifier, [c]))
    | .digit => ([], some (.integer, [c]))
    | .operator => ([operatorToken c], some (.start, current))
    | .whitespace => ([], some (.start, current))
    | _ => ([.error [c]], none)
  | .identifier =>
    if charType c = .alpha ∨ charType c = .digit ∨ charType c = .underscore then
      ([], some (.identifier, current ++ [c]))
    else endWord wordToken current c
  | .integer =>
    if charType c = .digit then ([], some (.integer, current ++ [c]))
    else if c = 'f' then ([], some (.fraction, current ++ [c]))
    else endWord .valuei current c
  | .fraction =>
    if charType c = .digit then ([], some (.fraction, current ++ [c]))
    else endWord .valuef current c

/-- The loop over the characters.  What is in the current token at the end is not added. -/
def tokenizeLoop (input : List Char) : LexState → List Char → List Char → List LispToken
  | _, _, [] => []
  | state, current, c :: cs =>
    match lexStep input state current c with
    | (tokens, none) => tokens
    | (tokens, some (state, current)) => tokens ++ tokenizeLoop input state current cs

def tokenize (input : List Char) : List LispToken := tokenizeLoop input .start [] input

/-- What `process-lines` prints for a token. -/
def LispToken.printed : LispToken → Kind
  | keyword value => ((keywords.lookup value).map Kind.token).getD .nil
  | operator value => (value.map Kind.token).getD .nil
  | valuei _ => .token .valuei
  | valuef _ => .token .valuef
  | identifier _ => .token .identifier
  | comment _ => .comment
  | error _ => .syntaxError

def processLine (line : List Char) : List Kind := (tokenize line).map LispToken.printed

end Gpp
