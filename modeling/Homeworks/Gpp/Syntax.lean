import Mathlib.Data.List.Basic
import Mathlib.Data.Rat.Defs

/-!
# The Lisp syntax checker of G++

The checker works on s-expressions that the reader makes of a line.  An operand is printed and
read again before it is checked, which is taken to give the same expression.
-/

namespace Gpp

inductive Atom where
  | symbol (name : String)
  | integer (value : ℤ)
  | ratio (value : ℚ)
  | float (value : ℚ)
  | string (value : String)

/-- An s-expression: an atom, a list, or a list with an atom after its last dot.  The symbol `nil`
is the empty list. -/
inductive Sexp where
  | atom (a : Atom)
  | list (items : List Sexp)
  | dotted (first : Sexp) (items : List Sexp) (last : Atom)

namespace Sexp

mutual

def depth : Sexp → ℕ
  | atom _ => 0
  | list items => depthOf items + 1
  | dotted first items _ => max first.depth (depthOf items) + 1

def depthOf : List Sexp → ℕ
  | [] => 0
  | item :: items => max item.depth (depthOf items)

end

def numberp : Sexp → Bool
  | atom (.integer _) => true
  | atom (.ratio _) => true
  | atom (.float _) => true
  | _ => false

def symbolp : Sexp → Bool
  | atom (.symbol _) => true
  | list [] => true
  | _ => false

def stringp : Sexp → Bool
  | atom (.string _) => true
  | _ => false

def listp : Sexp → Bool
  | atom _ => false
  | _ => true

def null : Sexp → Bool
  | list [] => true
  | _ => false

def symbol (name : String) : Sexp := atom (.symbol name)

end Sexp

open Sexp

/-- The name of the symbol that tokens start with, if they start with one. -/
def operator : List Sexp → Option String
  | [] => some "nil"
  | list [] :: _ => some "nil"
  | atom (.symbol name) :: _ => some name
  | _ => none

/-! ### The checks of an expression, with the check of its operands -/

section

variable (validateExp : Sexp → Bool)

def validateExpList : Sexp → Bool
  | list items => items.all validateExp
  | _ => false

def validateValue (value : Sexp) : Bool :=
  value.numberp || value.symbolp || validateExp value

def validateValues : List Sexp → Bool
  | [] => true
  | first :: [] => validateValue validateExp first
  | first :: atom (.symbol "comma") :: rest => validateValue validateExp first
    && validateValues rest
  | _ => false

def checkArithSyntax : List Sexp → Bool
  | [left, right] => validateExp left && validateExp right
  | _ => false

def checkBooleanSyntax (operator : String) (operands : List Sexp) : Bool :=
  if operator ∈ ["and", "or", "less", "equal"] then
    match operands with
    | [left, right] => validateExp left && validateExp right
    | _ => false
  else if operator = "not" then
    match operands with
    | [operand] => validateExp operand
    | _ => false
  else operands.isEmpty

def checkDefvarSyntax : List Sexp → Bool
  | [name, exp] => name.symbolp && validateExp exp
  | _ => false

def checkSetSyntax : List Sexp → Bool
  | [name, exp] => name.symbolp && validateExp exp
  | _ => false

def checkDeffunSyntax : List Sexp → Bool
  | [function, params, body] =>
    function.symbolp && params.listp && validateExpList validateExp params && body.listp
      && validateExpList validateExp body
  | _ => false

def checkFunctionCallSyntax (args : List Sexp) : Bool := args.all validateExp

def checkIfSyntax : List Sexp → Bool
  | [condition, exp] => validateExp condition && validateExp exp
  | [condition, exp, other] =>
    validateExp condition && validateExp exp && (other.null || validateExp other)
  | _ => false

/-- What comes after the body is not looked at. -/
def checkWhileSyntax : List Sexp → Bool
  | condition :: body :: _ => validateExp condition && validateExpList validateExp body
  | _ => false

def checkForSyntax : List Sexp → Bool
  | [list [name, start, stop], body] =>
    name.symbolp && validateExp start && validateExp stop && validateExpList validateExp body
  | _ => false

/-- The quoted operators that the source compares with are lists, to which no operator is equal. -/
def checkListSyntax (args : List Sexp) : Bool := validateValues validateExp args

def checkConcatSyntax : List Sexp → Bool
  | [left, right] => validateExp left && validateExp right
  | _ => false

def checkAppendSyntax : List Sexp → Bool
  | [left, right] => validateExp left && validateExp right
  | _ => false

def checkLoadSyntax : List Sexp → Bool
  | [file] => file.stringp
  | _ => false

def checkPrintSyntax : List Sexp → Bool
  | [exp] => exp.stringp || validateExp exp
  | _ => false

/-- The length of a dotted list is an error, and so is the first element of a string; only the
length of the string in `(exit . "")` is none. -/
def checkDotted : Sexp → List Sexp → Atom → Bool
  | atom (.symbol "exit"), [], .string "" => true
  | _, _, _ => false

def checkExitSyntax (args : List Sexp) : Bool := args.isEmpty

/-- The check of a list, by the symbol at its front. -/
def checkTokens (tokens : List Sexp) : Bool :=
  match operator tokens with
  | none => false
  | some op =>
    if op ∈ ["+", "-", "*", "/"] then checkArithSyntax validateExp tokens.tail
    else if op ∈ ["and", "or", "not", "less", "equal", "true", "false"] then
      checkBooleanSyntax validateExp op tokens.tail
    else if op = "defvar" then checkDefvarSyntax validateExp tokens.tail
    else if op = "set" then checkSetSyntax validateExp tokens.tail
    else if op = "deffun" then checkDeffunSyntax validateExp tokens.tail
    else if op = "if" then checkIfSyntax validateExp tokens.tail
    else if op = "while" then checkWhileSyntax validateExp tokens.tail
    else if op = "for" then checkForSyntax validateExp tokens.tail
    else if op = "list" then checkListSyntax validateExp tokens.tail
    else if op = "concat" then checkConcatSyntax validateExp tokens.tail
    else if op = "append" then checkAppendSyntax validateExp tokens.tail
    else if op = "load" then checkLoadSyntax tokens.tail
    else if op = "print" then checkPrintSyntax validateExp tokens.tail
    else if op = "exit" then checkExitSyntax tokens.tail
    else checkFunctionCallSyntax validateExp tokens.tail

/-- `check-syntax`, where errors are `nil`. -/
def checkSyntaxWith : Sexp → Bool
  | atom _ => false
  | list tokens => checkTokens validateExp tokens
  | dotted first items last => checkDotted first items last

end

/-- `validate-exp`, for expressions up to a depth. -/
def validateExpWithin : ℕ → Sexp → Bool
  | 0, _ => false
  | depth + 1, exp =>
    exp.numberp || exp.symbolp
      || exp.listp && (checkSyntaxWith (validateExpWithin depth) exp
        || validateExpList (validateExpWithin depth) exp)

def validateExp (exp : Sexp) : Bool := validateExpWithin (exp.depth + 1) exp

def checkSyntax (exp : Sexp) : Bool := checkSyntaxWith validateExp exp

end Gpp
