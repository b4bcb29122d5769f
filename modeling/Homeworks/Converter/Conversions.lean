import Mathlib.Data.List.DropRight
import Mathlib.Data.List.Infix

/-!
# Conversions of lines

The converter tells the type of a line by searching it for words and characters, in a fixed order,
and cuts it into tokens at spaces and punctuation.  Each line is converted on its own, by the
conversion for its type.  A conversion can fail: where `subseq` or `aref` is called outside of its
argument there is no converted line.
-/

namespace Converter

abbrev Line := List Char

/-- A character of an identifier. -/
def isNameChar (c : Char) : Bool := c.isAlphanum || c = '_'

/-- An identifier of C. -/
structure Identifier (v : Line) : Prop where
  ne_nil : v ≠ []
  first : ∀ c ∈ v.head?, c.isDigit = false
  chars : ∀ c ∈ v, isNameChar c = true

/-- `search`, where only the result matters. -/
def search (text : String) (line : Line) : Bool := text.toList <:+: line

inductive LineType where
  | ifStatement
  | forLoop
  | whileLoop
  | curlyBrace
  | postIncrementDecrementReturn
  | arithmeticOperationReturn
  | logicalOperationReturn
  | returnStatement
  | postIncrementDecrement
  | logicalOperation
  | variableAssignmentByFunctionReturn
  | functionPrototypeDefinition
  | functionCall
  | functionDefinition
  | variableDefinitionByArithmeticOperation
  | variableDefinition
  | variableAssignmentByArithmeticOperation
  | variableAssignment
  | arithmeticOperation
  | unknown
  deriving DecidableEq, Repr

/-- One of the texts is in the line. -/
def searchAny (texts : List String) (line : Line) : Bool := texts.any (search · line)

/-- All of the texts are in the line. -/
def searchAll (texts : List String) (line : Line) : Bool := texts.all (search · line)

def lineType (line : Line) : LineType :=
  if search "if" line then .ifStatement
  else if search "for" line then .forLoop
  else if search "while" line then .whileLoop
  else if search "\x7d" line then .curlyBrace
  else if search "return" line then
    if searchAny ["++", "--"] line then .postIncrementDecrementReturn
    else if searchAny ["+", "-", "*", "/", "%"] line then .arithmeticOperationReturn
    else if searchAny ["&&", "||", ">", "<", ">=", "<=", "==", "!="] line then
      .logicalOperationReturn
    else .returnStatement
  else if searchAny ["++", "--"] line then .postIncrementDecrement
  else if searchAny ["<", ">", "<=", ">=", "==", "!=", "&&", "||"] line then .logicalOperation
  else if searchAll ["=", "(", ")", ";"] line then .variableAssignmentByFunctionReturn
  else if searchAny ["int ", "float ", "char ", "double "] line && searchAll ["(", ")", ";"] line
      && !search "\x7b" line then .functionPrototypeDefinition
  else if searchAll ["(", ")", ";"] line && !search "\x7b" line && !search "return" line
      && !search "=" line then .functionCall
  else if searchAll ["(", ")", "\x7b"] line then .functionDefinition
  else if searchAny ["int ", "float ", "char ", "double "] line && search "=" line
      && searchAny ["+", "-", "*", "/", "%"] line && search ";" line then
    .variableDefinitionByArithmeticOperation
  else if searchAny ["int", "float", "char", "double"] line && searchAll ["=", ";"] line then
    .variableDefinition
  else if search "=" line && searchAny ["+", "-", "*", "/", "%"] line && search ";" line
      && !search "(" line then .variableAssignmentByArithmeticOperation
  else if searchAll ["=", ";"] line && !search "(" line then .variableAssignment
  else if searchAny ["+", "-", "*", "/", "%"] line && !search "=" line then .arithmeticOperation
  else .unknown

/-- `(loop for char across line while (char= char #\Space) count 1)`, as that many spaces. -/
def spaces (line : Line) : Line := line.takeWhile (· = ' ')

/-- The line without the spaces in front. -/
def trimmedLine (line : Line) : Line := line.dropWhile (· = ' ')

/-- `(string-trim " " line)`. -/
def stringTrim (line : Line) : Line := (trimmedLine line).rdropWhile (· = ' ')

/-- The tokens between delimiters, after the characters of the current one. -/
def splitAt (isDelimiter : Char → Bool) : Line → List Char → List Line
  | [], currentWord => if currentWord = [] then [] else [currentWord]
  | c :: chars, currentWord =>
      if isDelimiter c then
        if currentWord = [] then splitAt isDelimiter chars []
        else currentWord :: splitAt isDelimiter chars []
      else splitAt isDelimiter chars (currentWord ++ [c])

def splitString (line : Line) : List Line :=
  splitAt (· ∈ [' ', '\t', ';', '(', ',', ')']) line []

def splitFunctionCall (line : Line) : List Line :=
  splitAt (· ∈ ['"', ';', '(', ')', ',']) line []

/-- `(substitute new old line)`. -/
def substitute (new old : Char) (line : Line) : Line := line.map fun c => if c = old then new else c

def cleanLine (line : Line) : Line := stringTrim (substitute ' ' ';' line)

/-- The operator and the operands on its left and right. -/
def firstThree : List Line → Option (Line × Line × Line)
  | left :: operator :: right :: _ => some (operator, left, right)
  | _ => none

def splitLogicalArithmetic (line : Line) : Option (Line × Line × Line) :=
  let tokens := (splitString (cleanLine line)).filter (· ≠ ";".toList)
  if 3 ≤ tokens.length ∧ tokens.head? = some "return".toList then firstThree tokens.tail
  else firstThree tokens

/-- The text in front of the first `++` or `--`, and the operator. -/
def findOperator : Line → Line → Option (Line × Line)
  | front, c :: d :: rest =>
      if [c, d] = "++".toList ∨ [c, d] = "--".toList then some (stringTrim front, [c, d])
      else findOperator (front ++ [c]) (d :: rest)
  | _, _ => none

def splitPostIncrementDecrement (line : Line) : Option (Line × Line) :=
  let clean := cleanLine line
  findOperator []
    (if clean.take 6 = "return".toList then stringTrim (clean.drop 6) else clean)

/-! ### Conversions of lines -/

/-- `nil` is printed as `NIL`. -/
def princ (value : Option Line) : Line := value.getD "NIL".toList

/-- `~{~A~^ ~}`. -/
def joined (items : List Line) : Line := List.intercalate [' '] items

def dataTypes (dataType : Option Line) : Line :=
  if dataType = some "int".toList then "integer".toList
  else if dataType = some "float".toList then "float".toList
  else if dataType = some "char".toList then "character".toList
  else if dataType = some "double".toList then "double-float".toList
  else "UNKNOWN".toList

def logicalOperators (operator : Line) : Line :=
  if operator = "!=".toList then "/=".toList
  else if operator = "==".toList then "=".toList
  else if operator = "&&".toList then "and".toList
  else if operator = "||".toList then "or".toList
  else operator

def arithmeticOperators (operator : Line) : Line :=
  if operator = "%".toList then "MOD".toList
  else if operator = "++".toList then "incf".toList
  else if operator = "--".toList then "decf".toList
  else operator

/-- `(~A ~A ~A)`. -/
def application (operator left right : Line) : Line :=
  "(".toList ++ operator ++ " ".toList ++ left ++ " ".toList ++ right ++ ")".toList

def logicalOperationConversion (line : Line) : Option Line :=
  (splitLogicalArithmetic line).map fun (operator, left, right) =>
    spaces line ++ application (logicalOperators operator) left right

def arithmeticOperationConversion (line : Line) : Line :=
  spaces line ++ ((splitLogicalArithmetic line).map fun (operator, left, right) =>
    application (arithmeticOperators operator) left right).getD []

/-- The text between the first opening and the first closing paren. -/
def condition (line : Line) : Option Line :=
  match line.idxOf? '(', line.idxOf? ')' with
  | some start, some stop =>
      if start + 1 ≤ stop then some ((line.take stop).drop (start + 1)) else none
  | _, _ => some []

def ifConversion (line : Line) : Option Line :=
  (condition (trimmedLine line)).map fun text =>
    spaces line ++ match logicalOperationConversion text with
      | some converted => "(if ".toList ++ converted
      | none => trimmedLine line

def whileConversion (line : Line) : Option Line :=
  (condition (trimmedLine line)).map fun text =>
    match logicalOperationConversion text with
    | some converted => spaces line ++ "(loop while ".toList ++ converted ++ " do".toList
    | none => trimmedLine line

def forConversion (line : Line) : Line :=
  let tokens := splitString (trimmedLine line)
  let loopDirection := if search "++" (trimmedLine line) then "below" else "downto"
  spaces line ++ "(loop for ".toList ++ princ tokens[2]? ++ " from ".toList ++ princ tokens[4]?
    ++ " ".toList ++ loopDirection.toList ++ " ".toList ++ princ tokens[7]? ++ " do".toList

def curlyBraceConversion (line : Line) : Line := spaces line ++ substitute ')' '}'
    (trimmedLine line)

/-- The elements at even places. -/
def evens : List Line → List Line
  | [] => []
  | [a] => [a]
  | a :: _ :: rest => a :: evens rest

/-- The elements at odd places. -/
def odds (items : List Line) : List Line := evens items.tail

def functionPrototypeDefinitionConversion (line : Line) : Line :=
  let tokens := splitString (trimmedLine line)
  spaces line ++ "(declaim (ftype (function (".toList
    ++ joined ((evens (tokens.drop 2)).map fun dataType => dataTypes (some dataType)) ++ ") ".toList
    ++ dataTypes tokens[0]? ++ ") ".toList ++ princ tokens[1]? ++ "))".toList

def functionDefinitionConversion (line : Line) : Line :=
  let tokens := splitString (trimmedLine line)
  spaces line ++ "(defun ".toList ++ princ tokens[1]? ++ " (".toList
    ++ joined (odds (tokens.drop 2)) ++ ")".toList

/-- `(string-right-trim "\\n" format-string)` and a tilde, if there is a `\n`. -/
def processedFormat (formatString : Line) : Line :=
  if search "\\n" formatString then
    formatString.rdropWhile (fun c => c = '\\' || c = 'n') ++ "~%".toList
  else formatString

def printfConversion (args : List Line) : Line :=
  "(format t \"".toList ++ processedFormat (substitute '~' '%' (args.headD [])) ++ "\"".toList
    ++ args.tail.flatMap (fun arg => " ".toList ++ arg) ++ ")".toList

def functionCallConversion (line : Line) : Line :=
  let tokens := splitFunctionCall (trimmedLine line)
  spaces line ++
    if tokens[0]? = some "printf".toList then printfConversion tokens.tail
    else "(".toList ++ princ tokens[0]? ++ tokens.tail.flatten ++ ")".toList

def variableDefinitionConversion (line : Line) : Option Line :=
  let tokens := splitString (trimmedLine line)
  tokens[2]?.map fun initialValue =>
    let finalInitialValue :=
      if initialValue.getLast? = some '=' ∧ 4 ≤ tokens.length then tokens[3]?
      else some initialValue
    spaces line ++ "(".toList ++ princ tokens[1]? ++ " ".toList ++ princ finalInitialValue
      ++ ")".toList

def variableAssignmentConversion (line : Line) : Line :=
  let tokens := splitString (trimmedLine line)
  spaces line ++ "(setf ".toList ++ princ tokens[0]? ++ " ".toList ++ princ tokens[2]?
    ++ ")".toList

def variableDefinitionByArithmeticOperationConversion (line : Line) : Line :=
  let tokens := splitString (trimmedLine line)
  spaces line ++ "(".toList ++ princ tokens[1]? ++ " ".toList
    ++ application (princ tokens[4]?) (princ tokens[3]?) (princ tokens[5]?) ++ ")".toList

def variableAssignmentByArithmeticOperationConversion (line : Line) : Line :=
  let tokens := splitString (trimmedLine line)
  spaces line ++ "(setf ".toList ++ princ tokens[0]? ++ " ".toList
    ++ application (princ (tokens[3]?.map arithmeticOperators)) (princ tokens[2]?)
        (princ tokens[4]?) ++ ")".toList

def variableAssignmentByFunctionReturnConversion (line : Line) : Option Line :=
  let tokens := splitString (trimmedLine line)
  if 4 ≤ tokens.length then
    some (spaces line ++
      if tokens[2]? = some "=".toList then
        "(".toList ++ princ tokens[1]? ++ " (".toList ++ princ tokens[3]? ++ " ".toList
          ++ joined (tokens.drop 4) ++ "))".toList
      else [])
  else none

def postIncrementDecrementConversion (line : Line) : Line :=
  let found := splitPostIncrementDecrement (trimmedLine line)
  spaces line ++ application (princ (found.map fun (_, operator) => arithmeticOperators operator))
    (princ (found.map Prod.fst)) "1".toList

def returnStatementConversion (line : Line) : Option Line :=
  let trimmed := stringTrim line
  if trimmed.take 6 = "return".toList then
    let number := (splitString (stringTrim (trimmed.drop 6))).filter (· ≠ ";".toList)
    number[0]?.map (spaces line ++ ·)
  else none

/-- The converted line as it is printed, or nothing when the conversion fails. -/
def convert (line : Line) : Option Line :=
  match lineType line with
  | .ifStatement => ifConversion line
  | .forLoop => some (forConversion line)
  | .whileLoop => whileConversion line
  | .curlyBrace => some (curlyBraceConversion line)
  | .postIncrementDecrement | .postIncrementDecrementReturn =>
      some (postIncrementDecrementConversion line)
  | .variableAssignmentByArithmeticOperation =>
      some (variableAssignmentByArithmeticOperationConversion line)
  | .variableDefinitionByArithmeticOperation =>
      some (variableDefinitionByArithmeticOperationConversion line)
  | .variableAssignmentByFunctionReturn => variableAssignmentByFunctionReturnConversion line
  | .functionPrototypeDefinition => some (functionPrototypeDefinitionConversion line)
  | .functionCall => some (functionCallConversion line)
  | .functionDefinition => some (functionDefinitionConversion line)
  | .variableDefinition => variableDefinitionConversion line
  | .variableAssignment => some (variableAssignmentConversion line)
  | .returnStatement => some (princ (returnStatementConversion line))
  | .arithmeticOperationReturn | .arithmeticOperation => some (arithmeticOperationConversion line)
  | .logicalOperationReturn | .logicalOperation => some (princ (logicalOperationConversion line))
  | .unknown => some []

/-- The text that is written for the lines of a program. -/
def converted (lines : List Line) : Option Line :=
  (lines.mapM convert).map fun output => output.flatMap (· ++ ['\n'])

end Converter
