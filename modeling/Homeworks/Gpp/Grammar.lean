import Mathlib.Data.List.Basic

/-!
# The grammar of G++

The grammar of the yacc interpreter: for each nonterminal the type of its derivation trees, with a
constructor for each production in the order of the source, and the tokens at the leaves of a
tree.
-/

namespace Gpp

inductive Token where
  | kwAnd | kwOr | kwNot | kwEqual | kwLess | kwSet | kwDefvar | kwDeffun | kwFor | kwIf | kwWhile
  | kwList | kwAppend | kwConcat | kwNil | kwExit | kwLoad | kwDisp | kwTrue | kwFalse
  | opPlus | opMinus | opDiv | opMult | opOp | opCp | opComma | opApo
  | valuei | valuef | identifier
  | string
  deriving DecidableEq, Repr

open Token

/-! ### Values and lists -/

inductive Value where
  | valuef
  | valuei
  | identifier
  deriving DecidableEq

inductive Values where
  | comma (values : Values) (value : Value)
  | value (value : Value)
  deriving DecidableEq

/-- The nonterminal `list`. -/
inductive ListExp where
  | list (values : Values)
  | quoted (values : Values)
  | empty
  | nil
  deriving DecidableEq

inductive LoadStatement where
  | load
  deriving DecidableEq

def Value.yield : Value → List Token
  | .valuef => [.valuef]
  | .valuei => [.valuei]
  | .identifier => [.identifier]

def Values.yield : Values → List Token
  | .comma vs v => vs.yield ++ opComma :: v.yield
  | .value v => v.yield

def ListExp.yield : ListExp → List Token
  | .list values => [opOp, kwList] ++ values.yield ++ [opCp]
  | .quoted values => [opApo, opOp] ++ values.yield ++ [opCp]
  | .empty => [opApo, opOp, opCp]
  | .nil => [kwNil]

def LoadStatement.yield : LoadStatement → List Token
  | .load => [opOp, kwLoad, string, opCp]

/-! ### Expressions -/

mutual

inductive ExpList where
  | more (exps : ExpList) (exp : Exp)
  | exp (exp : Exp)

inductive Exp where
  | plus (left right : Exp)
  | minus (left right : Exp)
  | mult (left right : Exp)
  | div (left right : Exp)
  | valuei
  | valuef
  | identifier
  | expb (exp : Expb)
  | expi (exp : Expi)
  | list (list : ListExp)
  | functionCall (call : FunctionCall)
  | printStatement (statement : PrintStatement)
  | loadStatement (statement : LoadStatement)

inductive Expb where
  | and (left right : Exp)
  | or (left right : Exp)
  | not (exp : Exp)
  | less (left right : Exp)
  | equal (left right : Exp)
  | true
  | false

inductive Expi where
  | deffun (params body : ExpList)
  | set (exp : Exp)
  | ifThen (condition : Expb) (exp : Exp)
  | ifElse (condition : Expb) (exp other : Exp)
  | defvar (exp : Exp)
  | while (condition : Expb) (body : ExpList)
  | for (start stop : Exp) (body : ExpList)
  | concat (left right : ListExp)
  | append (left right : ListExp)
  | exit

inductive FunctionCall where
  | call (args : ExpList)

inductive PrintStatement where
  | exp (exp : Exp)
  | string

end

mutual

def ExpList.yield : ExpList → List Token
  | .more exps exp => exps.yield ++ exp.yield
  | .exp exp => exp.yield

def Exp.yield : Exp → List Token
  | .plus left right => [opOp, opPlus] ++ left.yield ++ right.yield ++ [opCp]
  | .minus left right => [opOp, opMinus] ++ left.yield ++ right.yield ++ [opCp]
  | .mult left right => [opOp, opMult] ++ left.yield ++ right.yield ++ [opCp]
  | .div left right => [opOp, opDiv] ++ left.yield ++ right.yield ++ [opCp]
  | .valuei => [.valuei]
  | .valuef => [.valuef]
  | .identifier => [.identifier]
  | .expb exp => exp.yield
  | .expi exp => exp.yield
  | .list list => list.yield
  | .functionCall call => call.yield
  | .printStatement statement => statement.yield
  | .loadStatement statement => statement.yield

def Expb.yield : Expb → List Token
  | .and left right => [opOp, kwAnd] ++ left.yield ++ right.yield ++ [opCp]
  | .or left right => [opOp, kwOr] ++ left.yield ++ right.yield ++ [opCp]
  | .not exp => [opOp, kwNot] ++ exp.yield ++ [opCp]
  | .less left right => [opOp, kwLess] ++ left.yield ++ right.yield ++ [opCp]
  | .equal left right => [opOp, kwEqual] ++ left.yield ++ right.yield ++ [opCp]
  | .true => [kwTrue]
  | .false => [kwFalse]

def Expi.yield : Expi → List Token
  | .deffun params body =>
    [opOp, kwDeffun, .identifier, opOp] ++ params.yield ++ [opCp] ++ body.yield ++ [opCp]
  | .set exp => [opOp, kwSet, .identifier] ++ exp.yield ++ [opCp]
  | .ifThen condition exp => [opOp, kwIf] ++ condition.yield ++ exp.yield ++ [opCp]
  | .ifElse condition exp other =>
    [opOp, kwIf] ++ condition.yield ++ exp.yield ++ other.yield ++ [opCp]
  | .defvar exp => [opOp, kwDefvar, .identifier] ++ exp.yield ++ [opCp]
  | .while condition body => [opOp, kwWhile] ++ condition.yield ++ body.yield ++ [opCp]
  | .for start stop body =>
    [opOp, kwFor, opOp, .identifier] ++ start.yield ++ stop.yield ++ [opCp] ++ body.yield ++ [opCp]
  | .concat left right => [opOp, kwConcat] ++ left.yield ++ right.yield ++ [opCp]
  | .append left right => [opOp, kwAppend] ++ left.yield ++ right.yield ++ [opCp]
  | .exit => [opOp, kwExit, opCp]

def FunctionCall.yield : FunctionCall → List Token
  | .call args => [opOp, .identifier] ++ args.yield ++ [opCp]

def PrintStatement.yield : PrintStatement → List Token
  | .exp exp => [opOp, kwDisp] ++ exp.yield ++ [opCp]
  | .string => [opOp, kwDisp, .string, opCp]

end

/-! ### The start symbol -/

inductive Input where
  | exps (exps : ExpList)

inductive Start where
  | input (input : Input)

def Input.yield : Input → List Token
  | .exps es => es.yield

def Start.yield : Start → List Token
  | .input i => i.yield

end Gpp
