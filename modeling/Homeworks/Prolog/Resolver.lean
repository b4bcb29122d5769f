import Homeworks.Logic.Horn

/-!
# prolog.lisp

An expression `(first second third)` is an atom.  An axiom with an empty body is a fact, the others
are rules.  The symbol `nil` is compared by `string=` as the string `"NIL"`.  A function returns
`none` if it signals an error or if the fuel does not suffice.
-/

namespace Prolog

/-- A predicate and two arguments. -/
abbrev Exp := Horn.Atom String String

abbrev Axiom := Horn.Clause String String

/-- A rule of the rule list with its place in the axioms.  `remove` compares the places: two rules
with the same text are different objects. -/
abbrev Rules := List (Nat × Axiom)

/-- The types `1` and `2` of a query, and `nil`. -/
inductive PredicateType where
  | one
  | two
  | nil
  deriving DecidableEq

def nilExp : Exp := ⟨"NIL", "NIL", "NIL"⟩

/-! ### Facts -/

def findFact (facts : List Exp) (query : Exp) : Option Exp :=
  match facts with
  | [] => none
  | fact :: rest =>
      if fact.predicate = query.predicate ∧ fact.left = query.left ∧ fact.right = query.right then
        some fact
      else
        findFact rest query

/-- `=` signals an error on `nil`. -/
def findMatchingFacts (facts : List Exp) (query : Exp) (predicateType : PredicateType) :
    Option (List String) :=
  match facts with
  | [] => some []
  | fact :: rest =>
      match predicateType with
      | .one =>
          if fact.predicate = query.predicate ∧ fact.right = query.right then
            (findMatchingFacts rest query .one).map (fact.left :: ·)
          else
            findMatchingFacts rest query .one
      | .two =>
          if fact.predicate = query.predicate ∧ fact.left = query.left then
            (findMatchingFacts rest query .two).map (fact.right :: ·)
          else
            findMatchingFacts rest query .two
      | .nil => none

/-! ### Rules -/

/-- The loop over the two atoms of a body, each with the other one. -/
def subqueryLoop (var2 : String) (query : Exp) :
    List (Exp × Exp) → Option (Exp × Exp × PredicateType)
  | [] => none
  | (b, other) :: rest =>
      if b.left = var2 then
        some (⟨b.predicate, query.left, b.right⟩, other, .two)
      else if b.right = var2 then
        some (⟨b.predicate, b.left, query.right⟩, other, .one)
      else
        subqueryLoop var2 query rest

/-- The query for one atom of the body, the other atom and the type of the query; all are `nil` if
the variable does not occur in the body. -/
def constructSubquery (head b₁ b₂ query : Exp) :
    PredicateType → Option (Exp × Exp × PredicateType)
  | .one => some ((subqueryLoop head.right query [(b₁, b₂), (b₂, b₁)]).getD (nilExp, nilExp, .nil))
  | .two => some ((subqueryLoop head.left query [(b₁, b₂), (b₂, b₁)]).getD (nilExp, nilExp, .nil))
  | .nil => none

def constructExtendedQuery (rule : Exp) (subquery var : String) : Exp :=
  if rule.left = var then
    ⟨rule.predicate, rule.left, subquery⟩
  else
    ⟨rule.predicate, subquery, rule.right⟩

def appendUniqueResults (list1 list2 : List String) : List String :=
  list2.foldl (fun list1 element => if element ∈ list1 then list1 else list1 ++ [element]) list1

/-- The body of the loop over the rules. -/
def resolveRule (resolve : Rules → Exp → PredicateType → Option (List String)) (rules : Rules)
    (query : Exp) (queryType : PredicateType) (result : List String) (rule : Nat × Axiom) :
    Option (List String) :=
  if rule.2.head.predicate = query.predicate then
    match rule.2.body with
    | [b] =>
        (resolve rules ⟨b.predicate, query.left, query.right⟩ queryType).map
          (appendUniqueResults result)
    | [b₁, b₂] => do
        let (newQuery, newRule, newQueryType) ←
          constructSubquery rule.2.head b₁ b₂ query queryType
        let remainingRules := rules.filter fun other => other.1 ≠ rule.1
        let subqueries ← resolve remainingRules newQuery newQueryType
        subqueries.foldlM (fun result resolvedItem =>
          (resolve rules (constructExtendedQuery newRule resolvedItem query.left) newQueryType).map
            (appendUniqueResults result)) result
    | _ => some result
  else
    some result

def resolveSubqueries (fuel : Nat) (facts : List Exp) (rules : Rules) (query : Exp)
    (queryType : PredicateType) : Option (List String) :=
  match fuel with
  | 0 => none
  | fuel + 1 => do
      let result ← findMatchingFacts facts query queryType
      rules.foldlM (resolveRule (fun rules query queryType =>
        resolveSubqueries fuel facts rules query queryType) rules query queryType) result

/-! ### Queries -/

/-- An element of the results: a string, or the list `("TRUE")`. -/
inductive Answer where
  | value (s : String)
  | true
  deriving DecidableEq

/-- `(subseq s 0 1)`. -/
def firstChar (s : String) : Option Char := s.toList.head?

/-- The case of a character is that of an ASCII letter. -/
def processQuery (fuel : Nat) (facts : List Exp) (rules : Rules) (query : Exp) :
    Option (List Answer) := do
  let char1 ← firstChar query.predicate
  let char2 ← firstChar query.left
  let char3 ← firstChar query.right
  if char1 = char1.toLower then
    if char2 = char2.toLower ∧ char3 = char3.toLower then
      match findFact facts query with
      | none => some []
      | some _ => some [.true]
    else if char2 = char2.toUpper then
      (resolveSubqueries fuel facts rules query .one).map (List.map .value)
    else
      (resolveSubqueries fuel facts rules query .two).map (List.map .value)
  else
    some []

/-- `(member element list :test #'string=)`; `string=` signals an error on a list. -/
def memberString (element : Answer) : List Answer → Option Bool
  | [] => some false
  | other :: rest =>
      match element, other with
      | .value s, .value t => if s = t then some true else memberString element rest
      | _, _ => none

def queries (list1 list2 : List Answer) : Option (List Answer) :=
  list1.filterM fun element => memberString element list2

def factsOf (axioms : List Axiom) : List Exp :=
  (axioms.filter fun c => c.body.isEmpty).map fun c => c.head

def rulesOf (axioms : List Axiom) : Rules :=
  (axioms.zipIdx.map fun e => (e.2, e.1)).filter fun rule => !rule.2.body.isEmpty

/-- The loop over the queries. -/
def proveLoop (fuel : Nat) (facts : List Exp) (rules : Rules) (results : List Answer) :
    List Exp → Option (List Answer)
  | [] => some results
  | q :: rest => do
      let res ← processQuery fuel facts rules q
      if res.isEmpty then
        some []
      else if results.isEmpty then
        proveLoop fuel facts rules res rest
      else
        proveLoop fuel facts rules (← queries results res) rest

def prologProve (fuel : Nat) (axioms : List Axiom) (query : List Exp) : Option (List Answer) :=
  proveLoop fuel (factsOf axioms) (rulesOf axioms) [] query

end Prolog
