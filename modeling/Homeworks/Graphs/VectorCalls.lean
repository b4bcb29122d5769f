import Homeworks.Graphs.Edges

/-!
# Calls of adjacency vectors

The operations of the collection `AdjacencyVect` that change it, and its exports to arrays.  The
argument of a bulk operation may be the vector itself, which is then changed while its iterator is
in use.
-/

namespace Graphs

/-- An object: the null reference, an `Integer`, or something else. -/
inductive Obj where
  | null
  | integer (n : Int)
  | other
  deriving DecidableEq

/-- The argument of a bulk operation: what a collection yields, or the vector itself. -/
inductive Argument (α : Type) where
  | elements (objs : List α)
  | self

namespace AdjacencyVect

variable {capacity : Nat}

theorem toNat_lt {vertex : Int} (h : 0 ≤ vertex ∧ vertex < capacity) :
  vertex.toNat < capacity
  := (Int.toNat_lt h.1).mpr h.2

/-- `add`, where `null` is `none`. -/
def addInteger (v : AdjacencyVect capacity) : Option Int → Bool × AdjacencyVect capacity
  | none => (false, v)
  | some index => v.add index

/-- Whether the edge was removed, and the vector without it. -/
def remove (v : AdjacencyVect capacity) : Obj → Bool × AdjacencyVect capacity
  | .integer vertex =>
      if h : 0 ≤ vertex ∧ vertex < capacity then
        let i : Fin capacity := ⟨vertex.toNat, toNat_lt h⟩
        if getElem v.adjVect i i.isLt then
          (true, ⟨v.adjVect.set i false i.isLt, v.size - 1⟩)
        else
          (false, v)
      else
        (false, v)
  | _ => (false, v)

def clear (v : AdjacencyVect capacity) : AdjacencyVect capacity :=
  ⟨(List.finRange capacity).foldl (fun adjVect (i : Fin capacity) => adjVect.set i false i.isLt)
    v.adjVect, 0⟩

/-! ### Bulk operations -/

/-- The loop of `addAll` and `removeAll` over what another collection yields. -/
def forEach {α : Type} (body : AdjacencyVect capacity → α → Bool × AdjacencyVect capacity)
    (modified : Bool) (v : AdjacencyVect capacity) : List α → Bool × AdjacencyVect capacity
  | [] => (modified, v)
  | obj :: objs =>
      let r := body v obj
      forEach body (modified || r.1) r.2 objs

/-- The same loop over the vector itself.  The iterator has looked ahead before the body changes the
vector; there is no next index where it is `-1`. -/
def forEachSelf (body : AdjacencyVect capacity → Int → Bool × AdjacencyVect capacity)
    (modified : Bool) (v : AdjacencyVect capacity) (nextIndex : Option (Fin capacity)) :
    Bool × AdjacencyVect capacity :=
  match nextIndex with
  | none => (modified, v)
  | some currentIndex =>
      let r := body v currentIndex
      forEachSelf body (modified || r.1) r.2 (v.findNext (currentIndex + 1))
termination_by nextIndex.elim 0 fun k => capacity - k
decreasing_by
  cases hnext : v.findNext (currentIndex + 1) with
  | none =>
      change 0 < capacity - currentIndex.val
      omega
  | some k =>
      have hle := (le_of_findNext hnext).1
      change capacity - k.val < capacity - currentIndex.val
      omega

def addAll (v : AdjacencyVect capacity) : Argument (Option Int) → Bool × AdjacencyVect capacity
  | .elements collect => forEach addInteger false v collect
  | .self => forEachSelf (fun v vertex => v.addInteger (some vertex)) false v (v.findNext 0)

def removeAll (v : AdjacencyVect capacity) : Argument Obj → Bool × AdjacencyVect capacity
  | .elements collect => forEach remove false v collect
  | .self => forEachSelf (fun v vertex => v.remove (.integer vertex)) false v (v.findNext 0)

/-- Whether the argument contains an index. -/
def argumentContains (v : AdjacencyVect capacity) (collect : Argument Obj) (i : Int) : Bool :=
  match collect with
  | .elements objs => .integer i ∈ objs
  | .self => v.contains i

/-- The body of the loop of `retainAll`. -/
def retainAt (collect : Argument Obj) (r : Bool × AdjacencyVect capacity) (i : Fin capacity) :
    Bool × AdjacencyVect capacity :=
  if (getElem r.2.adjVect i i.isLt) && !r.2.argumentContains collect i.val then
    (true, ⟨r.2.adjVect.set i false i.isLt, r.2.size - 1⟩)
  else
    r

def retainAll (v : AdjacencyVect capacity)
    (collect : Argument Obj) : Bool × AdjacencyVect capacity :=
  (List.finRange capacity).foldl (retainAt collect) (false, v)

/-! ### Arrays -/

/-- The loop of `toArray`: the edges from an index on are stored one after the other.  There is no
result if one is stored outside of the array. -/
def fill {β : Type} (valueOf : Int → β) (v : AdjacencyVect capacity) :
    List (Fin capacity) → Nat → List (Option β) → Option (List (Option β))
  | [], _, result => some result
  | i :: is, index, result =>
      if getElem v.adjVect i i.isLt then
        if index < result.length then
          fill valueOf v is (index + 1) (result.set index (some (valueOf i.val)))
        else
          none
      else
        fill valueOf v is index result

def toArray (v : AdjacencyVect capacity) : Option (List (Option Obj)) :=
  v.fill .integer (List.finRange capacity) 0 (List.replicate v.size none)

/-- `toArray(T[])` for an array of a type with a conversion from `Integer`. -/
def toArrayInto {β : Type} (valueOf : Int → β) (v : AdjacencyVect capacity)
    (arr : List (Option β)) : Option (List (Option β)) :=
  let arr :=
    if arr.length < v.size then List.replicate v.size none
    else if arr.length > v.size then arr.set v.size none
    else arr
  v.fill valueOf (List.finRange capacity) 0 arr

/-! ### Calls -/

inductive Call where
  | add (index : Option Int)
  | addAll (collect : Argument (Option Int))
  | remove (obj : Obj)
  | removeAll (collect : Argument Obj)
  | retainAll (collect : Argument Obj)
  | clear

/-- What a call returns, unless it is `clear`, and the vector after it. -/
def call (v : AdjacencyVect capacity) : Call → Option Bool × AdjacencyVect capacity
  | .add index => (v.addInteger index).map some id
  | .addAll collect => (v.addAll collect).map some id
  | .remove obj => (v.remove obj).map some id
  | .removeAll collect => (v.removeAll collect).map some id
  | .retainAll collect => (v.retainAll collect).map some id
  | .clear => (none, v.clear)

/-- The vector after some calls. -/
def afterCalls (v : AdjacencyVect capacity) (calls : List Call) : AdjacencyVect capacity :=
  calls.foldl (fun v c => (v.call c).2) v

end AdjacencyVect

end Graphs
