import Homeworks.Java.Text
import Mathlib.Data.Fintype.Card

/-!
# Graphs

`AdjacencyVect` and `MatrixGraph`.  The length of an adjacency vector is its capacity, and the
matrix of a graph has as many rows and columns as the graph has vertices.
-/

namespace Graphs

/-! ### Adjacency vectors -/

structure AdjacencyVect (capacity : Nat) where
  adjVect : Vector Bool capacity
  size : Nat
  deriving DecidableEq

namespace AdjacencyVect

variable {capacity : Nat}

/-- A vector without edges. -/
def new (capacity : Nat) : AdjacencyVect capacity := ⟨.replicate capacity false, 0⟩

/-- Whether the edge was added, and the vector with it. -/
def add (v : AdjacencyVect capacity) (index : Int) : Bool × AdjacencyVect capacity :=
  if h : 0 ≤ index ∧ index < capacity then
    let i : Fin capacity := ⟨index.toNat, by omega⟩
    if v.adjVect[i] then
      (false, v)
    else
      (true, ⟨v.adjVect.set i true, v.size + 1⟩)
  else
    (false, v)

def contains (v : AdjacencyVect capacity) (index : Int) : Bool :=
  if h : 0 ≤ index ∧ index < capacity then
    let vertex : Fin capacity := ⟨index.toNat, by omega⟩
    v.adjVect[vertex]
  else
    false

/-- The first vertex with an edge from an index on. -/
def findNext (v : AdjacencyVect capacity) (i : Nat) : Option (Fin capacity) :=
  if h : i < capacity then
    if v.adjVect[i] then some ⟨i, h⟩ else v.findNext (i + 1)
  else
    none
termination_by capacity - i

theorem le_of_findNext {v : AdjacencyVect capacity} {i : Nat} {k : Fin capacity} :
  v.findNext i = some k → i ≤ k ∧ getElem v.adjVect k k.isLt = true
  := by
  fun_induction v.findNext i with
  | case1 i h hedge =>
      rintro ⟨⟩
      exact ⟨Nat.le_refl _, hedge⟩
  | case2 i h hedge ih =>
      intro hk
      obtain ⟨hle, hk⟩ := ih hk
      exact ⟨Nat.le_of_succ_le hle, hk⟩
  | case3 i h => rintro ⟨⟩

/-- What an iterator yields from an index on. -/
def iterate (v : AdjacencyVect capacity) (i : Nat) : List (Fin capacity) :=
  match h : v.findNext i with
  | none => []
  | some nextIndex => nextIndex :: v.iterate (nextIndex + 1)
termination_by capacity - i
decreasing_by
  have hle := (le_of_findNext h).1
  omega

/-- What the iterator of a vector yields. -/
def elements (v : AdjacencyVect capacity) : List (Fin capacity) := v.iterate 0

/-- The vertices with an edge. -/
def toFinset (v : AdjacencyVect capacity) : Finset (Fin capacity) :=
  Finset.univ.filter fun k => getElem v.adjVect k k.isLt = true

end AdjacencyVect

/-! ### Matrix graphs -/

structure MatrixGraph where
  graphSize : Nat
  graphSize_le : graphSize ≤ Java.MAX_VALUE
  matrix : Vector (AdjacencyVect graphSize) graphSize

namespace MatrixGraph

theorem vertex_lt (g : MatrixGraph) (v : Fin g.graphSize) :
  v.val < g.graphSize
  := v.isLt

/-- A graph with a number of vertices and no edges. -/
def reset (size : Nat) (h : size ≤ Java.MAX_VALUE) : MatrixGraph :=
  ⟨size, h, .replicate size (.new size)⟩

/-- The graph that the default constructor creates. -/
def empty : MatrixGraph := reset 0 (Nat.zero_le _)

/-- Whether an edge was set, and the graph with it. -/
def setEdge (g : MatrixGraph) (id1 id2 : Int) : Bool × MatrixGraph :=
  if h : (0 ≤ id1 ∧ id1 < g.graphSize) ∧ 0 ≤ id2 ∧ id2 < g.graphSize then
    let v1 : Fin g.graphSize := ⟨id1.toNat, by omega⟩
    let v2 : Fin g.graphSize := ⟨id2.toNat, by omega⟩
    let (added1, row1) := g.matrix[v1].add id2
    let matrix := g.matrix.set v1 row1
    let (added2, row2) := matrix[v2].add id1
    (added1 || added2, { g with matrix := matrix.set v2 row2 })
  else
    (false, g)

def getEdge (g : MatrixGraph) (id1 id2 : Int) : Bool :=
  if h : (0 ≤ id1 ∧ id1 < g.graphSize) ∧ 0 ≤ id2 ∧ id2 < g.graphSize then
    let v1 : Fin g.graphSize := ⟨id1.toNat, by omega⟩
    g.matrix[v1].contains id2
  else
    false

/-- The neighbours of a vertex; there are none if there is no such vertex. -/
def getNeighbors (g : MatrixGraph) (id : Int) : AdjacencyVect g.graphSize :=
  if h : 0 ≤ id ∧ id < g.graphSize then
    let v : Fin g.graphSize := ⟨id.toNat, by omega⟩
    g.matrix[v]
  else
    .new g.graphSize

/-- A call of a graph that has been created. -/
inductive Call where
  | reset (size : Nat) (h : size ≤ Java.MAX_VALUE)
  | setEdge (id1 id2 : Int)

/-- A graph after some calls. -/
def run (g : MatrixGraph) : List Call → MatrixGraph
  | [] => g
  | .reset size h :: calls => (MatrixGraph.reset size h).run calls
  | .setEdge id1 id2 :: calls => (g.setEdge id1 id2).2.run calls

end MatrixGraph

end Graphs
