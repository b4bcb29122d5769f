import Homeworks.Graphs.MatrixGraph
import Homeworks.Sorting.Sorter

/-!
# Greedy graph colouring

`GCASolution` and `GreedyGCA`.  The sorter is a method `sort` that may draw random numbers.
-/

namespace Graphs

/-! ### Solutions -/

structure GCASolution (vNum : Nat) where
  colors : List (AdjacencyVect vNum)
  deriving DecidableEq

namespace GCASolution

variable {vNum : Nat}

def new (vNum : Nat) : GCASolution vNum := ⟨[]⟩

/-- A vertex is assigned to a colour. -/
def setColor (s : GCASolution vNum) (v : Int) (c : Nat) : GCASolution vNum :=
  ⟨s.colors.modify c fun color => (color.add v).2⟩

/-- The index of a new colour, and the solution with it. -/
def addColor (s : GCASolution vNum) : Nat × GCASolution vNum :=
  (s.colors.length, ⟨s.colors ++ [.new vNum]⟩)

def colorNum (s : GCASolution vNum) : Nat := s.colors.length

end GCASolution

/-! ### The algorithm -/

structure GreedyVertex (n : Nat) where
  id : Int
  neighbors : AdjacencyVect n

def GreedyVertex.compareTo {n : Nat} (this o : GreedyVertex n) : Int :=
  if (this.neighbors.size : Int) - o.neighbors.size = 0 then
    this.id - o.id
  else
    this.neighbors.size - o.neighbors.size

/-- The comparator that `solve` gives to the sorter. -/
def compareVertices {n : Nat} (arg0 arg1 : GreedyVertex n) : Int := arg1.compareTo arg0

/-- `Collections.disjoint`: no element that one collection yields is contained in the other. -/
def disjoint {n : Nat} (c1 c2 : AdjacencyVect n) : Bool :=
  c1.elements.all fun v => !c2.contains (v.val : Int)

/-- The index of the first colour without neighbours of a vertex, from an index on. -/
def availableColor {n : Nat} (s : GCASolution n) (vertex : GreedyVertex n) (i : Nat) :
    Option Nat :=
  if h : i < s.colors.length then
    if disjoint s.colors[i] vertex.neighbors then some i else availableColor s vertex (i + 1)
  else
    none
termination_by s.colors.length - i

/-- A vertex is assigned to the first colour that is available, or to a new one. -/
def colorVertex {n : Nat} (s : GCASolution n) (vertex : GreedyVertex n) : GCASolution n :=
  match availableColor s vertex 0 with
  | some i => s.setColor vertex.id i
  | none =>
      let (newColor, s) := s.addColor
      s.setColor vertex.id newColor

/-- The vertices of a graph, with their neighbours. -/
def vertices (g : MatrixGraph) : Vector (GreedyVertex g.graphSize) g.graphSize :=
  .ofFn fun i => ⟨i, g.getNeighbors i⟩

/-- The vertices of a graph as a sorter sorts them. -/
def sortedVertices (g : MatrixGraph)
    (sort : Sorting.SortMethod (GreedyVertex g.graphSize) g.graphSize)
    (random : Sorting.Random) : Vector (GreedyVertex g.graphSize) g.graphSize :=
  (sort (vertices g) 0 g.graphSize (Nat.le_refl _) random).1

def solve (g : MatrixGraph) (sort : Sorting.SortMethod (GreedyVertex g.graphSize) g.graphSize)
    (random : Sorting.Random) : GCASolution g.graphSize :=
  (sortedVertices g sort random).toList.foldl colorVertex (.new g.graphSize)

end Graphs
