import Homeworks.Graphs.Edges

/-!
# Graph files

`readGraph` and `writeGraph` of `GTUGraph`.  A file is its text.
-/

namespace Graphs

/-! ### Writing -/

/-- The line of an edge. -/
def edgeText (i vertex : Int) : Java.Text :=
  CString.decimal i ++ ' ' :: CString.decimal vertex ++ ['\n']

def writeGraph (graph : MatrixGraph) : Java.Text :=
  CString.decimal graph.graphSize ++ '\n' ::
    (List.finRange graph.graphSize).flatMap fun i : Fin graph.graphSize =>
      (graph.getNeighbors i.val).elements.flatMap fun vertex : Fin graph.graphSize =>
        if i < vertex then edgeText i.val vertex.val else []

/-! ### Reading -/

/-- What reading a file does to a graph.  An exception is caught, and leaves the graph as it is
at that point; a size that is negative is set before the exception. -/
inductive Read where
  | done (graph : MatrixGraph)
  | error (graph : MatrixGraph)
  | negative (size : Int)

/-- The vertices of a line, if it has two. -/
def readEdge (line : Java.Text) : Option (Int × Int) := do
  let parts := Java.split ' ' (Java.strip line)
  let v1 ← parts[0]? >>= Java.parseInt
  let v2 ← parts[1]? >>= Java.parseInt
  some (v1, v2)

def readEdges (graph : MatrixGraph) : List Java.Text → Read
  | [] => .done graph
  | line :: lines =>
      match readEdge line with
      | none => .error graph
      | some (v1, v2) => readEdges (graph.setEdge v1 v2).2 lines

theorem toNat_le_of_parseInt {s : Java.Text} {n : Int} (h : Java.parseInt s = some n) :
  n.toNat ≤ Java.MAX_VALUE
  := by
  have hint := (Java.isInt_of_parseInt h).2
  omega

def readGraph (file : Java.Text) (graph : MatrixGraph) : Read :=
  match Java.lines file with
  | [] => .error graph
  | line :: lines =>
      match h : Java.parseInt (Java.strip line) with
      | none => .error graph
      | some size =>
          if 0 ≤ size then
            readEdges (.reset size.toNat (toNat_le_of_parseInt h)) lines
          else
            .negative size

variable {g h : MatrixGraph} {i j x y : Int}

/-! ### Lines -/

/-- The line of an edge is read as the edge. -/
theorem readEdge_edge (hi : Java.IsInt i) (hj : Java.IsInt j) :
  readEdge (CString.decimal i ++ ' ' :: CString.decimal j) = some (i, j)
  := by
  have hblank : ∀ n, ' ' ∉ CString.decimal n := by
    intro n hn
    exact absurd (Java.Printable.of_mem_decimal hn) (by decide)
  have hstrip : Java.strip (CString.decimal i ++ ' ' :: CString.decimal j)
      = CString.decimal i ++ ' ' :: CString.decimal j := by
    apply Java.strip_printable
    · intro c hc
      rw [List.head?_append_of_ne_nil _ (CString.decimal_ne_nil _)] at hc
      exact .of_mem_decimal (List.mem_of_mem_head? hc)
    · intro c hc
      rw [List.getLast?_append_of_ne_nil _ (List.cons_ne_nil _ _),
        List.getLast?_cons_of_ne_nil (CString.decimal_ne_nil _)] at hc
      exact .of_mem_decimal (List.mem_of_getLast? hc)
  rw [readEdge, hstrip, Java.split_append (hblank i) (hblank j) (CString.decimal_ne_nil _)]
  simp [Java.parseInt_decimal hi, Java.parseInt_decimal hj]

theorem isSeparator_edge {c : Char} (hc : c ∈ CString.decimal i ++ ' ' :: CString.decimal j) :
  Java.isSeparator c = false
  := by
  rcases List.mem_append.mp hc with hc | hc
  · exact (Java.Printable.of_mem_decimal hc).isSeparator
  · rcases List.mem_cons.mp hc with rfl | hc
    · decide
    · exact (Java.Printable.of_mem_decimal hc).isSeparator

/-- The lines of some edges. -/
theorem lines_edges (edges : List (Int × Int)) :
  Java.lines (edges.flatMap fun e => edgeText e.1 e.2)
    = edges.map fun e => CString.decimal e.1 ++ ' ' :: CString.decimal e.2
  := by
  induction edges with
  | nil => exact Java.lines_nil
  | cons e edges ih =>
      rw [List.flatMap_cons, edgeText, List.append_assoc, List.singleton_append,
        Java.lines_append fun c => isSeparator_edge, ih]
      rfl

/-- Some edges are set, one after the other. -/
def setEdges (g : MatrixGraph) (edges : List (Int × Int)) : MatrixGraph :=
  edges.foldl (fun g e => (g.setEdge e.1 e.2).2) g

theorem readEdges_edges {edges : List (Int × Int)}
    (hedges : ∀ e ∈ edges, Java.IsInt e.1 ∧ Java.IsInt e.2) :
  readEdges g (edges.map fun e => CString.decimal e.1 ++ ' ' :: CString.decimal e.2)
    = .done (setEdges g edges)
  := by
  induction edges generalizing g with
  | nil => rfl
  | cons e edges ih =>
      obtain ⟨he, hedges⟩ := List.forall_mem_cons.mp hedges
      rw [List.map_cons, readEdges, readEdge_edge he.1 he.2]
      exact ih hedges

/-! ### Edges -/

theorem graphSize_setEdge :
  (g.setEdge i j).2.graphSize = g.graphSize
  := by
  rcases MatrixGraph.setEdge_cases g i j with ⟨heq, -⟩ | ⟨u, w, -, -, heq⟩
  · rw [heq]
  · rw [heq]
    rfl

theorem getEdge_setEdge (hi : 0 ≤ i ∧ i < g.graphSize) (hj : 0 ≤ j ∧ j < g.graphSize) :
  (g.setEdge i j).2.getEdge x y = true
    ↔ g.getEdge x y = true ∨ x = i ∧ y = j ∨ x = j ∧ y = i
  := by
  rcases MatrixGraph.setEdge_cases g i j with ⟨-, hnot⟩ | ⟨u, w, rfl, rfl, heq⟩
  · have hpair := hnot ⟨i.toNat, by omega⟩ ⟨j.toNat, by omega⟩
    dsimp only at hpair
    omega
  · rw [heq]
    exact MatrixGraph.getEdge_withEdge

theorem graphSize_setEdges {edges : List (Int × Int)} :
  (setEdges g edges).graphSize = g.graphSize
  := by
  induction edges generalizing g with
  | nil => rfl
  | cons e edges ih => exact ih.trans graphSize_setEdge

theorem getEdge_setEdges {edges : List (Int × Int)}
    (hedges : ∀ e ∈ edges, (0 ≤ e.1 ∧ e.1 < g.graphSize) ∧ 0 ≤ e.2 ∧ e.2 < g.graphSize) :
  (setEdges g edges).getEdge x y = true
    ↔ g.getEdge x y = true ∨ (x, y) ∈ edges ∨ (y, x) ∈ edges
  := by
  induction edges generalizing g with
  | nil => simp [setEdges]
  | cons e edges ih =>
      obtain ⟨he, hrest⟩ := List.forall_mem_cons.mp hedges
      have hstep : (setEdges g (e :: edges)) = setEdges (g.setEdge e.1 e.2).2 edges := rfl
      rw [hstep, ih (by rwa [graphSize_setEdge]), getEdge_setEdge he.1 he.2, List.mem_cons,
        List.mem_cons, Prod.ext_iff, Prod.ext_iff]
      dsimp only
      rw [and_comm (a := y = e.1)]
      constructor
      · rintro ((h | h | h) | h | h)
        · exact .inl h
        · exact .inr (.inl (.inl h))
        · exact .inr (.inr (.inl h))
        · exact .inr (.inl (.inr h))
        · exact .inr (.inr (.inr h))
      · rintro (h | (h | h) | h | h)
        · exact .inl (.inl h)
        · exact .inl (.inr (.inl h))
        · exact .inr (.inl h)
        · exact .inl (.inr (.inr h))
        · exact .inr (.inr h)

/-! ### Round trips -/

/-- The edges that are written. -/
def written (g : MatrixGraph) : List (Int × Int) :=
  (List.finRange g.graphSize).flatMap fun i : Fin g.graphSize =>
    ((g.getNeighbors i.val).elements.filter fun vertex : Fin g.graphSize => i < vertex).map
      fun vertex : Fin g.graphSize => ((i.val : Int), (vertex.val : Int))

theorem writeGraph_eq :
  writeGraph g
    = CString.decimal g.graphSize ++ '\n' :: (written g).flatMap fun e => edgeText e.1 e.2
  := by
  have hfilter : ∀ (i : Fin g.graphSize) (l : List (Fin g.graphSize)),
      (l.flatMap fun vertex => if i < vertex then edgeText i.val vertex.val else [])
        = ((l.filter fun vertex => i < vertex).map fun vertex =>
            ((i.val : Int), (vertex.val : Int))).flatMap fun e => edgeText e.1 e.2 := by
    intro i l
    induction l with
    | nil => rfl
    | cons vertex l ih =>
        rw [List.flatMap_cons, ih]
        by_cases hlt : i < vertex
        · rw [List.filter_cons_of_pos (by simpa using hlt), if_pos hlt]
          rfl
        · rw [List.filter_cons_of_neg (by simpa using hlt), if_neg hlt]
          rfl
  rw [writeGraph, written, List.flatMap_assoc]
  simp only [hfilter]

theorem mem_written :
  (x, y) ∈ written g ↔ x < y ∧ g.getEdge x y = true
  := by
  simp only [written, List.mem_flatMap, List.mem_finRange, true_and, List.mem_map, List.mem_filter,
    AdjacencyVect.mem_elements, MatrixGraph.getNeighbors_val, decide_eq_true_eq, Prod.mk.injEq]
  rw [MatrixGraph.getEdge_iff]
  constructor
  · rintro ⟨u, w, ⟨hadj, hlt⟩, rfl, rfl⟩
    exact ⟨Int.ofNat_lt.mpr hlt, u, w, rfl, rfl, hadj⟩
  · rintro ⟨hlt, u, w, rfl, rfl, hadj⟩
    exact ⟨u, w, ⟨hadj, Int.ofNat_lt.mp hlt⟩, rfl, rfl⟩

/-- A file gives the graph with the edges that are written, whatever graph it is read into. -/
theorem readGraph_writeGraph :
  readGraph (writeGraph g) h = .done (setEdges (.reset g.graphSize g.graphSize_le) (written g))
  := by
  have hsize : Java.IsInt g.graphSize := by
    have hle := g.graphSize_le
    exact ⟨by omega, by omega⟩
  have hedges : ∀ e ∈ written g, Java.IsInt e.1 ∧ Java.IsInt e.2 := by
    rintro ⟨x, y⟩ he
    obtain ⟨u, w, rfl, rfl, -⟩ := MatrixGraph.getEdge_iff.mp (mem_written.mp he).2
    have hle := g.graphSize_le
    exact ⟨⟨by dsimp only; omega, by dsimp only; omega⟩, by dsimp only; omega, by dsimp only; omega⟩
  have hlines : Java.lines (writeGraph g) = CString.decimal g.graphSize
      :: (written g).map fun e => CString.decimal e.1 ++ ' ' :: CString.decimal e.2 := by
    rw [writeGraph_eq, Java.lines_append, lines_edges]
    intro c hc
    exact (Java.Printable.of_mem_decimal hc).isSeparator
  have hparse : Java.parseInt (Java.strip (CString.decimal g.graphSize))
    = some (g.graphSize : Int) := by
    rw [Java.strip_decimal, Java.parseInt_decimal hsize]
  rw [← readEdges_edges hedges]
  unfold readGraph
  rw [hlines]
  dsimp only
  split
  · rename_i hnone
    rw [hparse] at hnone
    cases hnone
  · rename_i size hsome
    rw [hparse] at hsome
    cases hsome
    rw [if_pos (Int.natCast_nonneg _)]
    rfl

theorem getEdge_reset {size : Nat} {hsize : size ≤ Java.MAX_VALUE} :
  ¬ (MatrixGraph.reset size hsize).getEdge x y = true
  := by
  intro hxy
  obtain ⟨u, w, -, -, hadj⟩ := MatrixGraph.getEdge_iff.mp hxy
  rw [MatrixGraph.adj_reset] at hadj
  exact absurd hadj (Finset.notMem_empty w)

theorem getEdge_comm (hg : g.WellFormed) (hxy : g.getEdge x y = true) :
  g.getEdge y x = true
  := by
  obtain ⟨u, w, rfl, rfl, hadj⟩ := MatrixGraph.getEdge_iff.mp hxy
  exact MatrixGraph.getEdge_iff.mpr ⟨w, u, rfl, rfl, hg.symm u w hadj⟩

/-- What a graph has after it is read from its file: all edges but the self-loops. -/
theorem getEdge_read (hg : g.WellFormed) :
  (setEdges (.reset g.graphSize g.graphSize_le) (written g)).getEdge x y = true
    ↔ g.getEdge x y = true ∧ x ≠ y
  := by
  rw [getEdge_setEdges, mem_written, mem_written]
  · constructor
    · rintro (hreset | ⟨hlt, hxy⟩ | ⟨hlt, hyx⟩)
      · exact absurd hreset getEdge_reset
      · exact ⟨hxy, by omega⟩
      · exact ⟨getEdge_comm hg hyx, by omega⟩
    · rintro ⟨hxy, hne⟩
      rcases Int.lt_or_gt_of_ne hne with hlt | hgt
      · exact .inr (.inl ⟨hlt, hxy⟩)
      · exact .inr (.inr ⟨hgt, getEdge_comm hg hxy⟩)
  · rintro ⟨x, y⟩ he
    obtain ⟨u, w, rfl, rfl, -⟩ := MatrixGraph.getEdge_iff.mp (mem_written.mp he).2
    exact ⟨⟨Int.natCast_nonneg _, Int.ofNat_lt.mpr u.isLt⟩, Int.natCast_nonneg _,
      Int.ofNat_lt.mpr w.isLt⟩

/-- A graph agrees with what is read from its file exactly if it has no self-loop. -/
theorem round_trip_iff (calls : List MatrixGraph.Call) (other : MatrixGraph) :
  let g := MatrixGraph.empty.run calls
  (∃ g', readGraph (writeGraph g) other = .done g' ∧ g'.graphSize = g.graphSize
      ∧ ∀ i j, g'.getEdge i j = g.getEdge i j)
    ↔ ∀ i, g.getEdge i i = false
  := by
  intro g
  have hg : g.WellFormed := MatrixGraph.wellFormed_run MatrixGraph.wellFormed_reset calls
  constructor
  · rintro ⟨g', hread, -, hedges⟩ i
    rw [readGraph_writeGraph] at hread
    cases hread
    rw [← hedges, ← Bool.not_eq_true, getEdge_read hg]
    exact fun hi => hi.2 rfl
  · intro hloop
    refine ⟨_, readGraph_writeGraph, graphSize_setEdges, ?_⟩
    intro i j
    rw [Bool.eq_iff_iff, getEdge_read hg]
    refine ⟨And.left, fun hij => ⟨hij, ?_⟩⟩
    rintro rfl
    rw [hloop i] at hij
    cases hij

/-- A self-loop is lost. -/
theorem round_trip_self_loop :
  ¬ ∀ (calls : List MatrixGraph.Call) (other : MatrixGraph),
    ∃ g', readGraph (writeGraph (MatrixGraph.empty.run calls)) other = .done g'
      ∧ g'.graphSize = (MatrixGraph.empty.run calls).graphSize
      ∧ ∀ i j, g'.getEdge i j = (MatrixGraph.empty.run calls).getEdge i j
  := by
  intro hround
  have hg : (MatrixGraph.empty.run [.reset 1 (by decide), .setEdge 0 0]).WellFormed :=
    MatrixGraph.wellFormed_run MatrixGraph.wellFormed_reset _
  obtain ⟨g', hread, -, hedges⟩ := hround [.reset 1 (by decide), .setEdge 0 0] .empty
  rw [readGraph_writeGraph] at hread
  cases hread
  have hloop : (MatrixGraph.empty.run [.reset 1 (by decide), .setEdge 0 0]).getEdge 0 0 = true := by
    decide
  rw [← hedges, getEdge_read hg] at hloop
  exact hloop.2 rfl

end Graphs
