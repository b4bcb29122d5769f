import Homeworks.Graphs.FiniteSet

/-!
# Matrix graphs as edge sets

The edges of a graph are those that have been set since it was reset last, in both directions.
-/

namespace Graphs

namespace MatrixGraph

variable {g : MatrixGraph} {i j : Int}

/-- The size of the last reset, and the calls of `setEdge` after it. -/
def sinceReset (calls : List Call) : Nat × List (Int × Int) :=
  calls.foldl (fun since call =>
    match call with
    | .reset size _ => (size, [])
    | .setEdge id1 id2 => (since.1, since.2 ++ [(id1, id2)])) (0, [])

/-- An edge between two vertices in range has been set, in one of the two directions. -/
def HasBeenSet (since : Nat × List (Int × Int)) (i j : Int) : Prop :=
  (0 ≤ i ∧ i < since.1) ∧ (0 ≤ j ∧ j < since.1) ∧ ((i, j) ∈ since.2 ∨ (j, i) ∈ since.2)

/-- The edges of a graph are those that have been set. -/
def Records (g : MatrixGraph) (since : Nat × List (Int × Int)) : Prop :=
  g.graphSize = since.1 ∧ ∀ i j, g.getEdge i j = true ↔ HasBeenSet since i j

theorem mem_adj_iff (u w : Fin g.graphSize) :
  w ∈ g.adj u ↔ g.getEdge u.val w.val = true
  := by
  rw [getEdge_iff]
  constructor
  · intro hw
    exact ⟨u, w, rfl, rfl, hw⟩
  · rintro ⟨u', w', hu, hw, hmem⟩
    obtain rfl : u' = u := Fin.ext (by omega)
    obtain rfl : w' = w := Fin.ext (by omega)
    exact hmem

theorem records_reset (size : Nat) (h : size ≤ Java.MAX_VALUE) :
  (reset size h).Records (size, [])
  := by
  refine ⟨rfl, fun i j => ?_⟩
  rw [getEdge_iff]
  constructor
  · rintro ⟨u, w, -, -, hw⟩
    rw [adj_reset] at hw
    exact absurd hw (Finset.notMem_empty w)
  · rintro ⟨-, -, hmem | hmem⟩
    · cases hmem
    · cases hmem

theorem Records.setEdge {since : Nat × List (Int × Int)} (h : g.Records since) (i j : Int) :
  (g.setEdge i j).2.Records (since.1, since.2 ++ [(i, j)])
  := by
  obtain ⟨hsize, hedges⟩ := h
  rcases setEdge_cases g i j with ⟨heq, hout⟩ | ⟨u, w, rfl, rfl, heq⟩
  · rw [heq]
    refine ⟨hsize, fun x y => (hedges x y).trans ?_⟩
    have hrange : ∀ x y : Int, 0 ≤ x ∧ x < since.1 → 0 ≤ y ∧ y < since.1 → (x, y) ≠ (i, j) := by
      rintro x y hx hy hxy
      cases hxy
      rw [← hsize] at hx hy
      exact hout ⟨i.toNat, by omega⟩ ⟨j.toNat, by omega⟩ ⟨by dsimp only; omega,
        by dsimp only; omega⟩
    refine and_congr_right fun hx => and_congr_right fun hy => ?_
    simp [hrange x y hx hy, hrange y x hy hx]
  · rw [heq]
    refine ⟨hsize, fun x y => ?_⟩
    rw [getEdge_withEdge, hedges x y]
    have hu : u.val < since.1 := hsize ▸ u.isLt
    have hw : w.val < since.1 := hsize ▸ w.isLt
    constructor
    · rintro (⟨hx, hy, hset⟩ | ⟨rfl, rfl⟩ | ⟨rfl, rfl⟩)
      · exact ⟨hx, hy, hset.imp (List.mem_append_left _) (List.mem_append_left _)⟩
      · exact ⟨by omega, by omega, .inl (List.mem_append_right _ (List.mem_singleton.mpr rfl))⟩
      · exact ⟨by omega, by omega, .inr (List.mem_append_right _ (List.mem_singleton.mpr rfl))⟩
    · rintro ⟨hx, hy, hset⟩
      rcases hset with hset | hset
      · rcases List.mem_append.mp hset with hset | hset
        · exact .inl ⟨hx, hy, .inl hset⟩
        · exact .inr (.inl (Prod.mk.inj (List.mem_singleton.mp hset)))
      · rcases List.mem_append.mp hset with hset | hset
        · exact .inl ⟨hx, hy, .inr hset⟩
        · exact .inr (.inr (Prod.mk.inj (List.mem_singleton.mp hset)).symm)

theorem records_run {since : Nat × List (Int × Int)} (h : g.Records since) (calls : List Call) :
  (g.run calls).Records (calls.foldl (fun since call =>
    match call with
    | .reset size _ => (size, [])
    | .setEdge id1 id2 => (since.1, since.2 ++ [(id1, id2)])) since)
  := by
  induction calls generalizing g since with
  | nil => exact h
  | cons call calls ih =>
      cases call with
      | reset size hsize => exact ih (records_reset size hsize)
      | setEdge id1 id2 => exact ih (h.setEdge id1 id2)

/-! ### What the calls return -/

theorem added_iff {n : Nat} {v : AdjacencyVect n} (k : Fin n) :
  (v.add k.val).1 = true ↔ k ∉ v.toFinset
  := by
  rw [AdjacencyVect.add_val, AdjacencyVect.mem_toFinset]
  split_ifs with hedge <;> simp [hedge]

/-- `setEdge` returns whether there was no edge between two vertices. -/
theorem WellFormed.setEdge_new (h : g.WellFormed) (u w : Fin g.graphSize) :
  (g.setEdge u.val w.val).1 = true ↔ w ∉ g.adj u
  := by
  have hin : (0 ≤ (u.val : Int) ∧ (u.val : Int) < g.graphSize)
      ∧ 0 ≤ (w.val : Int) ∧ (w.val : Int) < g.graphSize := by omega
  have hfirst : (g.setEdge u.val w.val).1
      = ((g.matrix[u].add w.val).1 || ((addToRow g.matrix u w)[w].add u.val).1) := by
    rw [MatrixGraph.setEdge, dif_pos hin]
    rfl
  rw [hfirst, Bool.or_eq_true, added_iff, added_iff, mem_addToRow]
  constructor
  · rintro (hw | hu)
    · exact hw
    · exact fun hw => hu (.inl (h.symm u w hw))
  · exact .inl

/-- `setEdge` returns whether it has changed an edge. -/
theorem WellFormed.setEdge_changed (h : g.WellFormed) (i j : Int) :
  (g.setEdge i j).1 = true ↔ ∃ x y, (g.setEdge i j).2.getEdge x y ≠ g.getEdge x y
  := by
  by_cases hin : (0 ≤ i ∧ i < g.graphSize) ∧ 0 ≤ j ∧ j < g.graphSize
  · obtain ⟨u, rfl⟩ : ∃ u : Fin g.graphSize, (u.val : Int) = i :=
      ⟨⟨i.toNat, by omega⟩, by dsimp only; omega⟩
    obtain ⟨w, rfl⟩ : ∃ w : Fin g.graphSize, (w.val : Int) = j :=
      ⟨⟨j.toNat, by omega⟩, by dsimp only; omega⟩
    rw [h.setEdge_new, MatrixGraph.setEdge_val]
    constructor
    · intro hw
      refine ⟨u.val, w.val, fun heq => hw ((mem_adj_iff u w).mpr ?_)⟩
      rw [← heq, getEdge_withEdge]
      exact .inr (.inl ⟨rfl, rfl⟩)
    · rintro ⟨x, y, hne⟩ hw
      apply hne
      rw [Bool.eq_iff_iff, getEdge_withEdge]
      refine ⟨?_, .inl⟩
      rintro (hedge | ⟨rfl, rfl⟩ | ⟨rfl, rfl⟩)
      · exact hedge
      · exact (mem_adj_iff u w).mp hw
      · exact (mem_adj_iff w u).mp (h.symm u w hw)
  · rw [setEdge_outside hin]
    simp

/-- The vertices that an iterator over neighbours yields. -/
theorem mem_getNeighbors (i j : Int) :
  j ∈ (g.getNeighbors i).elements.map (fun k => (k.val : Int)) ↔ g.getEdge i j = true
  := by
  rw [List.mem_map, getEdge_iff]
  by_cases hin : 0 ≤ i ∧ i < g.graphSize
  · obtain ⟨u, rfl⟩ : ∃ u : Fin g.graphSize, (u.val : Int) = i :=
      ⟨⟨i.toNat, by omega⟩, by dsimp only; omega⟩
    rw [getNeighbors_val]
    constructor
    · rintro ⟨w, hw, rfl⟩
      exact ⟨u, w, rfl, rfl, AdjacencyVect.mem_elements.mp hw⟩
    · rintro ⟨u', w, hu, rfl, hw⟩
      obtain rfl : u' = u := Fin.ext (by omega)
      exact ⟨w, AdjacencyVect.mem_elements.mpr hw, rfl⟩
  · rw [getNeighbors, dif_neg hin]
    constructor
    · rintro ⟨w, hw, -⟩
      rw [AdjacencyVect.mem_elements, AdjacencyVect.toFinset_new] at hw
      exact absurd hw (Finset.notMem_empty w)
    · rintro ⟨u, w, rfl, -, -⟩
      exact absurd (by omega) hin

theorem WellFormed.counted_getNeighbors (h : g.WellFormed) (i : Int) :
  (g.getNeighbors i).Counted
  := by
  rw [getNeighbors]
  split
  · exact h.counted _
  · exact AdjacencyVect.counted_new

/-- After any calls the edges are symmetric and are those that have been set since the last reset;
`setEdge` returns whether it changes them, and the neighbours of a vertex are listed in increasing
order. -/
theorem symmetric_edge_set (calls : List Call) :
  ∃ g, g = empty.run calls
    ∧ (∀ i j, g.getEdge i j = g.getEdge j i)
    ∧ (∀ i j, g.getEdge i j = true ↔ HasBeenSet (sinceReset calls) i j)
    ∧ (∀ i j, (g.setEdge i j).1 = true ↔ ∃ x y, (g.setEdge i j).2.getEdge x y ≠ g.getEdge x y)
    ∧ (∀ i, (g.getNeighbors i).elements.Pairwise (· < ·)
      ∧ ∀ j, j ∈ (g.getNeighbors i).elements.map (fun k => (k.val : Int)) ↔ g.getEdge i j = true)
    ∧ ∀ i, (g.getNeighbors i).size = (g.getNeighbors i).elements.length
  := by
  have hg : (empty.run calls).WellFormed := wellFormed_run wellFormed_reset calls
  have hrecords : ∀ i j, (empty.run calls).getEdge i j = true ↔ HasBeenSet (sinceReset calls) i j :=
    (records_run (records_reset 0 (Nat.zero_le _)) calls).2
  refine ⟨_, rfl, ?_, hrecords, hg.setEdge_changed, ?_, ?_⟩
  · intro i j
    rw [Bool.eq_iff_iff, hrecords, hrecords, HasBeenSet, HasBeenSet, or_comm]
    exact and_left_comm
  · exact fun i => ⟨AdjacencyVect.pairwise_elements _, mem_getNeighbors i⟩
  · exact fun i => (AdjacencyVect.length_elements (hg.counted_getNeighbors i)).symm

end MatrixGraph

end Graphs
