import Homeworks.Graphs.MatrixGraph

/-!
# Edges

An adjacency vector as a finite set of vertices, and what an operation changes of it; the edges
of a graph, which are the same in both directions.
-/

namespace Graphs

/-! ### Adjacency vectors as finite sets -/

namespace AdjacencyVect

variable {capacity : Nat} {v : AdjacencyVect capacity} {k : Fin capacity} {index : Int} {i : Nat}

@[simp] theorem mem_toFinset : k ∈ v.toFinset ↔ getElem v.adjVect k k.isLt = true := by
  simp [toFinset]

@[simp] theorem toFinset_new : (new capacity).toFinset = ∅ := by
  ext k
  simp [new]

/-- An index that is in range stands for a vertex. -/
theorem contains_iff :
  v.contains index = true ↔ ∃ k ∈ v.toFinset, (k.val : Int) = index
  := by
  rw [contains]
  split
  · rename_i h
    simp only [mem_toFinset]
    constructor
    · intro hedge
      exact ⟨_, hedge, by dsimp only; omega⟩
    · rintro ⟨k, hedge, rfl⟩
      exact hedge
  · rename_i h
    constructor
    · intro hfalse
      cases hfalse
    · rintro ⟨k, -, rfl⟩
      exact absurd ⟨Int.natCast_nonneg _, by omega⟩ h

theorem contains_val :
  v.contains (k.val : Int) = true ↔ k ∈ v.toFinset
  := by
  rw [contains_iff]
  constructor
  · rintro ⟨k', hk', heq⟩
    have hfin : k' = k := Fin.ext (by omega)
    rwa [← hfin]
  · intro hk
    exact ⟨k, hk, rfl⟩

theorem add_val :
  v.add k.val
    = if getElem v.adjVect k k.isLt then (false, v)
      else (true, ⟨v.adjVect.set k true k.isLt, v.size + 1⟩)
  := by
  have hin : 0 ≤ (k.val : Int) ∧ (k.val : Int) < capacity := by omega
  rw [add, dif_pos hin]
  rfl

/-- The vertex of an index is inserted. -/
theorem toFinset_add :
  (v.add k.val).2.toFinset = insert k v.toFinset
  := by
  ext j
  rw [add_val, Finset.mem_insert]
  split
  · rename_i hedge
    rw [mem_toFinset]
    constructor
    · exact .inr
    · rintro (rfl | hj)
      · exact hedge
      · exact hj
  · rw [mem_toFinset, mem_toFinset, Fin.getElem_fin, Vector.getElem_set, Fin.ext_iff]
    split
    · rename_i heq
      simp [heq.symm]
    · rename_i hne
      simp [Ne.symm hne]

/-- The size of a vector is the number of its edges. -/
def Counted (v : AdjacencyVect capacity) : Prop := v.size = v.toFinset.card

theorem counted_new :
  (new capacity).Counted
  := by
  rw [Counted, toFinset_new, Finset.card_empty]
  rfl

theorem Counted.add (h : v.Counted) :
  (v.add k.val).2.Counted
  := by
  rw [Counted, toFinset_add, add_val]
  split
  · rename_i hedge
    rw [Finset.insert_eq_of_mem (mem_toFinset.mpr hedge)]
    exact h
  · rename_i hedge
    rw [Finset.card_insert_of_notMem fun hk => hedge (mem_toFinset.mp hk), ← h]

/-! ### Iterators -/

theorem findNext_eq_none :
  v.findNext i = none → ∀ k ∈ v.toFinset, k < i
  := by
  fun_induction v.findNext i with
  | case1 i h hedge => rintro ⟨⟩
  | case2 i h hedge ih =>
      intro hnone k hk
      have hlt := ih hnone k hk
      rcases Nat.lt_succ_iff_lt_or_eq.mp hlt with hlt | rfl
      · exact hlt
      · exact absurd (mem_toFinset.mp hk) hedge
  | case3 i h =>
      intro _ k _
      omega

/-- There is no edge between an index and the next vertex. -/
theorem le_of_mem {n : Fin capacity} :
  v.findNext i = some n → ∀ k ∈ v.toFinset, i ≤ k → n ≤ k
  := by
  fun_induction v.findNext i with
  | case1 i h hedge =>
      rintro ⟨⟩ k _ hk
      exact hk
  | case2 i h hedge ih =>
      intro hn k hk hik
      rcases Nat.lt_or_eq_of_le hik with hlt | rfl
      · exact ih hn k hk hlt
      · exact absurd (mem_toFinset.mp hk) hedge
  | case3 i h => rintro ⟨⟩

theorem mem_iterate :
  k ∈ v.iterate i ↔ k ∈ v.toFinset ∧ i ≤ k
  := by
  fun_induction v.iterate i with
  | case1 i h =>
      constructor
      · intro hk
        cases hk
      · rintro ⟨hk, hik⟩
        exact absurd (findNext_eq_none h k hk) (Nat.not_lt.mpr hik)
  | case2 i n h ih =>
      obtain ⟨hle, hedge⟩ := le_of_findNext h
      rw [List.mem_cons, ih]
      constructor
      · rintro (rfl | ⟨hk, hnk⟩)
        · exact ⟨mem_toFinset.mpr hedge, hle⟩
        · exact ⟨hk, by omega⟩
      · rintro ⟨hk, hik⟩
        rcases Nat.lt_or_eq_of_le (le_of_mem h k hk hik) with hlt | heq
        · exact .inr ⟨hk, hlt⟩
        · exact .inl (Fin.ext heq.symm)

/-- An iterator yields the vertices with an edge. -/
@[simp] theorem mem_elements : k ∈ v.elements ↔ k ∈ v.toFinset := by
  rw [elements, mem_iterate]
  exact and_iff_left (Nat.zero_le _)

end AdjacencyVect

/-! ### Edges of graphs -/

namespace MatrixGraph

variable {g : MatrixGraph} {i j : Int}

/-- The vertices with an edge to a vertex. -/
def adj (g : MatrixGraph) (v : Fin g.graphSize) : Finset (Fin g.graphSize) := g.matrix[v].toFinset

/-- Every edge is there in both directions, and the rows know how many edges they have. -/
structure WellFormed (g : MatrixGraph) : Prop where
  symm : ∀ u w, w ∈ g.adj u → u ∈ g.adj w
  counted : ∀ v : Fin g.graphSize, g.matrix[v].Counted

theorem getNeighbors_val (v : Fin g.graphSize) :
  g.getNeighbors v.val = g.matrix[v]
  := by
  have hin : 0 ≤ (v.val : Int) ∧ (v.val : Int) < g.graphSize := by omega
  rw [getNeighbors, dif_pos hin]
  rfl

theorem getEdge_iff :
  g.getEdge i j = true ↔ ∃ u w : Fin g.graphSize,
    (u.val : Int) = i ∧ (w.val : Int) = j ∧ w ∈ g.adj u
  := by
  rw [getEdge]
  split
  · rename_i h
    dsimp only
    rw [AdjacencyVect.contains_iff]
    constructor
    · rintro ⟨w, hw, rfl⟩
      exact ⟨_, w, by dsimp only; omega, rfl, hw⟩
    · rintro ⟨u, w, rfl, rfl, hw⟩
      exact ⟨w, hw, rfl⟩
  · rename_i h
    constructor
    · intro hfalse
      cases hfalse
    · rintro ⟨u, w, rfl, rfl, -⟩
      apply absurd _ h
      omega

theorem row_reset {size : Nat} {h : size ≤ Java.MAX_VALUE} (v : Fin (reset size h).graphSize) :
  (reset size h).matrix[v] = .new size
  := Vector.getElem_replicate v.isLt

theorem adj_reset {size : Nat} {h : size ≤ Java.MAX_VALUE} (v : Fin (reset size h).graphSize) :
  (reset size h).adj v = ∅
  := by
  rw [adj, row_reset]
  exact AdjacencyVect.toFinset_new

theorem wellFormed_reset {size : Nat} {h : size ≤ Java.MAX_VALUE} :
  (reset size h).WellFormed
  where
  symm u w hw := by
    rw [adj_reset] at hw
    exact absurd hw (Finset.notMem_empty w)
  counted v := by
    rw [row_reset]
    exact AdjacencyVect.counted_new

/-- A call of `setEdge` with vertices that are not there changes nothing. -/
theorem setEdge_outside (h : ¬ ((0 ≤ i ∧ i < g.graphSize) ∧ 0 ≤ j ∧ j < g.graphSize)) :
  g.setEdge i j = (false, g)
  := by
  rw [setEdge, dif_neg h]

/-- A vertex is added to one row of a matrix. -/
def addToRow {n : Nat} (m : Vector (AdjacencyVect n) n) (u w : Fin n) :
    Vector (AdjacencyVect n) n :=
  m.set u ((getElem m u u.isLt).add w.val).2 u.isLt

section

variable {n : Nat} {m : Vector (AdjacencyVect n) n} {u w x y : Fin n}

theorem getElem_addToRow :
  getElem (addToRow m u w) x x.isLt
    = if x = u then ((getElem m u u.isLt).add w.val).2 else getElem m x x.isLt
  := by
  rw [addToRow, Fin.getElem_fin, Vector.getElem_set]
  simp only [Fin.ext_iff, eq_comm]
  rfl

theorem mem_addToRow :
  y ∈ (getElem (addToRow m u w) x x.isLt).toFinset
    ↔ y ∈ (getElem m x x.isLt).toFinset ∨ x = u ∧ y = w
  := by
  rw [getElem_addToRow]
  split
  · rename_i heq
    rw [heq, AdjacencyVect.toFinset_add, Finset.mem_insert, or_comm]
    simp
  · rename_i hne
    simp [hne]

theorem counted_addToRow (h : ∀ v : Fin n, (getElem m v v.isLt).Counted) :
  (getElem (addToRow m u w) x x.isLt).Counted
  := by
  rw [getElem_addToRow]
  split
  · exact (h u).add
  · exact h x

end

/-- The graph with an edge between two vertices. -/
def withEdge (g : MatrixGraph) (u w : Fin g.graphSize) : MatrixGraph :=
  { g with matrix := addToRow (addToRow g.matrix u w) w u }

theorem setEdge_val (u w : Fin g.graphSize) :
  (g.setEdge u.val w.val).2 = g.withEdge u w
  := by
  have hin : (0 ≤ (u.val : Int) ∧ (u.val : Int) < g.graphSize)
      ∧ 0 ≤ (w.val : Int) ∧ (w.val : Int) < g.graphSize := by omega
  rw [setEdge, dif_pos hin]
  rfl

theorem mem_adj_withEdge {u w x y : Fin g.graphSize} :
  y ∈ (g.withEdge u w).adj x ↔ y ∈ g.adj x ∨ x = u ∧ y = w ∨ x = w ∧ y = u
  := by
  calc
    y ∈ (g.withEdge u w).adj x
        ↔ y ∈ (addToRow (addToRow g.matrix u w) w u)[x].toFinset := Iff.rfl
    _ ↔ y ∈ g.adj x ∨ x = u ∧ y = w ∨ x = w ∧ y = u := by
      rw [mem_addToRow, mem_addToRow, or_assoc]
      rfl

/-- Vertices are adjacent if they were, or if the edge is between them. -/
theorem getEdge_withEdge {u w : Fin g.graphSize} {x y : Int} :
  (g.withEdge u w).getEdge x y = true
    ↔ g.getEdge x y = true ∨ x = u.val ∧ y = w.val ∨ x = w.val ∧ y = u.val
  := by
  constructor
  · intro hxy
    obtain ⟨a, b, rfl, rfl, hab⟩ := getEdge_iff.mp hxy
    rcases mem_adj_withEdge.mp hab with hab | ⟨ha, hb⟩ | ⟨ha, hb⟩
    · exact .inl (getEdge_iff.mpr ⟨a, b, rfl, rfl, hab⟩)
    · exact .inr (.inl ⟨by rw [ha], by rw [hb]⟩)
    · exact .inr (.inr ⟨by rw [ha], by rw [hb]⟩)
  · intro hxy
    apply getEdge_iff.mpr
    rcases hxy with hxy | ⟨rfl, rfl⟩ | ⟨rfl, rfl⟩
    · obtain ⟨a, b, hx, hy, hab⟩ := getEdge_iff.mp hxy
      exact ⟨a, b, hx, hy, mem_adj_withEdge.mpr (.inl hab)⟩
    · exact ⟨u, w, rfl, rfl, mem_adj_withEdge.mpr (.inr (.inl ⟨rfl, rfl⟩))⟩
    · exact ⟨w, u, rfl, rfl, mem_adj_withEdge.mpr (.inr (.inr ⟨rfl, rfl⟩))⟩

theorem WellFormed.withEdge (h : g.WellFormed) (u w : Fin g.graphSize) :
  (g.withEdge u w).WellFormed
  where
  symm x y hy := by
    apply mem_adj_withEdge.mpr
    rcases mem_adj_withEdge.mp hy with hy | ⟨hxu, hyw⟩ | ⟨hxw, hyu⟩
    · exact .inl (h.symm x y hy)
    · exact .inr (.inr ⟨hyw, hxu⟩)
    · exact .inr (.inl ⟨hyu, hxw⟩)
  counted v := counted_addToRow fun _ => counted_addToRow h.counted

/-- A call of `setEdge` sets an edge between two vertices, or changes nothing. -/
theorem setEdge_cases (g : MatrixGraph) (i j : Int) :
  (g.setEdge i j).2 = g ∧ (∀ u w : Fin g.graphSize, ¬ ((u.val : Int) = i ∧ (w.val : Int) = j))
    ∨ ∃ u w : Fin g.graphSize, (u.val : Int) = i ∧ (w.val : Int) = j
      ∧ (g.setEdge i j).2 = g.withEdge u w
  := by
  by_cases h : (0 ≤ i ∧ i < g.graphSize) ∧ 0 ≤ j ∧ j < g.graphSize
  · right
    obtain ⟨u, rfl⟩ : ∃ u : Fin g.graphSize, (u.val : Int) = i :=
      ⟨⟨i.toNat, by omega⟩, by dsimp only; omega⟩
    obtain ⟨w, rfl⟩ : ∃ w : Fin g.graphSize, (w.val : Int) = j :=
      ⟨⟨j.toNat, by omega⟩, by dsimp only; omega⟩
    exact ⟨u, w, rfl, rfl, setEdge_val u w⟩
  · left
    rw [setEdge_outside h]
    refine ⟨rfl, ?_⟩
    rintro u w ⟨rfl, rfl⟩
    apply h
    omega

theorem WellFormed.setEdge (h : g.WellFormed) (i j : Int) :
  (g.setEdge i j).2.WellFormed
  := by
  rcases setEdge_cases g i j with ⟨heq, -⟩ | ⟨u, w, -, -, heq⟩
  · rwa [heq]
  · rw [heq]
    exact h.withEdge u w

/-- Every graph that is made by calls is well formed. -/
theorem wellFormed_run (h : g.WellFormed) :
  ∀ calls, (g.run calls).WellFormed
  := by
  intro calls
  induction calls generalizing g with
  | nil => exact h
  | cons call calls ih =>
      cases call with
      | reset size hsize => exact ih wellFormed_reset
      | setEdge i j => exact ih (h.setEdge i j)

end MatrixGraph

end Graphs
