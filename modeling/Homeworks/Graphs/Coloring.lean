import Homeworks.Coloring.Greedy
import Homeworks.Graphs.Edges
import Homeworks.Graphs.GreedyGCA
import Homeworks.Sorting.Correctness
import Mathlib.Data.Finset.Lattice.Fold
import Mathlib.Data.Fintype.Basic
import Mathlib.Data.List.Perm.Basic
import Mathlib.Order.Lattice.Nat

/-!
# The colours of a graph

`solve` colours the vertices greedily in the order in which they are sorted.  The colours of a
graph without self-loops are proper and few, and the sorter does not matter.
-/

namespace Graphs

variable {g : MatrixGraph} {u v w : Fin g.graphSize}

/-! ### Greedy vertices -/

/-- A vertex of a graph, with its neighbours. -/
def greedyVertex (g : MatrixGraph) (v : Fin g.graphSize) : GreedyVertex g.graphSize :=
  ⟨v.val, getElem g.matrix v (g.vertex_lt v)⟩

theorem greedyVertex_injective :
  Function.Injective (greedyVertex g)
  := by
  intro u w h
  have hid : (u.val : Int) = w.val := congrArg GreedyVertex.id h
  exact Fin.ext (Int.ofNat_inj.mp hid)

theorem toList_vertices :
  (vertices g).toList = (List.finRange g.graphSize).map (greedyVertex g)
  := by
  rw [vertices, Vector.toList_ofFn, List.ofFn_eq_map]
  apply List.map_congr_left
  intro v _
  rw [greedyVertex, MatrixGraph.getNeighbors_val]

/-- What a sorter does to the vertices is to take them in an order. -/
theorem exists_order {l : List (GreedyVertex g.graphSize)} (h : l.Perm (vertices g).toList) :
  ∃ order : List (Fin g.graphSize), order.Perm (List.finRange g.graphSize)
    ∧ l = order.map (greedyVertex g)
  := by
  rw [toList_vertices] at h
  exact Sorting.exists_map_of_perm greedyVertex_injective h

/-! ### Colours as finite sets -/

namespace GCASolution

variable {n : Nat}

/-- The colours of a solution. -/
def sets (s : GCASolution n) : List (Finset (Fin n)) := s.colors.map AdjacencyVect.toFinset

theorem sets_setColor {s : GCASolution n} {v : Fin n} {c : Nat} :
  (s.setColor v.val c).sets = s.sets.modify c (insert v)
  := by
  apply List.ext_getElem
  · simp [sets, setColor]
  · intro i hi _
    simp only [sets, setColor, List.getElem_map, List.getElem_modify]
    split
    · exact AdjacencyVect.toFinset_add
    · rfl

theorem sets_addColor {s : GCASolution n} :
  s.addColor.2.sets = s.sets ++ [∅]
  := by
  simp [sets, addColor]

end GCASolution

/-- The element behind a list is modified. -/
theorem modify_length_append {T : Type*} {f : T → T} {x : T} {l : List T} :
  (l ++ [x]).modify l.length f = l ++ [f x]
  := by
  induction l with
  | nil => rfl
  | cons y l ih => exact congrArg (y :: ·) ih

theorem disjoint_iff {n : Nat} {c1 c2 : AdjacencyVect n} :
  disjoint c1 c2 = true ↔ Disjoint c1.toFinset c2.toFinset
  := by
  rw [disjoint, List.all_eq_true, Finset.disjoint_left]
  simp only [AdjacencyVect.mem_elements, Bool.not_eq_true', ← Bool.not_eq_true,
    AdjacencyVect.contains_val]

section

variable {n : Nat} {s : GCASolution n} {vertex : GreedyVertex n} {i k : Nat}

theorem of_availableColor :
  availableColor s vertex i = some k →
    i ≤ k ∧ (∃ hk : k < s.colors.length, disjoint s.colors[k] vertex.neighbors = true)
      ∧ ∀ j (hj : j < s.colors.length), i ≤ j → j < k →
        disjoint s.colors[j] vertex.neighbors = false
  := by
  fun_induction availableColor s vertex i with
  | case1 i hi hdisjoint =>
      rintro ⟨⟩
      refine ⟨Nat.le_refl _, ⟨hi, hdisjoint⟩, ?_⟩
      intro j _ hij hji
      omega
  | case2 i hi hdisjoint ih =>
      intro hk
      obtain ⟨hle, hlast, hbefore⟩ := ih hk
      refine ⟨Nat.le_of_succ_le hle, hlast, ?_⟩
      intro j hj hij hjk
      rcases Nat.lt_or_eq_of_le hij with hlt | rfl
      · exact hbefore j hj hlt hjk
      · exact Bool.eq_false_of_not_eq_true hdisjoint
  | case3 i hi => rintro ⟨⟩

theorem of_availableColor_none :
  availableColor s vertex i = none →
    ∀ j (hj : j < s.colors.length), i ≤ j → disjoint s.colors[j] vertex.neighbors = false
  := by
  fun_induction availableColor s vertex i with
  | case1 i hi hdisjoint => rintro ⟨⟩
  | case2 i hi hdisjoint ih =>
      intro hnone j hj hij
      rcases Nat.lt_or_eq_of_le hij with hlt | rfl
      · exact ih hnone j hj hlt
      · exact Bool.eq_false_of_not_eq_true hdisjoint
  | case3 i hi =>
      intro _ j hj hij
      omega

end

/-- The vertex is put into the first colour without neighbours of it. -/
theorem sets_colorVertex {s : GCASolution g.graphSize} :
  (colorVertex s (greedyVertex g v)).sets = Coloring.place g.adj v s.sets
  := by
  have hfalse : ∀ j (hj : j < s.colors.length),
      disjoint s.colors[j] (greedyVertex g v).neighbors = false →
        ¬ Disjoint s.colors[j].toFinset (g.adj v) := by
    intro j hj hfalse hdisjoint
    have htrue : disjoint s.colors[j] (greedyVertex g v).neighbors = true :=
      disjoint_iff.mpr hdisjoint
    exact Bool.false_ne_true (hfalse.symm.trans htrue)
  rw [colorVertex]
  split
  · rename_i k hk
    obtain ⟨-, ⟨hlt, hdisjoint⟩, hbefore⟩ := of_availableColor hk
    have hlt' : k < s.sets.length := by rwa [GCASolution.sets, List.length_map]
    rw [Coloring.place_eq_modify hlt']
    · exact GCASolution.sets_setColor
    · simp only [GCASolution.sets, List.getElem_map]
      exact disjoint_iff.mp hdisjoint
    · intro j hj
      have hjlt := Nat.lt_trans hj hlt
      simp only [GCASolution.sets, List.getElem_map]
      exact hfalse j hjlt (hbefore j hjlt (Nat.zero_le _) hj)
  · rename_i hnone
    rw [Coloring.place_eq_append]
    · calc
        (s.addColor.2.setColor v.val s.addColor.1).sets
            = s.addColor.2.sets.modify s.addColor.1 (insert v) := GCASolution.sets_setColor
        _ = (s.sets ++ [∅]).modify s.sets.length (insert v) := by
          rw [GCASolution.sets_addColor, GCASolution.sets, List.length_map]
          rfl
        _ = s.sets ++ [{v}] := modify_length_append
    · intro c hc
      obtain ⟨color, hcolor, rfl⟩ := List.mem_map.mp hc
      obtain ⟨j, hj, rfl⟩ := List.mem_iff_getElem.mp hcolor
      exact hfalse j hj (of_availableColor_none hnone j hj (Nat.zero_le _))

/-- A solution colours the vertices greedily, in the order of a sorter. -/
theorem sets_solve {sort : Sorting.SortMethod (GreedyVertex g.graphSize) g.graphSize}
    (hsort : Sorting.Sorts compareVertices sort) (random : Sorting.Random) :
  ∃ order : List (Fin g.graphSize), order.Perm (List.finRange g.graphSize)
    ∧ (solve g sort random).sets = Coloring.greedy g.adj order
  := by
  have hperm : (sortedVertices g sort random).toList.Perm (vertices g).toList :=
    (hsort (vertices g) 0 g.graphSize (Nat.le_refl _) random).1.perm
  obtain ⟨order, horder, heq⟩ := exists_order hperm
  refine ⟨order, horder, ?_⟩
  have hfold : ∀ (vs : List (Fin g.graphSize)) (s : GCASolution g.graphSize),
      ((vs.map (greedyVertex g)).foldl colorVertex s).sets
        = vs.foldl (fun cs v => Coloring.place g.adj v cs) s.sets := by
    intro vs
    induction vs with
    | nil => exact fun _ => rfl
    | cons v vs ih =>
        intro s
        rw [List.map_cons, List.foldl_cons, List.foldl_cons, ih, sets_colorVertex]
  rw [solve, heq, hfold]
  rfl

/-! ### Degrees -/

/-- The number of vertices with an edge to a vertex. -/
def degree (g : MatrixGraph) (v : Fin g.graphSize) : Nat :=
  (Finset.univ.filter fun w : Fin g.graphSize => g.getEdge v.val w.val = true).card

/-- The largest degree of a vertex. -/
def maxDegree (g : MatrixGraph) : Nat := Finset.univ.sup (degree g)

theorem getEdge_val :
  g.getEdge v.val w.val = true ↔ w ∈ g.adj v
  := by
  rw [MatrixGraph.getEdge_iff]
  constructor
  · rintro ⟨v', w', hv, hw, hadj⟩
    obtain rfl : v' = v := Fin.ext (Int.ofNat_inj.mp hv)
    obtain rfl : w' = w := Fin.ext (Int.ofNat_inj.mp hw)
    exact hadj
  · intro hadj
    exact ⟨v, w, rfl, rfl, hadj⟩

theorem card_adj :
  (g.adj v).card = degree g v
  := by
  rw [degree]
  congr 1
  ext w
  rw [Finset.mem_filter, getEdge_val]
  exact (and_iff_right (Finset.mem_univ w)).symm

/-- Without a call that sets a self-loop there is none. -/
theorem loopless_run {calls : List MatrixGraph.Call} (hcalls : ∀ i, .setEdge i i ∉ calls)
    (h : ∀ v, v ∉ g.adj v) :
  ∀ v, v ∉ (g.run calls).adj v
  := by
  induction calls generalizing g with
  | nil => exact h
  | cons call calls ih =>
      have hrest : ∀ i, .setEdge i i ∉ calls := fun i hi => hcalls i (List.mem_cons_of_mem _ hi)
      cases call with
      | reset size hsize =>
          apply ih hrest
          intro v
          rw [MatrixGraph.adj_reset]
          exact Finset.notMem_empty v
      | setEdge i j =>
          have hne : i ≠ j := by
            rintro rfl
            exact hcalls i List.mem_cons_self
          apply ih hrest
          rcases MatrixGraph.setEdge_cases g i j with ⟨heq, -⟩ | ⟨u, w, rfl, rfl, heq⟩
          · rw [heq]
            exact h
          · rw [heq]
            intro v hv
            rcases MatrixGraph.mem_adj_withEdge.mp hv with hv | ⟨hu, hw⟩ | ⟨hw, hu⟩
            · exact h v hv
            · exact hne (congrArg (fun x : Fin g.graphSize => (x.val : Int)) (hu.symm.trans hw))
            · exact hne (congrArg (fun x : Fin g.graphSize => (x.val : Int)) (hu.symm.trans hw))

/-! ### The order of the vertices -/

/-- The vertices are compared by the numbers of their neighbours, then by their ids. -/
theorem totalPreorder_compareVertices {n : Nat} :
  Sorting.TotalPreorder (compareVertices : GreedyVertex n → GreedyVertex n → Int)
  where
  swap x y := by
    dsimp only [compareVertices, GreedyVertex.compareTo]
    split <;> split <;> omega
  trans x y z := by
    dsimp only [compareVertices, GreedyVertex.compareTo]
    split <;> split <;> split <;> omega

/-- Only equal vertices of a graph compare as equal. -/
theorem eq_of_compareVertices {x y : GreedyVertex g.graphSize} (hx : x ∈ (vertices g).toList)
    (hy : y ∈ (vertices g).toList) (hle : compareVertices x y ≤ 0)
    (hge : compareVertices y x ≤ 0) :
  x = y
  := by
  rw [toList_vertices] at hx hy
  obtain ⟨u, -, rfl⟩ := List.mem_map.mp hx
  obtain ⟨w, -, rfl⟩ := List.mem_map.mp hy
  have hid : u.val = w.val := by
    dsimp only [compareVertices, GreedyVertex.compareTo, greedyVertex] at hle hge
    split at hle <;> split at hge <;> omega
  rw [Fin.ext hid]

/-! ### Proper colourings -/

/-- Every vertex of a graph that is made without self-loops is in exactly one colour; no colour
is empty or contains two adjacent vertices, and there is at most one more than the largest
degree. -/
theorem solve_colors (calls : List MatrixGraph.Call) (hcalls : ∀ i, .setEdge i i ∉ calls)
    (sort : Sorting.SortMethod (GreedyVertex (MatrixGraph.empty.run calls).graphSize)
      (MatrixGraph.empty.run calls).graphSize)
    (hsort : Sorting.Sorts compareVertices sort) (random : Sorting.Random) :
  let g := MatrixGraph.empty.run calls
  let colors := (solve g sort random).colors
  (∀ v : Fin g.graphSize, ∃! i : Fin colors.length, colors[i].contains v.val = true)
    ∧ (∀ color ∈ colors, ∀ u w, color.contains u = true → color.contains w = true →
      g.getEdge u w = false)
    ∧ (∀ color ∈ colors, ∃ v, color.contains v = true)
    ∧ colors.length ≤ maxDegree g + 1
  := by
  intro g colors
  have hwf : g.WellFormed := MatrixGraph.wellFormed_run MatrixGraph.wellFormed_reset calls
  have hloop : ∀ v, v ∉ g.adj v := by
    apply loopless_run hcalls
    intro v
    exact v.elim0
  obtain ⟨order, horder, hsets⟩ := sets_solve hsort random
  have hnodup : order.Nodup := horder.nodup_iff.mpr (List.nodup_finRange _)
  have hcoloring := Coloring.greedy_isColoring hwf.symm (fun v _ => hloop v) hnodup
  rw [← hsets] at hcoloring
  refine ⟨?_, ?_, ?_, ?_⟩
  · intro v
    obtain ⟨i, hi, hunique⟩ :=
      hcoloring.existsUnique (horder.mem_iff.mpr (List.mem_finRange v))
    have hlength : (solve g sort random).sets.length = colors.length := List.length_map _
    have hmem : ∀ j : Fin colors.length, colors[j].contains v.val = true
        ↔ v ∈ (solve g sort random).sets[j.val] := by
      intro j
      simp only [GCASolution.sets, List.getElem_map]
      exact AdjacencyVect.contains_val
    refine ⟨i.cast hlength, (hmem _).mpr hi, ?_⟩
    intro j hj
    rw [← hunique (j.cast hlength.symm) ((hmem j).mp hj)]
    rfl
  · intro color hcolor u w hu hw
    rw [AdjacencyVect.contains_iff] at hu hw
    obtain ⟨u, hu, rfl⟩ := hu
    obtain ⟨w, hw, rfl⟩ := hw
    have hproper := hcoloring.proper _ (List.mem_map_of_mem hcolor) u hu
    rw [← Bool.not_eq_true, getEdge_val]
    exact Finset.disjoint_left.mp hproper hw
  · intro color hcolor
    obtain ⟨v, hv⟩ := hcoloring.nonempty _ (List.mem_map_of_mem hcolor)
    exact ⟨v.val, AdjacencyVect.contains_val.mpr hv⟩
  · calc
      colors.length = (solve g sort random).sets.length := by
        rw [GCASolution.sets, List.length_map]
      _ ≤ maxDegree g + 1 := by
        rw [hsets]
        apply Coloring.length_greedy hwf.symm (fun v _ => hloop v) hnodup
        intro v _
        rw [card_adj]
        exact Finset.le_sup (Finset.mem_univ v)

theorem solve_colors_triangle :
  let g := MatrixGraph.empty.run [.reset 3 (Nat.le_of_ble_eq_true rfl), .setEdge 0 1, .setEdge 1 2,
    .setEdge 2 0]
  let colors := (solve g (Sorting.Sorter.selectSort.sort compareVertices) ⟨id, 0⟩).colors
  (∀ v : Fin g.graphSize, ∃! i : Fin colors.length, (getElem colors i i.isLt).contains v.val = true)
    ∧ (∀ color ∈ colors, ∀ u w, color.contains u = true → color.contains w = true →
      g.getEdge u w = false)
    ∧ (∀ color ∈ colors, ∃ v, color.contains v = true)
    ∧ colors.length ≤ maxDegree g + 1
  := by
  have hcalls : ∀ i, MatrixGraph.Call.setEdge i i
      ∉ [.reset 3 (Nat.le_of_ble_eq_true rfl), .setEdge 0 1, .setEdge 1 2, .setEdge 2 0] := by
    intro i hi
    simp only [List.mem_cons, List.not_mem_nil, or_false, MatrixGraph.Call.setEdge.injEq,
      reduceCtorEq, false_or] at hi
    omega
  exact solve_colors _ hcalls _
    (Sorting.Sorter.sort_sorts totalPreorder_compareVertices .selectSort)
    ⟨id, 0⟩

/-- The colours do not depend on the sorter or on the random numbers. -/
theorem solve_unique (g : MatrixGraph) (sorter sorter' : Sorting.Sorter)
    (random random' : Sorting.Random) :
  solve g (sorter.sort compareVertices) random = solve g (sorter'.sort compareVertices) random'
  := by
  rw [solve, solve, sortedVertices, sortedVertices]
  rw [Sorting.Sorts.unique (sorter.sort_sorts totalPreorder_compareVertices)
    (sorter'.sort_sorts totalPreorder_compareVertices) random random']
  intro x hx y hy
  exact eq_of_compareVertices hx hy

end Graphs
