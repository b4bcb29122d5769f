import Homeworks.Graphs.VectorCalls
import Mathlib.Data.Finset.Sort

/-!
# Adjacency vectors as finite sets

Every call of a vector is an operation on the set of its vertices, and returns whether the set has
changed.  The size is the number of elements, and the iterator and the exports to arrays list them
in increasing order.
-/

namespace Graphs

namespace AdjacencyVect

variable {capacity : Nat} {v : AdjacencyVect capacity} {k : Fin capacity} {i : Nat}

/-! ### Lists of the elements -/

/-- An iterator yields the vertices in increasing order. -/
theorem pairwise_iterate (v : AdjacencyVect capacity) (i : Nat) :
  (v.iterate i).Pairwise (· < ·)
  := by
  fun_induction v.iterate i with
  | case1 i h => exact .nil
  | case2 i n h ih =>
      refine List.Pairwise.cons ?_ ih
      intro k hk
      have hle := (mem_iterate.mp hk).2
      exact Fin.lt_def.mpr (by omega)

theorem pairwise_elements (v : AdjacencyVect capacity) :
  v.elements.Pairwise (· < ·)
  := pairwise_iterate v 0

theorem nodup_elements (v : AdjacencyVect capacity) :
  v.elements.Nodup
  := (pairwise_elements v).imp fun hlt => Fin.ne_of_lt hlt

theorem toFinset_elements (v : AdjacencyVect capacity) :
  v.elements.toFinset = v.toFinset
  := by
  ext k
  rw [List.mem_toFinset, mem_elements]

theorem elements_eq_sort (v : AdjacencyVect capacity) :
  v.elements = v.toFinset.sort
  := by
  rw [← toFinset_elements]
  exact (List.toFinset_sort (· ≤ ·) (nodup_elements v)).mpr ((pairwise_elements v).imp Fin.le_of_lt)
    |>.symm

theorem elements_eq_filter (v : AdjacencyVect capacity) :
  v.elements = (List.finRange capacity).filter fun k => getElem v.adjVect k k.isLt
  := by
  apply (pairwise_elements v).eq_of_mem_iff ((List.pairwise_lt_finRange capacity).filter _)
  intro k
  rw [mem_elements, mem_toFinset, List.mem_filter]
  exact (and_iff_right (List.mem_finRange k)).symm

theorem length_elements (h : v.Counted) :
  v.elements.length = v.size
  := by
  rw [h, ← toFinset_elements, List.toFinset_card_of_nodup (nodup_elements v)]

/-! ### Single elements -/

/-- A call makes a set of a vector, and returns whether the set has changed. -/
structure Becomes (v : AdjacencyVect capacity) (r : Bool × AdjacencyVect capacity)
    (S : Finset (Fin capacity)) : Prop where
  counted : r.2.Counted
  toFinset : r.2.toFinset = S
  changed : r.1 = true ↔ S ≠ v.toFinset

/-- The vertices among some elements. -/
def among {α : Type} [DecidableEq α] (valueOf : Int → α) (objs : List α) : Finset (Fin capacity) :=
  Finset.univ.filter fun k => valueOf k.val ∈ objs

@[simp] theorem mem_among {α : Type} [DecidableEq α] {valueOf : Int → α} {objs : List α} :
    k ∈ among valueOf objs ↔ valueOf k.val ∈ objs := by
  simp [among]

theorem Becomes.same (h : v.Counted) :
  v.Becomes (false, v) v.toFinset
  := ⟨h, rfl, iff_of_false Bool.false_ne_true fun hne => hne rfl⟩

/-- No vertex has an index that is out of range. -/
theorem among_outside {α : Type} [DecidableEq α] {valueOf : Int → α} {index : Int}
    (hinj : Function.Injective valueOf) (h : ¬ (0 ≤ index ∧ index < capacity)) :
  (among valueOf [valueOf index] : Finset (Fin capacity)) = ∅
  := by
  ext k
  rw [mem_among, List.mem_singleton]
  refine iff_of_false (fun heq => h ?_) (Finset.notMem_empty k)
  have hk := hinj heq
  omega

theorem among_val {α : Type} [DecidableEq α] {valueOf : Int → α}
    (hinj : Function.Injective valueOf) :
  (among valueOf [valueOf k.val] : Finset (Fin capacity)) = {k}
  := by
  ext j
  rw [mem_among, List.mem_singleton, hinj.eq_iff, Finset.mem_singleton, Fin.ext_iff]
  exact Int.ofNat_inj

/-- An index is a vertex or out of range. -/
theorem index_cases (capacity : Nat) (index : Int) :
  (∃ k : Fin capacity, (k.val : Int) = index) ∨ ¬ (0 ≤ index ∧ index < capacity)
  := by
  by_cases h : 0 ≤ index ∧ index < capacity
  · refine .inl ⟨⟨index.toNat, by omega⟩, ?_⟩
    dsimp only
    omega
  · exact .inr h

theorem addInteger_becomes (h : v.Counted) (index : Option Int) :
  v.Becomes (v.addInteger index) (v.toFinset ∪ among some [index])
  := by
  have hsame := Becomes.same h
  cases index with
  | none =>
      have hnone : (among some [none] : Finset (Fin capacity)) = ∅ := by
        ext k
        simp
      rwa [hnone, Finset.union_empty]
  | some index =>
      rcases index_cases capacity index with ⟨k, rfl⟩ | hout
      · rw [among_val (Option.some_injective _), Finset.union_comm, ← Finset.insert_eq]
        refine ⟨h.add, toFinset_add, ?_⟩
        rw [ne_eq, Finset.insert_eq_self, mem_toFinset, addInteger, add_val]
        split_ifs with hedge <;> simp [hedge]
      · rw [among_outside (Option.some_injective _) hout, Finset.union_empty, addInteger, add,
          dif_neg hout]
        exact hsame

/-- An edge is cleared. -/
theorem toFinset_unset (v : AdjacencyVect capacity) (k : Fin capacity) (size : Nat) :
  (⟨v.adjVect.set k false k.isLt, size⟩ : AdjacencyVect capacity).toFinset = v.toFinset.erase k
  := by
  ext j
  rw [Finset.mem_erase, mem_toFinset, mem_toFinset, Fin.getElem_fin, Vector.getElem_set]
  rcases eq_or_ne j k with rfl | hne
  · simp
  · rw [if_neg (Ne.symm (Fin.val_ne_of_ne hne))]
    simp [hne]

/-- A vector with an edge that is cleared and no longer counted. -/
theorem counted_unset (h : v.Counted) (hk : k ∈ v.toFinset) :
  (⟨v.adjVect.set k false k.isLt, v.size - 1⟩ : AdjacencyVect capacity).Counted
  := by
  rw [Counted, toFinset_unset, Finset.card_erase_of_mem hk, ← h]

theorem unset_becomes (h : v.Counted) (hk : k ∈ v.toFinset) :
  v.Becomes (true, ⟨v.adjVect.set k false k.isLt, v.size - 1⟩) (v.toFinset.erase k)
  := by
  refine ⟨counted_unset h hk, toFinset_unset v k _, iff_of_true rfl fun heq => ?_⟩
  exact Finset.erase_eq_self.mp heq hk

theorem integer_injective : Function.Injective Obj.integer := fun _ _ h => Obj.integer.inj h

theorem remove_becomes (h : v.Counted) (obj : Obj) :
  v.Becomes (v.remove obj) (v.toFinset \ among .integer [obj])
  := by
  have hsame := Becomes.same h
  cases obj with
  | null | other =>
      have hnone : ∀ {obj : Obj}, (∀ n, obj ≠ .integer n) →
          (among .integer [obj] : Finset (Fin capacity)) = ∅ := by
        intro obj hobj
        ext k
        simp [Ne.symm (hobj k.val)]
      rw [hnone (by simp), Finset.sdiff_empty]
      exact hsame
  | integer vertex =>
      rcases index_cases capacity vertex with ⟨k, rfl⟩ | hout
      · have hin : 0 ≤ (k.val : Int) ∧ (k.val : Int) < capacity := by omega
        rw [among_val integer_injective, Finset.sdiff_singleton_eq_erase, remove, dif_pos hin]
        change v.Becomes (if v.adjVect[k] then _ else _) _
        split_ifs with hedge
        · exact unset_becomes h (mem_toFinset.mpr hedge)
        · rw [Finset.erase_eq_of_notMem fun hk => hedge (mem_toFinset.mp hk)]
          exact hsame
      · rw [among_outside integer_injective hout, Finset.sdiff_empty, remove, dif_neg hout]
        exact hsame

/-! ### Bulk operations -/

section

variable {α : Type} {op : Finset (Fin capacity) → α → Finset (Fin capacity)}

/-- Operations all make a set larger, or all make it smaller. -/
def OneWay (op : Finset (Fin capacity) → α → Finset (Fin capacity)) : Prop :=
  (∀ S x, S ⊆ op S x) ∨ ∀ S x, op S x ⊆ S

theorem ne_of_foldl (hop : OneWay op) (objs : List α) (S : Finset (Fin capacity)) (x : α) :
  op S x ≠ S ∨ objs.foldl op (op S x) ≠ op S x ↔ objs.foldl op (op S x) ≠ S
  := by
  have hchain : (S ⊆ op S x ∧ op S x ⊆ objs.foldl op (op S x))
      ∨ objs.foldl op (op S x) ⊆ op S x ∧ op S x ⊆ S := by
    refine hop.imp (fun hop => ⟨hop S x, ?_⟩) fun hop => ⟨?_, hop S x⟩
    · generalize op S x = T
      induction objs generalizing T with
      | nil => exact subset_rfl
      | cons y objs ih => exact (hop T y).trans (ih (op T y))
    · generalize op S x = T
      induction objs generalizing T with
      | nil => exact subset_rfl
      | cons y objs ih => exact (ih (op T y)).trans (hop T y)
  constructor
  · intro hne heq
    rw [heq] at hchain hne
    have hmid : op S x = S := by
      rcases hchain with ⟨hle, hge⟩ | ⟨hle, hge⟩
      · exact hge.antisymm hle
      · exact hge.antisymm hle
    rcases hne with hne | hne
    · exact hne hmid
    · exact hne hmid.symm
  · intro hne
    by_contra hnot
    rw [not_or, not_not, not_not] at hnot
    exact hne (hnot.2.trans hnot.1)

/-- A loop over elements whose single calls are operations. -/
theorem forEach_becomes {body : AdjacencyVect capacity → α → Bool × AdjacencyVect capacity}
    (hop : OneWay op)
    (hbody : ∀ (v : AdjacencyVect capacity) x, v.Counted → v.Becomes (body v x) (op v.toFinset x))
    (h : v.Counted) (modified : Bool) (objs : List α) :
  (forEach body modified v objs).2.Counted
    ∧ (forEach body modified v objs).2.toFinset = objs.foldl op v.toFinset
    ∧ ((forEach body modified v objs).1 = true
      ↔ modified = true ∨ objs.foldl op v.toFinset ≠ v.toFinset)
  := by
  induction objs generalizing v modified with
  | nil => exact ⟨h, rfl, by simp [forEach]⟩
  | cons x objs ih =>
      have hx := hbody v x h
      obtain ⟨hcounted, hset, hmodified⟩ := ih hx.counted (modified || (body v x).1)
      refine ⟨hcounted, hset.trans (by rw [hx.toFinset]; rfl), hmodified.trans ?_⟩
      rw [Bool.or_eq_true, hx.changed, hx.toFinset, or_assoc, List.foldl_cons, ne_of_foldl hop]

end

theorem foldl_union (objs : List (Option Int)) (S : Finset (Fin capacity)) :
  objs.foldl (fun S obj => S ∪ among some [obj]) S = S ∪ among some objs
  := by
  induction objs generalizing S with
  | nil =>
      ext k
      simp
  | cons obj objs ih =>
      rw [List.foldl_cons, ih]
      ext k
      simp

theorem foldl_sdiff (objs : List Obj) (S : Finset (Fin capacity)) :
  objs.foldl (fun S obj => S \ among .integer [obj]) S = S \ among .integer objs
  := by
  induction objs generalizing S with
  | nil =>
      ext k
      simp
  | cons obj objs ih =>
      rw [List.foldl_cons, ih]
      ext k
      simp [and_assoc]

/-- All vertices of the vector itself are there already. -/
theorem forEachSelf_add (modified : Bool) {nextIndex : Option (Fin capacity)}
    (hnext : ∀ k ∈ nextIndex, k ∈ v.toFinset) :
  forEachSelf (fun v vertex => v.addInteger (some vertex)) modified v nextIndex = (modified, v)
  := by
  fun_induction forEachSelf (fun v vertex => v.addInteger (some vertex)) modified v nextIndex with
  | case1 modified v => rfl
  | case2 modified v k r ih =>
      have hedge := mem_toFinset.mp (hnext k rfl)
      have hr : r = (false, v) := by
        change v.add k.val = _
        rw [add_val, if_pos hedge]
      rw [hr, Bool.or_false] at ih ⊢
      exact ih fun k' hk' => mem_toFinset.mpr (le_of_findNext hk').2

/-- The vertices of the vector itself are removed one after the other. -/
theorem forEachSelf_remove (modified : Bool) (nextIndex : Option (Fin capacity)) (h : v.Counted)
    (hnext : ∀ k ∈ v.toFinset, ∃ n ∈ nextIndex, n ≤ k) (hmem : ∀ n ∈ nextIndex, n ∈ v.toFinset) :
  (forEachSelf (fun v vertex => v.remove (.integer vertex)) modified v nextIndex).2.Counted
    ∧ (forEachSelf (fun v vertex => v.remove (.integer vertex)) modified v nextIndex).2.toFinset = ∅
    ∧ ((forEachSelf (fun v vertex => v.remove (.integer vertex)) modified v nextIndex).1 = true
      ↔ modified = true ∨ v.toFinset ≠ ∅)
  := by
  fun_induction forEachSelf (fun v vertex => v.remove (.integer vertex)) modified v nextIndex with
  | case1 modified v =>
      have hempty : v.toFinset = ∅ := by
        apply Finset.eq_empty_of_forall_notMem
        intro k hk
        obtain ⟨n, hn, -⟩ := hnext k hk
        cases hn
      exact ⟨h, hempty, by simp [hempty]⟩
  | case2 modified v k r ih =>
      have hk : k ∈ v.toFinset := hmem k rfl
      have hr : v.Becomes r (v.toFinset.erase k) := by
        have hremove := remove_becomes h (.integer k.val)
        rwa [among_val integer_injective, Finset.sdiff_singleton_eq_erase] at hremove
      have hset := hr.toFinset
      obtain ⟨hcounted, hempty, hmodified⟩ := ih hr.counted
        (by
          intro j hj
          rw [hset, Finset.mem_erase] at hj
          obtain ⟨n, hn, hle⟩ := hnext j hj.2
          cases hn
          have hlt : k.val + 1 ≤ j.val := by
            have hne := Fin.val_ne_of_ne hj.1
            have hle := Fin.le_def.mp hle
            omega
          cases hfind : v.findNext (k + 1) with
          | none => exact absurd (findNext_eq_none hfind j hj.2) (by omega)
          | some n => exact ⟨n, rfl, le_of_mem hfind j hj.2 hlt⟩)
        (by
          intro n hn
          obtain ⟨hle, hedge⟩ := le_of_findNext hn
          rw [hset, Finset.mem_erase]
          exact ⟨fun heq => by omega, mem_toFinset.mpr hedge⟩)
      refine ⟨hcounted, hempty, iff_of_true (hmodified.mpr (.inl ?_)) (.inr ?_)⟩
      · rw [hr.changed.mpr, Bool.or_true]
        exact fun heq => Finset.erase_eq_self.mp heq hk
      · exact Finset.ne_empty_of_mem hk

/-- Whether `retainAll` keeps a vertex. -/
def keeps : Argument Obj → Fin capacity → Bool
  | .elements objs, k => .integer k.val ∈ objs
  | .self, _ => true

theorem retainAt_becomes (h : v.Counted) (collect : Argument Obj) (k : Fin capacity) :
  v.Becomes (retainAt collect (false, v) k)
    (if keeps collect k = true then v.toFinset else v.toFinset.erase k)
  := by
  have hsame := Becomes.same h
  rw [retainAt]
  by_cases hk : k ∈ v.toFinset
  · have hcontains : v.argumentContains collect k.val = keeps collect k := by
      cases collect with
      | elements objs => rfl
      | self => exact contains_val.mpr hk
    have hedge : v.adjVect[k] = true := mem_toFinset.mp hk
    dsimp only
    rw [hcontains, hedge, Bool.true_and]
    cases keeps collect k with
    | true => exact hsame
    | false => exact unset_becomes h hk
  · have hedge : v.adjVect[k] = false := Bool.eq_false_of_not_eq_true fun hedge =>
      hk (mem_toFinset.mpr hedge)
    dsimp only
    rw [hedge, Bool.false_and, Finset.erase_eq_of_notMem hk, ite_self]
    exact hsame

/-- The loop of `retainAll` as one over the vertices. -/
theorem foldl_retainAt (collect : Argument Obj) (modified : Bool) (ks : List (Fin capacity)) :
  ks.foldl (retainAt collect) (modified, v)
    = forEach (fun v k => retainAt collect (false, v) k) modified v ks
  := by
  induction ks generalizing modified v with
  | nil => rfl
  | cons k ks ih =>
      rw [List.foldl_cons, forEach, ← ih]
      congr 1
      simp only [retainAt]
      split_ifs
      · rw [Bool.or_true]
      · rw [Bool.or_false]

theorem foldl_keeps (collect : Argument Obj) (ks : List (Fin capacity))
    (S : Finset (Fin capacity)) :
  ks.foldl (fun S k => if keeps collect k = true then S else S.erase k) S
    = {j ∈ S | j ∈ ks → keeps collect j = true}
  := by
  induction ks generalizing S with
  | nil => simp
  | cons k ks ih =>
      rw [List.foldl_cons, ih]
      ext j
      rcases eq_or_ne j k with rfl | hne
      · cases hkeeps : keeps collect j <;> simp [hkeeps]
      · cases hkeeps : keeps collect k <;> simp [hne]

theorem clear_eq (v : AdjacencyVect capacity) :
  v.clear = new capacity
  := by
  have hset : ∀ (l : List (Fin capacity)) (bits : Vector Bool capacity) (k : Fin capacity),
      (l.foldl (fun bits (i : Fin capacity) => bits.set i false) bits)[k]
        = if k ∈ l then false else bits[k] := by
    intro l
    induction l with
    | nil => intro bits k; simp
    | cons i l ih =>
        intro bits k
        rw [List.foldl_cons, ih]
        rcases eq_or_ne k i with rfl | hne
        · simp
        · have hval : i.val ≠ k.val := Ne.symm (Fin.val_ne_of_ne hne)
          simp [hne, hval]
  rw [clear, new]
  congr 1
  apply Vector.ext
  intro i hi
  have hall := hset (List.finRange capacity) v.adjVect ⟨i, hi⟩
  rw [if_pos (List.mem_finRange _)] at hall
  rw [Vector.getElem_replicate]
  exact hall

/-! ### Calls -/

/-- What a call makes of a set. -/
def Call.apply (S : Finset (Fin capacity)) : Call → Finset (Fin capacity)
  | .add index => S ∪ among some [index]
  | .addAll (.elements objs) => S ∪ among some objs
  | .addAll .self => S ∪ S
  | .remove obj => S \ among .integer [obj]
  | .removeAll (.elements objs) => S \ among .integer objs
  | .removeAll .self => S \ S
  | .retainAll (.elements objs) => S ∩ among .integer objs
  | .retainAll .self => S ∩ S
  | .clear => ∅

theorem addAll_becomes (h : v.Counted) (collect : Argument (Option Int)) :
  v.Becomes (v.addAll collect) ((Call.addAll collect).apply v.toFinset)
  := by
  cases collect with
  | elements objs =>
      have hop : OneWay fun (S : Finset (Fin capacity)) index => S ∪ among some [index] :=
        .inl fun _ _ => Finset.subset_union_left
      obtain ⟨hcounted, hset, hmodified⟩ :=
        forEach_becomes hop (fun v index h => addInteger_becomes h index) h false objs
      rw [foldl_union] at hset hmodified
      exact ⟨hcounted, hset, hmodified.trans (or_iff_right Bool.false_ne_true)⟩
  | self =>
      rw [addAll, forEachSelf_add false fun k hk => mem_toFinset.mpr (le_of_findNext hk).2]
      change v.Becomes _ (v.toFinset ∪ v.toFinset)
      rw [Finset.union_self]
      exact .same h

theorem removeAll_becomes (h : v.Counted) (collect : Argument Obj) :
  v.Becomes (v.removeAll collect) ((Call.removeAll collect).apply v.toFinset)
  := by
  cases collect with
  | elements objs =>
      have hop : OneWay fun (S : Finset (Fin capacity)) (obj : Obj) => S \ among .integer [obj] :=
        .inr fun _ _ => Finset.sdiff_subset
      obtain ⟨hcounted, hset, hmodified⟩ :=
        forEach_becomes hop (fun v obj h => remove_becomes h obj) h false objs
      rw [foldl_sdiff] at hset hmodified
      exact ⟨hcounted, hset, hmodified.trans (or_iff_right Bool.false_ne_true)⟩
  | self =>
      obtain ⟨hcounted, hset, hmodified⟩ := forEachSelf_remove false (v.findNext 0) h
        (by
          intro k hk
          cases hfind : v.findNext 0 with
          | none => exact absurd (findNext_eq_none hfind k hk) (Nat.not_lt_zero _)
          | some n => exact ⟨n, rfl, le_of_mem hfind k hk (Nat.zero_le _)⟩)
        fun n hn => mem_toFinset.mpr (le_of_findNext hn).2
      change v.Becomes _ (v.toFinset \ v.toFinset)
      rw [Finset.sdiff_self]
      exact ⟨hcounted, hset, hmodified.trans (by simp [eq_comm])⟩

theorem retainAll_becomes (h : v.Counted) (collect : Argument Obj) :
  v.Becomes (v.retainAll collect) ((Call.retainAll collect).apply v.toFinset)
  := by
  have hop : OneWay fun (S : Finset (Fin capacity)) k =>
      if keeps collect k = true then S else S.erase k := by
    refine .inr fun S k => ?_
    dsimp only
    split_ifs
    · exact subset_rfl
    · exact Finset.erase_subset k S
  obtain ⟨hcounted, hset, hmodified⟩ := forEach_becomes hop
    (fun v k h => retainAt_becomes h collect k) h false (List.finRange capacity)
  rw [← foldl_retainAt, foldl_keeps] at hset hmodified
  rw [← foldl_retainAt] at hcounted
  have happly : (Call.retainAll collect).apply v.toFinset
      = {j ∈ v.toFinset | j ∈ List.finRange capacity → keeps collect j = true} := by
    ext j
    cases collect with
    | elements objs => simp [Call.apply, keeps]
    | self => simp [Call.apply, keeps]
  rw [happly]
  exact ⟨hcounted, hset, hmodified.trans (or_iff_right Bool.false_ne_true)⟩

/-- A call makes of the set what it is to make, and what it returns says whether the set has
changed. -/
theorem call_becomes (h : v.Counted) (c : Call) :
  (v.call c).2.Counted ∧ (v.call c).2.toFinset = c.apply v.toFinset
    ∧ ∀ b, (v.call c).1 = some b → (b = true ↔ c.apply v.toFinset ≠ v.toFinset)
  := by
  have hsome : ∀ {r : Bool × AdjacencyVect capacity} {S}, v.Becomes r S →
      (r.map some id).2.Counted ∧ (r.map some id).2.toFinset = S
        ∧ ∀ b, (r.map some id).1 = some b → (b = true ↔ S ≠ v.toFinset) := by
    intro r S hr
    refine ⟨hr.counted, hr.toFinset, fun b hb => ?_⟩
    rw [← Option.some.inj hb]
    exact hr.changed
  cases c with
  | add index => exact hsome (addInteger_becomes h index)
  | addAll collect => exact hsome (addAll_becomes h collect)
  | remove obj => exact hsome (remove_becomes h obj)
  | removeAll collect => exact hsome (removeAll_becomes h collect)
  | retainAll collect => exact hsome (retainAll_becomes h collect)
  | clear =>
      change v.clear.Counted ∧ v.clear.toFinset = ∅ ∧ ∀ b, none = some b → _
      rw [clear_eq, toFinset_new]
      exact ⟨counted_new, rfl, nofun⟩

/-! ### Arrays -/

/-- The vertices of a part are stored from an index on. -/
theorem fill_eq {β : Type} (valueOf : Int → β) (ks : List (Fin capacity))
    (front back : List (Option β))
    (room : List (Option β))
    (hroom : room.length = (ks.filter fun k => getElem v.adjVect k k.isLt).length) :
  v.fill valueOf ks front.length (front ++ room ++ back)
    = some (front
      ++ (ks.filter fun k => getElem v.adjVect k k.isLt).map (fun k => some (valueOf k.val))
      ++ back)
  := by
  induction ks generalizing front room with
  | nil =>
      rw [List.length_eq_zero_iff.mp hroom]
      rfl
  | cons k ks ih =>
      rw [fill]
      cases hedge : v.adjVect[k] with
      | false =>
          rw [List.filter_cons_of_neg (by simp [hedge])] at hroom ⊢
          rw [if_neg Bool.false_ne_true]
          exact ih front room hroom
      | true =>
          rw [List.filter_cons_of_pos (by simp [hedge])] at hroom ⊢
          obtain ⟨x, room, rfl⟩ := List.exists_cons_of_length_eq_add_one hroom
          rw [if_pos rfl, if_pos (by simp)]
          have hset : (front ++ (x :: room) ++ back).set front.length (some (valueOf k.val))
              = (front ++ [some (valueOf k.val)]) ++ room ++ back := by
            simp
          have hrest := ih (front ++ [some (valueOf k.val)]) room (by simpa using hroom)
          rw [List.length_append, List.length_singleton] at hrest
          rw [hset, hrest]
          simp

/-- The vertices of a vector in an array with enough room. -/
theorem fill_elements {β : Type} (valueOf : Int → β) (h : v.Counted) (room back : List (Option β))
    (hroom : room.length = v.size) :
  v.fill valueOf (List.finRange capacity) 0 (room ++ back)
    = some (v.toFinset.sort.map (fun k => some (valueOf k.val)) ++ back)
  := by
  rw [← length_elements h, elements_eq_filter] at hroom
  have hfill := fill_eq valueOf (List.finRange capacity) [] back room hroom
  rw [← elements_eq_filter, elements_eq_sort] at hfill
  exact hfill

theorem toArray_eq (h : v.Counted) :
  v.toArray = some (v.toFinset.sort.map fun k => some (.integer k.val))
  := by
  have hfill := fill_elements Obj.integer h (List.replicate v.size none) [] List.length_replicate
  rwa [List.append_nil, List.append_nil] at hfill

/-- What `toArray` leaves in a longer array behind the vertices. -/
def behind {β : Type} (size : Nat) (arr : List (Option β)) : List (Option β) :=
  if size < arr.length then none :: arr.drop (size + 1) else []

theorem toArrayInto_eq {β : Type} (valueOf : Int → β) (h : v.Counted) (arr : List (Option β)) :
  v.toArrayInto valueOf arr
    = some (v.toFinset.sort.map (fun k => some (valueOf k.val)) ++ behind v.size arr)
  := by
  rw [toArrayInto, behind]
  rcases Nat.lt_trichotomy arr.length v.size with hlt | heq | hgt
  · have hfill := fill_elements valueOf h (List.replicate v.size none) [] List.length_replicate
    rw [List.append_nil] at hfill
    rw [if_pos hlt, hfill, if_neg (by omega)]
  · have hfill := fill_elements valueOf h arr [] heq
    rw [List.append_nil] at hfill
    rw [if_neg (by omega), if_neg (by omega), hfill, if_neg (by omega)]
  · have hset : arr.set v.size none = arr.take v.size ++ none :: arr.drop (v.size + 1) :=
      List.set_eq_take_append_cons_drop.trans (if_pos hgt)
    rw [if_neg (by omega), if_pos hgt, hset, if_pos hgt]
    exact fill_elements valueOf h _ _ (List.length_take_of_le (by omega))

/-! ### Sequences of calls -/

theorem afterCalls_eq (h : v.Counted) (calls : List Call) :
  (v.afterCalls calls).Counted ∧ (v.afterCalls calls).toFinset = calls.foldl Call.apply v.toFinset
  := by
  induction calls generalizing v with
  | nil => exact ⟨h, rfl⟩
  | cons c calls ih =>
      obtain ⟨hcounted, hset, -⟩ := call_becomes h c
      have hrest := ih hcounted
      rw [hset] at hrest
      exact hrest

/-- After any calls a vector denotes the set that they make; the next call returns whether it
changes the set, the size is the number of elements, and the iterator and the arrays list the
elements in increasing order. -/
theorem refines_finset (capacity : Nat) (calls : List Call) :
  ∃ S : Finset (Fin capacity), S = calls.foldl Call.apply ∅
    ∧ ((new capacity).afterCalls calls).toFinset = S
    ∧ (∀ c b, (((new capacity).afterCalls calls).call c).1 = some b → (b = true ↔ c.apply S ≠ S))
    ∧ ((new capacity).afterCalls calls).size = S.card
    ∧ ((new capacity).afterCalls calls).elements = S.sort
    ∧ ((new capacity).afterCalls calls).toArray
      = some (S.sort.map fun k => some (.integer k.val))
    ∧ ∀ (β : Type) (valueOf : Int → β) (arr : List (Option β)),
      ((new capacity).afterCalls calls).toArrayInto valueOf arr
        = some (S.sort.map (fun k => some (valueOf k.val)) ++ behind S.card arr)
  := by
  have hnew : (new capacity).Counted := counted_new
  obtain ⟨hcounted, hset⟩ := afterCalls_eq hnew calls
  rw [toFinset_new] at hset
  refine ⟨_, rfl, hset, ?_, ?_, ?_, ?_, ?_⟩
  · intro c b hb
    have hchanged := (call_becomes hcounted c).2.2 b hb
    rwa [hset] at hchanged
  · rw [hcounted, hset]
  · rw [elements_eq_sort, hset]
  · rw [toArray_eq hcounted, hset]
  · intro β valueOf arr
    rw [toArrayInto_eq valueOf hcounted, hcounted, hset]

end AdjacencyVect

end Graphs
