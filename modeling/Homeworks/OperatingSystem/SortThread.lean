import Homeworks.OperatingSystem.Threads
import Mathlib.Data.List.Sort

/-!
# The thread that sorts

Thread 5 of `os.txt` sorts its array by insertion, starting with the second element.  Seen from the
end of what has been sorted down to its start, the inner loop is the insertion of a key into a list
that is decreasing.
-/

open Simulator

namespace OperatingSystem

namespace Solo

variable {m : Int → Int} {out : List Output}

/-! ### Lists in decreasing order -/

/-- The elements below an index, from the last one down. -/
def descending (f : Int → Int) : ℕ → List Int
  | 0 => []
  | t + 1 => f t :: descending f t

theorem descending_congr {f f' : Int → Int} {t : ℕ} (h : ∀ i : Int, 0 ≤ i → i < t → f' i = f i) :
  descending f' t = descending f t
  := by
  induction t with
  | zero => rfl
  | succ t ih =>
      rw [descending, descending, h t (by omega) (by omega), ih]
      intro i hi hi'
      apply h i hi
      omega

theorem reverse_descending (f : Int → Int) (t : ℕ) :
  (descending f t).reverse = (List.range t).map fun (i : ℕ) => f i
  := by
  induction t with
  | zero => rfl
  | succ t ih => rw [descending, List.reverse_cons, ih, List.range_succ, List.map_append]; rfl

/-- Sorting in one direction is sorting in the other, reversed. -/
theorem reverse_insertionSort (l : List Int) :
  (l.insertionSort (· ≥ ·)).reverse = l.reverse.insertionSort (· ≤ ·)
  := by
  apply List.Perm.eq_of_sortedLE
  · rw [List.sortedLE_iff_pairwise, List.pairwise_reverse]
    apply List.pairwise_insertionSort
  · apply List.sortedLE_insertionSort
  · have hperm : (l.insertionSort (· ≥ ·)).reverse.Perm l.reverse :=
      ((List.reverse_perm _).trans (List.perm_insertionSort _ _)).trans (List.reverse_perm _).symm
    apply hperm.trans (List.perm_insertionSort _ _).symm

theorem descending_update (f : Int → Int) (t : ℕ) (x : Int) :
  descending (Function.update f t x) t = descending f t
  := by
  apply descending_congr
  intro i _ hi
  apply Function.update_of_ne
  omega

/-! ### The inner loop -/

/-- The variables of thread 5 and its array, of at most ten elements. -/
structure Sorting (n i : Int) (f m : Int → Int) : Prop where
  flag : m 5099 = 0
  size : m 5080 = n
  bound : n ≤ 10
  index : m 5081 = i
  array : ∀ j, 0 ≤ j → j < 10 → m (5070 + j) = f j

/-- A key is being inserted into the array. -/
structure Inserting (n i key : Int) (f m : Int → Int) : Prop extends Sorting n i f m where
  key : m 5085 = key

variable {n i key : Int} {f : Int → Int} {t : ℕ}

/-- Only scratch cells differ. -/
theorem Sorting.scratch (h : Sorting n i f m) {a : Int} (ha : 5081 < a) (ha' : a < 5099)
    (x : Int) :
  Sorting n i f (Function.update m a x)
  := by
  constructor
  · rw [Function.update_of_ne (by omega), h.flag]
  · rw [Function.update_of_ne (by omega), h.size]
  · apply h.bound
  · rw [Function.update_of_ne (by omega), h.index]
  · intro j hj hj'
    rw [Function.update_of_ne (by omega), h.array j hj hj']

theorem Inserting.scratch (h : Inserting n i key f m) {a : Int} (ha : 5085 < a) (ha' : a < 5099)
    (x : Int) :
  Inserting n i key f (Function.update m a x)
  := by
  use h.toSorting.scratch (by omega) ha' x
  rw [Function.update_of_ne (by omega), h.key]

/-- A store to an element of the array. -/
theorem Inserting.store (h : Inserting n i key f m) (ht : t < 10) (x : Int) :
  Inserting n i key (Function.update f t x) (Function.update m (5070 + t) x)
  := by
  refine ⟨⟨?_, ?_, h.bound, ?_, ?_⟩, ?_⟩
  · rw [Function.update_of_ne (by omega), h.flag]
  · rw [Function.update_of_ne (by omega), h.size]
  · rw [Function.update_of_ne (by omega), h.index]
  · intro j hj hj'
    rw [Function.update_apply, Function.update_apply, h.array j hj hj']
    split <;> split <;> omega
  · rw [Function.update_of_ne (by omega), h.key]

/-- The end of the inner loop: the key is stored at the index `t`. -/
theorem sort_insert (h : Inserting n i key f m) (h5086 : m 5086 = t - 1) (ht : t < 10)
    (hprints : ∀ m', Sorting n (i + 1) (Function.update f t key) m' →
      Prints 5 (listing sortCode) 5008 m' out) :
  Prints 5 (listing sortCode) 5045 m out
  := by
  have hkey := h.key
  apply Prints.cpy (by decide) (by decide) rfl
  apply Prints.add (by decide) rfl
  apply Prints.add (by decide) rfl
  apply Prints.set (by decide) rfl
  apply Prints.cpyi2 (x := 5085) (y := 5070 + t) (v := key) (by decide) (by decide) rfl
  · simp
  · decide
  · simp [h5086]
    ring
  · unfold InSegment
    omega
  · simp [hkey]
  apply Prints.weaken (P := Inserting n i key (Function.update f t key))
  · apply Inserting.store _ ht
    iterate 4 refine Inserting.scratch ?_ (by decide) (by decide) _
    exact h
  · intro m' h'
    have hflag := h'.flag
    have hindex := h'.index
    apply Prints.add (by decide) rfl
    apply Prints.yield (by decide) rfl
    apply Prints.jif (by decide) rfl (by decide)
    · simp [hflag]
    apply hprints
    constructor
    · simp [hflag]
    · simp [h'.size]
    · apply h.bound
    · simp [hindex]
    · intro j hj hj'
      rw [Function.update_of_ne (by omega), h'.array j hj hj']

/-- The inner loop inserts the key into the elements below the index `t`. -/
theorem sort_inner (h : Inserting n i key f m) (h5086 : m 5086 = t - 1) (ht : t < 10)
    (hprints : ∀ f' m', Sorting n (i + 1) f' m' →
      descending f' (t + 1) = (descending f t).orderedInsert (· ≥ ·) key →
      (∀ j : Int, t < j → f' j = f j) → Prints 5 (listing sortCode) 5008 m' out) :
  Prints 5 (listing sortCode) 5017 m out
  := by
  induction t generalizing f m with
  | zero =>
      apply Prints.cpy (by decide) (by decide) rfl
      apply Prints.add (by decide) rfl
      apply Prints.jif (by decide) rfl (by decide)
      · simp [h5086]
      apply Prints.weaken (P := fun m' => Inserting n i key f m' ∧ m' 5086 = (0 : ℕ) - 1)
      · constructor
        · iterate 2 refine Inserting.scratch ?_ (by decide) (by decide) _
          exact h
        · simp [h5086]
      · rintro m' ⟨h', h5086'⟩
        apply sort_insert h' h5086' ht
        intro m'' h''
        apply hprints _ m'' h''
        · simp [descending]
        · intro j hj
          apply Function.update_of_ne
          omega
  | succ t ih =>
      have hkey := h.key
      have hflag := h.flag
      apply Prints.cpy (by decide) (by decide) rfl
      apply Prints.add (by decide) rfl
      apply Prints.jifNot (by decide) rfl
      · simp [h5086]
      apply Prints.cpy (by decide) (by decide) rfl
      apply Prints.add (by decide) rfl
      apply Prints.cpyi (x := 5070 + t) (v := f t) (by decide) (by decide) rfl
      · simp [h5086]
        ring
      · unfold InSegment
        omega
      · iterate 4 rw [Function.update_of_ne (by omega)]
        apply h.array t (by omega) (by omega)
      -- the element before the hole is loaded
      apply Prints.weaken (P := fun m' => Inserting n i key f m' ∧ m' 5086 = t ∧ m' 5089 = f t)
      · refine ⟨?_, ?_, ?_⟩
        · iterate 5 refine Inserting.scratch ?_ (by decide) (by decide) _
          exact h
        · simp [h5086]
        · simp
      rintro m' ⟨h', h5086', h5089⟩
      have hkey := h'.key
      apply Prints.cpy (by decide) (by decide) rfl
      apply Prints.cpy (by decide) (by decide) rfl
      apply Prints.subi (by decide) (by decide) rfl
      by_cases hle : f t ≤ key
      · -- the place of the key is found
        apply Prints.jif (by decide) rfl (by decide)
        · simp [hkey, h5089, hle]
        apply Prints.weaken (P := fun m' => Inserting n i key f m'
          ∧ m' 5086 = ((t + 1 : ℕ) : Int) - 1)
        · constructor
          · iterate 3 refine Inserting.scratch ?_ (by decide) (by decide) _
            exact h'
          · simp [h5086']
        rintro m'' ⟨h'', h5086''⟩
        apply sort_insert h'' h5086'' ht
        intro m₃ h₃
        apply hprints _ m₃ h₃
        · rw [descending, Function.update_self, descending_update, descending,
            List.orderedInsert_cons, if_pos hle]
        · intro j hj
          apply Function.update_of_ne
          omega
      · -- the element is moved up
        apply Prints.jifNot (by decide) rfl
        · simp [hkey, h5089]
          omega
        apply Prints.cpy (by decide) (by decide) rfl
        apply Prints.add (by decide) rfl
        apply Prints.add (by decide) rfl
        apply Prints.cpy (by decide) (by decide) rfl
        apply Prints.set (by decide) rfl
        apply Prints.cpyi2 (x := 5093) (y := 5070 + ((t + 1 : ℕ) : Int)) (v := f t) (by decide)
          (by decide) rfl
        · simp
        · decide
        · simp [h5086']
          ring
        · unfold InSegment
          omega
        · simp [h5089]
        apply Prints.weaken (P := fun m' =>
          Inserting n i key (Function.update f (t + 1 : ℕ) (f t)) m' ∧ m' 5086 = t)
        · constructor
          · apply Inserting.store _ ht
            iterate 8 refine Inserting.scratch ?_ (by decide) (by decide) _
            exact h'
          · rw [Function.update_of_ne (by omega)]
            simp [h5086']
        rintro m'' ⟨h'', h5086''⟩
        have hflag := h''.flag
        apply Prints.add (by decide) rfl
        apply Prints.yield (by decide) rfl
        apply Prints.jif (by decide) rfl (by decide)
        · simp [hflag]
        apply ih (h''.scratch (by decide) (by decide) _)
        · simp [h5086'']
          ring
        · omega
        · intro f' m₃ h₃ hdescending hother
          apply hprints f' m₃ h₃
          · rw [descending, hother _ (by omega), Function.update_self, hdescending, descending,
              List.orderedInsert_cons, if_neg hle]
            congr 2
            apply descending_congr
            intro j _ hj
            apply Function.update_of_ne
            omega
          · intro j hj
            rw [hother j (by omega)]
            apply Function.update_of_ne
            omega

/-! ### The outer loop -/

/-- The outer loop from the index `t` on, below which the array is sorted. -/
theorem sort_outer {g : Int → Int} {k : ℕ} (h : Sorting n t f m) (hk : n.toNat - t = k)
    (hsorted : descending f t = (descending g t).insertionSort (· ≥ ·))
    (hrest : ∀ j : Int, t ≤ j → f j = g j)
    (hprints : ∀ f' m', Sorting n (t + k : ℕ) f' m' →
      descending f' (t + k) = (descending g (t + k)).insertionSort (· ≥ ·) →
      (∀ j : Int, (t + k : ℕ) ≤ j → f' j = g j) → Prints 5 (listing sortCode) 5065 m' out) :
  Prints 5 (listing sortCode) 5008 m out
  := by
  have hindex := h.index
  have hsize := h.size
  have hbound := h.bound
  induction k generalizing t f m with
  | zero =>
      apply Prints.cpy (by decide) (by decide) rfl
      apply Prints.cpy (by decide) (by decide) rfl
      apply Prints.subi (by decide) (by decide) rfl
      apply Prints.jif (by decide) rfl (by decide)
      · simp [hindex, hsize]
        omega
      apply hprints f _ _ hsorted hrest
      iterate 3 refine Sorting.scratch ?_ (by decide) (by decide) _
      exact h
  | succ k ih =>
      apply Prints.cpy (by decide) (by decide) rfl
      apply Prints.cpy (by decide) (by decide) rfl
      apply Prints.subi (by decide) (by decide) rfl
      apply Prints.jifNot (by decide) rfl
      · simp [hindex, hsize]
        omega
      apply Prints.cpy (by decide) (by decide) rfl
      apply Prints.add (by decide) rfl
      apply Prints.cpyi (x := 5070 + t) (v := f t) (by decide) (by decide) rfl
      · simp [hindex]
        ring
      · unfold InSegment
        omega
      · iterate 5 rw [Function.update_of_ne (by omega)]
        apply h.array t (by omega) (by omega)
      apply Prints.cpy (by decide) (by decide) rfl
      apply Prints.add (by decide) rfl
      apply Prints.weaken (P := fun m' => Inserting n t (f t) f m' ∧ m' 5086 = t - 1)
      · refine ⟨⟨?_, ?_⟩, ?_⟩
        · iterate 8 refine Sorting.scratch ?_ (by decide) (by decide) _
          exact h
        · simp
        · simp [hindex]
          ring
      rintro m' ⟨h', h5086⟩
      apply sort_inner h' h5086 (by omega)
      intro f' m'' h'' hdescending hother
      have hpush : t + 1 + k = t + (k + 1) := by omega
      apply ih (t := t + 1) h''
      · omega
      · rw [hdescending, descending, List.insertionSort_cons, ← hsorted, hrest t le_rfl]
      · intro j hj
        rw [hother j (by omega), hrest j (by omega)]
      · rw [hpush]
        exact hprints
      · apply h''.index
      · apply h''.size

/-! ### The output -/

/-- What a thread prints of successive cells from the address `a` on. -/
def dump (k : Int) : Int → List Int → List Output
  | _, [] => []
  | a, v :: values => report k a v ++ dump k (a + 1) values

/-- The ten cells of the array, the first `N` of them sorted. -/
def sortedCells (f : Int → Int) (N : ℕ) : List Int :=
  ((List.range N).map fun (i : ℕ) => f i).insertionSort (· ≤ ·)
    ++ (List.range' N (10 - N)).map fun (i : ℕ) => f i

theorem sortedCells_of_descending {f g : Int → Int} {N : ℕ} (hN : N ≤ 10)
    (hsorted : descending f N = (descending g N).insertionSort (· ≥ ·))
    (hrest : ∀ j : Int, N ≤ j → f j = g j) :
  sortedCells g N = [f 0, f 1, f 2, f 3, f 4, f 5, f 6, f 7, f 8, f 9]
  := by
  have hfirst : ((List.range N).map fun (i : ℕ) => g i).insertionSort (· ≤ ·)
      = (List.range N).map fun (i : ℕ) => f i := by
    rw [← reverse_descending, ← reverse_insertionSort, ← hsorted, reverse_descending]
  have hlast : ((List.range' N (10 - N)).map fun (i : ℕ) => g i)
      = (List.range' N (10 - N)).map fun (i : ℕ) => f i := by
    apply List.map_congr_left
    intro j hj
    rw [hrest]
    have := List.mem_range'_1.mp hj
    omega
  have happend : List.range N ++ List.range' N (10 - N) = List.range 10 := by
    have h := List.range'_append_1 (s := 0) (m := N) (n := 10 - N)
    rw [Nat.zero_add, show N + (10 - N) = 10 by omega] at h
    rw [List.range_eq_range', List.range_eq_range']
    exact h
  rw [sortedCells, hfirst, hlast, ← List.map_append, happend]
  rfl

/-- Thread 5 prints the first five cells of its array, sorted. -/
theorem sort_prints (h5099 : m 5099 = 0) (h5080 : m 5080 ≤ 10) (h5081 : m 5081 = 1) :
  Prints 5 (listing sortCode) 5000 m
    (dump 5 5070 ((sortedCells (fun i => m (5070 + i)) (m 5080).toNat).take 5))
  := by
  apply Prints.jif (by decide) rfl (by decide) h5099.le
  apply sort_outer (t := 1) (k := (m 5080).toNat - 1)
    (g := fun i => m (5070 + i)) ⟨h5099, rfl, h5080, h5081, fun _ _ _ => rfl⟩ rfl
  · simp [descending]
  · intro _ _
    rfl
  · intro f' m' h' hsorted hrest
    have hcells : sortedCells (fun i => m (5070 + i)) (m 5080).toNat
        = [f' 0, f' 1, f' 2, f' 3, f' 4, f' 5, f' 6, f' 7, f' 8, f' 9] := by
      cases hN : (m 5080).toNat with
      | zero =>
          rw [hN] at hsorted hrest
          rw [← sortedCells_of_descending (by omega) hsorted hrest]
          rfl
      | succ N =>
          rw [hN, Nat.add_sub_cancel, Nat.add_comm] at hsorted hrest
          apply sortedCells_of_descending (by omega) hsorted hrest
    have hcell : ∀ j, 0 ≤ j → j < 10 → m' (5070 + j) = f' j := h'.array
    rw [hcells]
    apply Prints.prn (by decide) rfl (hcell 0 (by decide) (by decide))
    apply Prints.prn (by decide) rfl (hcell 1 (by decide) (by decide))
    apply Prints.prn (by decide) rfl (hcell 2 (by decide) (by decide))
    apply Prints.prn (by decide) rfl (hcell 3 (by decide) (by decide))
    apply Prints.prn (by decide) rfl (hcell 4 (by decide) (by decide))
    apply Prints.halt (by decide) rfl

end Solo

end OperatingSystem
