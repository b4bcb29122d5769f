import Homeworks.Sorting.Sorter

/-!
# The sorters sort

Every sorter rearranges the range so that its elements do not decrease, for every comparison
that is a total preorder and all random numbers.
-/

namespace Sorting

variable {T : Type*} {n : Nat} {compare : T → T → Int}

/-- A method sorts every range of every array. -/
def Sorts (compare : T → T → Int) (sort : SortMethod T n) : Prop :=
  ∀ arr start stop h random,
    Rearranged start stop arr (sort arr start stop h random).1
      ∧ SortedOn compare start stop (sort arr start stop h random).1

namespace TotalPreorder

theorem compare_self (hc : TotalPreorder compare) (x : T) :
  compare x x = 0
  := by
  have hswap := hc.swap x x
  omega

/-- What is not greater is at most the other. -/
theorem le_of_not_gt (hc : TotalPreorder compare) {x y : T} (h : ¬ compare x y < 0) :
  compare y x ≤ 0
  := by
  have hswap := hc.swap x y
  omega

end TotalPreorder

/-! ### Insertion sort -/

/-- An array with a key to be put at the place `hole` of a range: without that place it is
sorted, and what is behind it is at least the key. -/
structure Insertion (compare : T → T → Int) (key : T) (start stop hole : Nat) (arr : Vector T n) :
    Prop where
  start_le : start ≤ hole
  lt_stop : hole < stop
  sorted : ∀ a b : Fin n, start ≤ a → a < b → b < stop → a.val ≠ hole → b.val ≠ hole →
    compare (getElem arr a a.isLt) (getElem arr b b.isLt) ≤ 0
  behind : ∀ b : Fin n, hole < b → b < stop → compare key (getElem arr b b.isLt) ≤ 0

variable {key : T} {start stop hole i j : Nat} {arr : Vector T n}

theorem getElem_set (h : hole < n) {x : T} (a : Fin n) :
  getElem (arr.set hole x) a a.isLt = if a.val = hole then x else getElem arr a a.isLt
  := by
  rw [Fin.getElem_fin, Fin.getElem_fin, Vector.getElem_set]
  simp only [eq_comm]

/-- An element that is greater than the key is moved. -/
theorem Insertion.move (hc : TotalPreorder compare) (hi : Insertion compare key start stop hole arr)
    (h : hole < n) (hlt : start < hole)
    (hgt : compare (getElem arr (hole - 1) (Nat.lt_of_le_of_lt (Nat.sub_le hole 1) h)) key > 0) :
  Insertion compare key start stop (hole - 1)
    (arr.set hole (getElem arr (hole - 1) (Nat.lt_of_le_of_lt (Nat.sub_le hole 1) h)) h)
  where
  start_le := by omega
  lt_stop := by
    have hstop := hi.lt_stop
    omega
  sorted a b ha hab hb hane hbne := by
    have hstop := hi.lt_stop
    rw [getElem_set, getElem_set]
    split
    · rename_i haeq
      rw [if_neg (by omega)]
      exact hi.sorted ⟨hole - 1, by omega⟩ b (by dsimp only; omega)
        (by rw [Fin.lt_def]; dsimp only; omega) hb (by dsimp only; omega) (by omega)
    · rename_i haeq
      split
      · rename_i hbeq
        exact hi.sorted a ⟨hole - 1, by omega⟩ ha (by rw [Fin.lt_def]; dsimp only; omega)
          (by dsimp only; omega) haeq (by dsimp only; omega)
      · rename_i hbeq
        exact hi.sorted a b ha hab hb haeq hbeq
  behind b hb hb' := by
    have hswap := (hc.swap key arr[hole - 1]).mpr hgt
    rw [getElem_set]
    split
    · exact Int.le_of_lt hswap
    · exact hi.behind b (by omega) hb'

/-- The key is put at its place. -/
theorem Insertion.sortedOn (hc : TotalPreorder compare)
    (hi : Insertion compare key start stop hole arr) (h : hole < n)
    (hle : ∀ a : Fin n, start ≤ a → a.val + 1 = hole → compare (getElem arr a a.isLt) key ≤ 0) :
  SortedOn compare start stop (arr.set hole key)
  := by
  intro a b ha hab hb
  rw [getElem_set, getElem_set]
  split
  · rename_i haeq
    rw [if_neg (by omega)]
    exact hi.behind b (by omega) hb
  · rename_i haeq
    split
    · rename_i hbeq
      have hlast := hle ⟨hole - 1, by omega⟩ (by dsimp only; omega) (by dsimp only; omega)
      have hbefore : a.val ≤ hole - 1 := by omega
      rcases Nat.eq_or_lt_of_le hbefore with heq | hlt
      · have hfin : a = ⟨hole - 1, by omega⟩ := Fin.ext heq
        rw [hfin]
        exact hlast
      · apply hc.trans _ _ _ _ hlast
        exact hi.sorted a ⟨hole - 1, by omega⟩ ha hlt (by dsimp only; omega) haeq
          (by dsimp only; omega)
    · rename_i hbeq
      exact hi.sorted a b ha hab hb haeq hbeq

theorem insertKey_sorts (hc : TotalPreorder compare) (h : hole < n) :
  Insertion compare key start stop hole arr →
    Rearranged start stop (arr.set hole key) (insertKey compare key start arr hole h)
      ∧ SortedOn compare start stop (insertKey compare key start arr hole h)
  := by
  fun_induction insertKey compare key start arr hole h with
  | case1 arr hole h hlt hgt ih =>
      intro hi
      obtain ⟨hre, hsorted⟩ := ih (hi.move hc h hlt hgt)
      have hstop := hi.lt_stop
      have heq : (arr.set hole arr[hole - 1]).set (hole - 1) key
          = (arr.set hole key).swap (hole - 1) hole := by
        apply Vector.ext
        intro k hk
        grind
      rw [heq] at hre
      refine ⟨?_, hsorted⟩
      apply Rearranged.trans _ hre
      apply Rearranged.swap <;> omega
  | case2 arr hole h hlt hle =>
      intro hi
      refine ⟨.refl, hi.sortedOn hc h ?_⟩
      intro a ha heq
      have hfin : arr[a] = arr[hole - 1] := by
        rw [Fin.getElem_fin]
        congr 1
        omega
      rw [hfin]
      omega
  | case3 arr hole h hge =>
      intro hi
      refine ⟨.refl, hi.sortedOn hc h ?_⟩
      intro a ha heq
      omega

theorem insertLoop_sorts (hc : TotalPreorder compare) {stop : Nat} (h : stop ≤ n) :
  SortedOn compare start i arr → start < i → i ≤ stop →
    Rearranged start stop arr (insertLoop compare start stop h arr i)
      ∧ SortedOn compare start stop (insertLoop compare start stop h arr i)
  := by
  fun_induction insertLoop compare start stop h arr i with
  | case1 arr i hlt ih =>
      intro hsorted hstart _
      have hi : Insertion compare arr[i] start (i + 1) i arr := by
        constructor
        · omega
        · omega
        · intro a b ha hab hb _ hbne
          exact hsorted a b ha hab (by omega)
        · intro b hb hb'
          omega
      obtain ⟨hre, hnext⟩ := insertKey_sorts hc (Nat.lt_of_lt_of_le hlt h) hi
      rw [Vector.set_getElem_self] at hre
      obtain ⟨hre', hsorted'⟩ := ih hnext (by omega) hlt
      exact ⟨(hre.mono (Nat.le_refl _) hlt).trans hre', hsorted'⟩
  | case2 arr i hge =>
      intro hsorted _ hle
      obtain rfl : i = stop := by omega
      exact ⟨.refl, hsorted⟩

theorem insertSort_sorts (hc : TotalPreorder compare) :
  Sorts compare (insertSort compare : SortMethod T n)
  := by
  intro arr start stop h random
  rcases Nat.lt_or_ge start stop with hlt | hge
  · apply insertLoop_sorts hc h
    · intro a b ha hab hb
      omega
    · exact Nat.lt_succ_self start
    · exact hlt
  · rw [insertSort, insertLoop, dif_neg (by omega)]
    refine ⟨.refl, ?_⟩
    intro a b ha hab hb
    omega

/-! ### Selection sort -/

/-- An index of a minimum of the elements from `i` to `j`. -/
structure IsMin (compare : T → T → Int) (arr : Vector T n) (i j : Nat) (m : Fin n) : Prop where
  le : i ≤ m
  lt : m < j
  min : ∀ k : Fin n, i ≤ k → k < j → compare (getElem arr m m.isLt) (getElem arr k k.isLt) ≤ 0

theorem isMin_self (hc : TotalPreorder compare) (arr : Vector T n) (hi : i < n) :
  IsMin compare arr i (i + 1) ⟨i, hi⟩
  where
  le := Nat.le_refl _
  lt := Nat.lt_succ_self _
  min k hk hk' := by
    have hfin : k = ⟨i, hi⟩ := Fin.ext (Nat.le_antisymm (Nat.le_of_lt_succ hk') hk)
    rw [hfin]
    exact Int.le_of_eq (hc.compare_self _)

theorem minLoop_isMin (hc : TotalPreorder compare) {stop : Nat} (h : stop ≤ n) {m : Fin n} :
  IsMin compare arr i j m → j ≤ stop →
    IsMin compare arr i stop (minLoop compare stop h arr m j)
  := by
  fun_induction minLoop compare stop h arr m j with
  | case1 m j hlt hless ih =>
      intro hm _
      apply ih _ hlt
      constructor
      · have hle := hm.le
        have hmj := hm.lt
        dsimp only
        omega
      · exact Nat.lt_succ_self j
      · intro k hk hk'
        rcases Nat.lt_succ_iff_lt_or_eq.mp hk' with hkj | rfl
        · exact hc.trans _ _ _ (Int.le_of_lt hless) (hm.min k hk hkj)
        · exact Int.le_of_eq (hc.compare_self _)
  | case2 m j hlt hless ih =>
      intro hm _
      apply ih _ hlt
      constructor
      · exact hm.le
      · exact Nat.lt_succ_of_lt hm.lt
      · intro k hk hk'
        rcases Nat.lt_succ_iff_lt_or_eq.mp hk' with hkj | rfl
        · exact hm.min k hk hkj
        · exact hc.le_of_not_gt hless
  | case3 m j hge =>
      intro hm hj
      obtain rfl : j = stop := by omega
      exact hm

/-- An array that is sorted up to an index, with the smallest elements there. -/
structure Selected (compare : T → T → Int) (start stop i : Nat) (arr : Vector T n) : Prop where
  sorted : SortedOn compare start i arr
  le : ∀ a b : Fin n, start ≤ a → a < i → i ≤ b → b < stop →
    compare (getElem arr a a.isLt) (getElem arr b b.isLt) ≤ 0

theorem getElem_swap {i j : Nat} (hi : i < n) (hj : j < n) (a : Fin n) :
  (arr.swap i j)[a] = if a.val = i then arr[j] else if a.val = j then arr[i] else arr[a]
  := Vector.getElem_swap hi hj a.isLt

/-- The minimum of the rest is swapped to an index. -/
theorem Selected.swap (hs : Selected compare start stop i arr) (hi : i < n)
    {m : Fin n} (hm : IsMin compare arr i stop m) :
  Selected compare start stop (i + 1) (arr.swap i m hi m.isLt)
  := by
  have hmle := hm.le
  have hmlt := hm.lt
  -- the elements from `i` on are those that were there before
  have hrest : ∀ b : Fin n, i ≤ b → b < stop → ∃ b' : Fin n, i ≤ b' ∧ b' < stop
      ∧ (arr.swap i m)[b] = arr[b'] := by
    intro b hb hb'
    rw [getElem_swap]
    split
    · exact ⟨m, hmle, hmlt, rfl⟩
    · split
      · exact ⟨⟨i, hi⟩, Nat.le_refl _, by dsimp only; omega, rfl⟩
      · exact ⟨b, hb, hb', rfl⟩
  have hbefore : ∀ a : Fin n, a < i → (arr.swap i m)[a] = arr[a] := by
    intro a ha
    rw [getElem_swap, if_neg (by omega), if_neg (by omega)]
  have hat : ∀ a : Fin n, a.val = i → (arr.swap i m)[a] = arr[m] := by
    intro a ha
    rw [getElem_swap, if_pos ha]
    rfl
  have hle' : ∀ a b : Fin n, start ≤ a → a < i + 1 → i ≤ b → b < stop → a.val ≠ b →
      compare (arr.swap i m)[a] (arr.swap i m)[b] ≤ 0 := by
    intro a b ha hai hb hb' _
    obtain ⟨b', hb₁, hb₂, heq⟩ := hrest b hb hb'
    rw [heq]
    rcases Nat.lt_succ_iff_lt_or_eq.mp hai with hlt | haeq
    · rw [hbefore a hlt]
      exact hs.le a b' ha hlt hb₁ hb₂
    · rw [hat a haeq]
      exact hm.min b' hb₁ hb₂
  constructor
  · intro a b ha hab hb
    rcases Nat.lt_succ_iff_lt_or_eq.mp hb with hlt | hbeq
    · rw [hbefore a (by omega), hbefore b hlt]
      exact hs.sorted a b ha hab hlt
    · apply hle' a b ha <;> omega
  · intro a b ha hai hb hb'
    apply hle' a b ha hai <;> omega

theorem selectLoop_sorts (hc : TotalPreorder compare) {stop : Nat} (h : stop ≤ n) :
  Selected compare start stop i arr → start ≤ i → i ≤ stop →
    Rearranged start stop arr (selectLoop compare stop h arr i)
      ∧ SortedOn compare start stop (selectLoop compare stop h arr i)
  := by
  fun_induction selectLoop compare stop h arr i with
  | case1 arr i hlt m hne ih =>
      intro hs hstart hle
      have hm := minLoop_isMin hc h (isMin_self hc arr (i := i) (by omega)) (by omega)
      obtain ⟨hre, hsorted⟩ := ih (hs.swap (by omega) hm) (by omega) (by omega)
      have hmle := hm.le
      have hmlt := hm.lt
      refine ⟨Rearranged.trans ?_ hre, hsorted⟩
      apply Rearranged.swap <;> omega
  | case2 arr i hlt m heq ih =>
      intro hs hstart hle
      have hm := minLoop_isMin hc h (isMin_self hc arr (i := i) (by omega)) (by omega)
      have hself : arr.swap i m = arr := by
        apply Vector.ext
        intro k hk
        grind
      have hnext := hs.swap (by omega) hm
      rw [hself] at hnext
      exact ih hnext (by omega) (by omega)
  | case3 arr i hge =>
      intro hs hstart hle
      refine ⟨.refl, ?_⟩
      intro a b ha hab hb
      rcases Nat.lt_or_ge b.val i with hbi | hbi
      · exact hs.sorted a b ha hab hbi
      · exact hs.le a b ha (by omega) hbi hb

theorem selectSort_sorts (hc : TotalPreorder compare) :
  Sorts compare (selectSort compare : SortMethod T n)
  := by
  intro arr start stop h random
  rcases Nat.lt_or_ge start stop with hlt | hge
  · apply selectLoop_sorts hc h
    · constructor
      · intro a b ha hab hb
        omega
      · intro a b ha hai
        omega
    · exact Nat.le_refl _
    · exact Nat.le_of_lt hlt
  · rw [selectSort, selectLoop, dif_neg (by omega)]
    refine ⟨.refl, ?_⟩
    intro a b ha hab hb
    omega

/-! ### Quicksort -/

/-- The elements before the pivot are smaller, and those behind it are not. -/
structure Pivoted (compare : T → T → Int) (start stop : Nat) (pivot : T) (p : Fin n)
    (arr : Vector T n) : Prop where
  atPivot : getElem arr p p.isLt = pivot
  less : ∀ k : Fin n, start ≤ k → k < p → compare (getElem arr k k.isLt) pivot < 0
  notLess : ∀ k : Fin n, p < k → k < stop → ¬ compare (getElem arr k k.isLt) pivot < 0

/-- What the loop of `partition` has reached when it looks at an index. -/
structure Partitioning (compare : T → T → Int) (start i j : Nat) (pivot : T) (arr : Vector T n) :
    Prop where
  atStart : ∀ k : Fin n, k.val = start → getElem arr k k.isLt = pivot
  less : ∀ k : Fin n, start < k → k < i → compare (getElem arr k k.isLt) pivot < 0
  notLess : ∀ k : Fin n, i ≤ k → k < j → ¬ compare (getElem arr k k.isLt) pivot < 0

variable {pivot : T}

/-- An element that is smaller than the pivot is swapped to the others. -/
theorem Partitioning.swap (hp : Partitioning compare start i j pivot arr) (hi : start < i)
    (hij : i ≤ j) (hj : j < n) (hless : compare arr[j] pivot < 0) :
  Partitioning compare start (i + 1) (j + 1) pivot (arr.swap i j)
  where
  atStart k hk := by
    rw [getElem_swap, if_neg (by omega), if_neg (by omega)]
    exact hp.atStart k hk
  less k hk hk' := by
    rw [getElem_swap]
    split
    · exact hless
    · split
      · omega
      · exact hp.less k hk (by omega)
  notLess k hk hk' := by
    rw [getElem_swap, if_neg (by omega)]
    split
    · exact hp.notLess ⟨i, by omega⟩ (Nat.le_refl _) (by dsimp only; omega)
    · exact hp.notLess k (by omega) (by omega)

/-- An element that is not smaller than the pivot stays where it is. -/
theorem Partitioning.skip (hp : Partitioning compare start i j pivot arr) (hj : j < n)
    (hless : ¬ compare arr[j] pivot < 0) :
  Partitioning compare start i (j + 1) pivot arr
  where
  atStart := hp.atStart
  less := hp.less
  notLess k hk hk' := by
    rcases Nat.lt_succ_iff_lt_or_eq.mp hk' with hlt | rfl
    · exact hp.notLess k hk hlt
    · exact hless

/-- At the end the pivot is put between the others. -/
theorem Partitioning.pivoted {stop : Nat} (hp : Partitioning compare start i stop pivot arr)
    (hi : start < i) (hle : i ≤ stop) (h : stop ≤ n) :
  Pivoted compare start stop pivot ⟨i - 1, by omega⟩ (arr.swap start (i - 1))
  where
  atPivot := by
    rw [getElem_swap]
    split
    · rename_i heq
      dsimp only at heq
      exact hp.atStart ⟨i - 1, by omega⟩ (by dsimp only; omega)
    · rw [if_pos rfl]
      exact hp.atStart ⟨start, by omega⟩ rfl
  less k hk hk' := by
    rw [Fin.lt_def] at hk'
    dsimp only at hk'
    rw [getElem_swap]
    split
    · exact hp.less ⟨i - 1, by omega⟩ (by dsimp only; omega) (by dsimp only; omega)
    · rw [if_neg (by omega)]
      exact hp.less k (by omega) (by omega)
  notLess k hk hk' := by
    rw [Fin.lt_def] at hk
    dsimp only at hk
    rw [getElem_swap, if_neg (by omega), if_neg (by omega)]
    exact hp.notLess k (by omega) hk'

theorem partitionLoop_pivoted {stop : Nat} (h : stop ≤ n) (hi : start < i) (hij : i ≤ j)
    (hj : j ≤ stop) :
  Partitioning compare start i j pivot arr →
    let p := partitionLoop compare pivot start stop h arr i j hi hij hj
    Rearranged start stop arr p.arr
      ∧ Pivoted compare start stop pivot ⟨p.pivotIndex, Nat.lt_of_lt_of_le p.lt_stop h⟩ p.arr
  := by
  fun_induction partitionLoop compare pivot start stop h arr i j hi hij hj with
  | case1 arr i j hi hij hj hlt hless ih =>
      intro hp
      obtain ⟨hre, hpivoted⟩ := ih (hp.swap hi hij (by omega) hless)
      refine ⟨Rearranged.trans ?_ hre, hpivoted⟩
      apply Rearranged.swap <;> omega
  | case2 arr i j hi hij hj hlt hless ih =>
      intro hp
      exact ih (hp.skip (by omega) hless)
  | case3 arr i j hi hij hj hge =>
      intro hp
      obtain rfl : j = stop := by omega
      refine ⟨?_, hp.pivoted hi hij h⟩
      apply Rearranged.swap <;> omega

theorem partitioning_start (compare : T → T → Int) (arr : Vector T n) (hstart : start < n) :
  Partitioning compare start (start + 1) (start + 1) arr[start] arr
  where
  atStart k hk := by
    rw [Fin.getElem_fin]
    congr 1
  less k hk hk' := by omega
  notLess k hk hk' := by omega

/-- A partition rearranges the range and puts some pivot at its place. -/
theorem partition_pivoted (compare : T → T → Int) (arr : Vector T n) {stop : Nat} (h : stop ≤ n)
    (hlt : start < stop) (random : Random) :
  let p := (partition compare arr start stop h hlt random).1
  Rearranged start stop arr p.arr
    ∧ ∃ pivot, Pivoted compare start stop pivot
      ⟨p.pivotIndex, Nat.lt_of_lt_of_le p.lt_stop h⟩ p.arr
  := by
  have hk := (random.nextInt (stop - start) (Nat.sub_pos_of_lt hlt)).1.isLt
  obtain ⟨hre, hpivoted⟩ := partitionLoop_pivoted h (Nat.lt_succ_self start) (Nat.le_refl _) hlt
    (partitioning_start compare (arr.swap start
      (start + (random.nextInt (stop - start) (Nat.sub_pos_of_lt hlt)).1) (by omega) (by omega))
      (by omega))
  refine ⟨Rearranged.trans ?_ hre, _, hpivoted⟩
  apply Rearranged.swap <;> omega

/-- Two sorted ranges with a pivot between them. -/
theorem SortedOn.join (hc : TotalPreorder compare) {stop : Nat} {p : Fin n}
    (hleft : SortedOn compare start p arr) (hright : SortedOn compare (p + 1) stop arr)
    (hless : ∀ k : Fin n, start ≤ k → k < p → compare (getElem arr k k.isLt)
    (getElem arr p p.isLt) ≤ 0)
    (hle : ∀ k : Fin n, p < k → k < stop → compare (getElem arr p p.isLt)
    (getElem arr k k.isLt) ≤ 0) :
  SortedOn compare start stop arr
  := by
  intro a b ha hab hb
  rcases Nat.lt_trichotomy b p with hbp | heq | hbp
  · exact hleft a b ha hab hbp
  · obtain rfl := Fin.ext heq
    exact hless a ha hab
  · rcases Nat.lt_trichotomy a p with hap | heq | hap
    · exact hc.trans _ _ _ (hless a ha hap) (hle b hbp hb)
    · obtain rfl := Fin.ext heq
      exact hle b hab hb
    · exact hright a b hap hab hb

/-- A range is sorted when what is before the pivot and what is behind it have been sorted. -/
theorem Pivoted.join (hc : TotalPreorder compare) {stop : Nat} {p : Fin n} {a b d : Vector T n}
    (h : stop ≤ n) (hp : Pivoted compare start stop pivot p a) (hre : Rearranged start stop arr a)
    (hstart : start ≤ p) (hstop : p < stop)
    (hleft : Rearranged start p a b ∧ SortedOn compare start p b)
    (hright : Rearranged (p + 1) stop b d ∧ SortedOn compare (p + 1) stop d) :
  Rearranged start stop arr d ∧ SortedOn compare start stop d
  := by
  obtain ⟨hre₁, hsorted₁⟩ := hleft
  obtain ⟨hre₂, hsorted₂⟩ := hright
  constructor
  · apply (hre.trans (hre₁.mono (Nat.le_refl _) (Nat.le_of_lt hstop))).trans
    exact hre₂.mono (by omega) (Nat.le_refl _)
  · have hdp : d[p] = pivot := by
      rw [hre₂.frame p (.inl (Nat.lt_succ_self _)), hre₁.frame p (.inr (Nat.le_refl _)), hp.atPivot]
    have hbefore : ∀ k : Fin n, k < p → d[k] = b[k] := by
      intro k hk
      exact hre₂.frame k (.inl (Nat.lt_succ_of_lt hk))
    have hless : ∀ k : Fin n, start ≤ k → k.val < p → compare b[k] pivot < 0 :=
      hre₁.forall_mem (P := fun x => compare x pivot < 0) (Nat.le_of_lt p.isLt) hp.less
    have hbehind : ∀ k : Fin n, p + 1 ≤ k.val → k < stop → ¬ compare b[k] pivot < 0 := by
      intro k hk hk'
      rw [hre₁.frame k (.inr (by omega))]
      exact hp.notLess k hk hk'
    have hnotLess : ∀ k : Fin n, p + 1 ≤ k.val → k < stop → ¬ compare d[k] pivot < 0 :=
      hre₂.forall_mem (P := fun x => ¬ compare x pivot < 0) h hbehind
    apply SortedOn.join hc _ hsorted₂
    · intro k hk hk'
      rw [hdp, hbefore k hk']
      exact Int.le_of_lt (hless k hk hk')
    · intro k hk hk'
      rw [hdp]
      exact hc.le_of_not_gt (hnotLess k hk hk')
    · intro i j hi hij hj
      rw [hbefore i (by omega), hbefore j hj]
      exact hsorted₁ i j hi hij hj

theorem quickSort_sorts (hc : TotalPreorder compare) {subSorter : Option (SortMethod T n)}
    (hsub : ∀ sort ∈ subSorter, Sorts compare sort) (subSortLimit : Int) :
  Sorts compare (quickSort compare subSorter subSortLimit)
  := by
  intro arr start stop h random
  -- by induction on the length of the range
  induction hlength : stop - start using Nat.strongRecOn generalizing arr start stop random
    with
  | ind length ih =>
      rw [quickSort]
      split
      · rename_i sort hsort
        exact hsub sort (Option.eq_some_of_filter_eq_some hsort) arr start stop h random
      · split
        · rename_i hle
          refine ⟨.refl, ?_⟩
          intro a b ha hab hb
          omega
        · rename_i hgt
          have hlt : start < stop := by omega
          have hpartition := partition_pivoted compare arr h hlt random
          generalize partition compare arr start stop h hlt random = q at hpartition ⊢
          obtain ⟨p, random⟩ := q
          obtain ⟨hre, pivot, hp⟩ := hpartition
          have hstart := p.start_le
          have hstop := p.lt_stop
          have hleft := ih (p.pivotIndex - start) (by omega) p.arr start p.pivotIndex (by omega)
            random rfl
          have hright := ih (stop - (p.pivotIndex + 1)) (by omega)
            (quickSort compare subSorter subSortLimit p.arr start p.pivotIndex (by omega) random).1
            (p.pivotIndex + 1) stop h
            (quickSort compare subSorter subSortLimit p.arr start p.pivotIndex (by omega) random).2
            rfl
          exact hp.join hc h hre hstart hstop hleft hright

/-- Every sorter sorts, whatever sorters are nested in it. -/
theorem Sorter.sort_sorts (hc : TotalPreorder compare) :
  ∀ sorter : Sorter, Sorts compare (sorter.sort compare : SortMethod T n)
  | .insertSort => insertSort_sorts hc
  | .selectSort => selectSort_sorts hc
  | .quickSort none limit => by
      rw [Sorter.sort]
      apply quickSort_sorts hc
      rintro sort ⟨⟩
  | .quickSort (some subSorter) limit => by
      rw [Sorter.sort]
      apply quickSort_sorts hc
      rintro sort ⟨⟩
      exact subSorter.sort_sorts hc

/-- If only equal elements of an array compare as equal, it is sorted in one way. -/
theorem Sorts.unique {sort sort' : SortMethod T n} (h : Sorts compare sort)
    (h' : Sorts compare sort') {arr : Vector T n} (random random' : Random)
    (hanti : ∀ x ∈ arr.toList, ∀ y ∈ arr.toList, compare x y ≤ 0 → compare y x ≤ 0 → x = y) :
  (sort arr 0 n (Nat.le_refl n) random).1 = (sort' arr 0 n (Nat.le_refl n) random').1
  := by
  obtain ⟨hre, hsorted⟩ := h arr 0 n (Nat.le_refl n) random
  obtain ⟨hre', hsorted'⟩ := h' arr 0 n (Nat.le_refl n) random'
  have hpairwise : ∀ a : Vector T n, SortedOn compare 0 n a →
      a.toList.Pairwise fun x y => compare x y ≤ 0 := by
    intro a ha
    rw [List.pairwise_iff_getElem]
    intro i j hi hj hij
    rw [Vector.length_toList] at hi hj
    exact ha ⟨i, hi⟩ ⟨j, hj⟩ (Nat.zero_le _) hij hj
  apply Vector.toList_inj.mp
  apply List.Perm.eq_of_pairwise _ (hpairwise _ hsorted) (hpairwise _ hsorted')
  · exact hre.perm.trans hre'.perm.symm
  · intro x y hx hy
    exact hanti x (hre.perm.mem_iff.mp hx) y (hre'.perm.mem_iff.mp hy)

/-- Every sorter sorts every range: what is there afterwards is what was there before, in
nondecreasing order, and everything else stays where it is. -/
theorem every_sorter_sorts (hc : TotalPreorder compare) (sorter : Sorter) (arr : Vector T n)
    (start stop : Nat) (hle : start ≤ stop) (h : stop ≤ n) (random : Random) :
  let sorted := (sorter.sort compare arr start stop h random).1
  (slice sorted start stop).Perm (slice arr start stop)
    ∧ SortedOn compare start stop sorted
    ∧ ∀ i : Fin n, i < start ∨ stop ≤ i → sorted[i] = arr[i]
  := by
  intro sorted
  obtain ⟨hre, hsorted⟩ := sorter.sort_sorts hc arr start stop h random
  exact ⟨hre.slice_perm hle h, hsorted, hre.frame⟩

/-- The comparison of numbers by their difference. -/
def difference (x y : Int) : Int := x - y

theorem totalPreorder_difference :
  TotalPreorder difference
  where
  swap x y := by
    dsimp only [difference]
    omega
  trans x y z := by
    dsimp only [difference]
    omega

theorem every_sorter_sorts_nested :
  let sorted := ((Sorter.quickSort (some .insertSort) 2).sort difference #v[3, 1, 2, 1, 0] 0 4
    (by decide) ⟨id, 0⟩).1
  (slice sorted 0 4).Perm (slice #v[3, 1, 2, 1, 0] 0 4)
    ∧ SortedOn difference 0 4 sorted
    ∧ ∀ i : Fin 5, i < 0 ∨ 4 ≤ i.val → sorted[i] = #v[3, 1, 2, 1, 0][i]
  := every_sorter_sorts totalPreorder_difference (.quickSort (some .insertSort) 2) #v[3, 1, 2, 1, 0]
    0 4 (by decide) (by decide) ⟨id, 0⟩

end Sorting
