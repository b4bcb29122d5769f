import Homeworks.Occurrence.First
import Mathlib.Data.List.Zip

/-!
# Removing 2-grams

The program reads integers and counts the pairs of adjacent ones.  A pair that has been counted is
removed from the arrays in place, which are read as lists.  An index outside the arrays ends the
run with `none`.
-/

namespace TwoGrams

/-- The size of the arrays. -/
def SIZE : ℕ := 100

abbrev Cells := Vector ℤ SIZE

/-- The arrays of `main`. -/
structure Arrays where
  counter : Cells
  twoGram1 : Cells
  twoGram2 : Cells

/-- Assigns to an element of an array. -/
def put (cells : Cells) (k : ℕ) (x : ℤ) : Option Cells :=
  if h : k < SIZE then some (cells.set k x h) else none

/-- The 2-gram at an index. -/
def Arrays.pair? (a : Arrays) (k : ℕ) : Option (ℤ × ℤ) := do
  let x ← a.twoGram1[k]?
  let y ← a.twoGram2[k]?
  return (x, y)

/-- Adds to an element of `counter`. -/
def Arrays.addTo (a : Arrays) (k : ℕ) (d : ℤ) : Option Arrays := do
  let c ← a.counter[k]?
  let counter ← put a.counter k (c + d)
  return { a with counter }

/-! ### Reading -/

/-- The loop that reads the integers after the first one. -/
def readRest : List ℤ → ℕ → Arrays → Option (ℕ × Arrays)
  | [], i, a => some (i, a)
  | y :: input, i, a => do
      let twoGram2 ← put a.twoGram2 i y
      let twoGram1 ← put a.twoGram1 (i + 1) y
      readRest input (i + 1) { a with twoGram1, twoGram2 }

def readInput : List ℤ → Arrays → Option (ℕ × Arrays)
  | [], a => some (0, a)
  | x :: input, a => do
      let twoGram1 ← put a.twoGram1 0 x
      readRest input 0 { a with twoGram1 }

/-! ### Removing -/

/-- The loop that moves the elements after an index to the left, a number of times. -/
def shift : ℕ → ℕ → Arrays → Option Arrays
  | 0, _, a => some a
  | t + 1, j, a => do
      let x ← a.twoGram1[j + 1]?
      let twoGram1 ← put a.twoGram1 j x
      let y ← a.twoGram2[j + 1]?
      let twoGram2 ← put a.twoGram2 j y
      shift t (j + 1) { a with twoGram1, twoGram2 }

/-- The loop that compares a 2-gram with those before it, the nearest one first.  Once it is
removed, the comparisons go on with the 2-gram in front of it. -/
def compare (n i j : ℕ) (a : Arrays) : Option (ℕ × ℕ × Arrays) :=
  if _h : n ≤ j then do
    let p ← a.pair? j
    let q ← a.pair? (j - n)
    if p = q then do
      let a ← a.addTo (j - n) 1
      let a ← a.addTo j (-1)
      let a ← shift i j a
      compare (n + 1) (i - 1) (j - 1) a
    else
      compare (n + 1) i j a
  else
    some (i, j, a)
termination_by j + 1 - n

/-- The body of the outer loop, but for its last statement. -/
def visit (i j : ℕ) (a : Arrays) : Option (ℕ × ℕ × Arrays) := do
  let counter ← put a.counter j 0
  let a ← { a with counter }.addTo j 1
  compare 1 i j a

variable {n i j i' j' : ℕ} {a a' : Arrays}

/-- The indices are counted down together, and not below 0. -/
theorem compare_indices (hn : 0 < n) (hji : j ≤ i) (h : compare n i j a = some (i', j', a')) :
  j' ≤ i' ∧ i' + j = i + j'
  := by
  fun_induction compare n i j a with
  | case1 n i j a hnj ih ih' =>
      obtain ⟨p, -, h⟩ := Option.bind_eq_some_iff.mp h
      obtain ⟨q, -, h⟩ := Option.bind_eq_some_iff.mp h
      split_ifs at h
      · obtain ⟨a₁, -, h⟩ := Option.bind_eq_some_iff.mp h
        obtain ⟨a₂, -, h⟩ := Option.bind_eq_some_iff.mp h
        obtain ⟨a₃, -, h⟩ := Option.bind_eq_some_iff.mp h
        obtain ⟨hle, hsum⟩ := ih a₃ (Nat.succ_pos n) (by omega) h
        exact ⟨hle, by omega⟩
      · exact ih' (Nat.succ_pos n) hji h
  | case2 n i j a hnj =>
      obtain ⟨rfl, rfl, rfl⟩ := Option.some.inj h
      exact ⟨hji, rfl⟩

theorem visit_indices (hji : j ≤ i) (h : visit i j a = some (i', j', a')) :
  j' ≤ i' ∧ i' + j = i + j'
  := by
  obtain ⟨counter, -, h⟩ := Option.bind_eq_some_iff.mp h
  obtain ⟨a₁, -, h⟩ := Option.bind_eq_some_iff.mp h
  exact compare_indices Nat.one_pos hji h

/-- The outer loop, with the number of 2-grams that are left at its end. -/
def mainLoop (i j : ℕ) (a : Arrays) : Option (ℕ × Arrays) :=
  if _hji : j ≤ i then
    match _h : visit i j a with
    | none => none
    | some (i', j', a') => mainLoop i' (j' + 1) a'
  else
    some (i, a)
termination_by i + 1 - j
decreasing_by
  obtain ⟨-, hsum⟩ := visit_indices _hji _h
  omega

/-! ### Writing -/

abbrev Line := (ℤ × ℤ) × ℤ

/-- The loop that writes the 2-grams with their numbers of occurrences. -/
def writeLines : ℕ → ℕ → Arrays → Option (List Line)
  | 0, _, _ => some []
  | t + 1, k, a => do
      let p ← a.pair? k
      let c ← a.counter[k]?
      let lines ← writeLines t (k + 1) a
      return (p, c) :: lines

/-- `main`, with the integers of the file and what the arrays hold at its start.  The integers, each
of the type `int`, are stored, compared and written only. -/
def main (input : List ℤ) (a : Arrays) : Option (List Line) := do
  let (i, a) ← readInput input a
  let (i, a) ← mainLoop i 0 a
  writeLines i 0 a

/-! ### The purpose -/

/-- The pairs of adjacent integers. -/
def twoGrams (input : List ℤ) : List (ℤ × ℤ) := input.zip input.tail

/-- What is to be written. -/
def counts (input : List ℤ) : List Line :=
  (Occurrence.tally (twoGrams input)).map fun (p, c) => (p, (c : ℤ))

/-! ### Removing 2-grams -/

variable {a : Arrays} {i j k n t : ℕ} {p : ℤ × ℤ} {before after rest between : List (ℤ × ℤ)}

/-! ### Arrays as lists -/

def Arrays.pairs (a : Arrays) : List (ℤ × ℤ) := a.twoGram1.toList.zip a.twoGram2.toList

theorem length_pairs : a.pairs.length = SIZE
  := by
  rw [Arrays.pairs, List.length_zip, Vector.length_toList, Vector.length_toList, Nat.min_self]

theorem pairs_eq_some :
  a.pairs[k]? = some p ↔ a.twoGram1[k]? = some p.1 ∧ a.twoGram2[k]? = some p.2
  := by
  rw [Arrays.pairs, List.getElem?_zip_eq_some, Vector.getElem?_toList, Vector.getElem?_toList]

theorem pair?_eq_some (h : a.pairs[k]? = some p) : a.pair? k = some p
  := by
  obtain ⟨h₁, h₂⟩ := pairs_eq_some.mp h
  rw [Arrays.pair?, h₁, h₂]
  rfl

theorem getElem?_middle {α : Type*} {before after : List α} {x : α} (h : k = before.length) :
  (before ++ x :: after)[k]? = some x
  := by
  rw [h, List.getElem?_append_right (Nat.le_refl _), Nat.sub_self]
  rfl

theorem zip_middle {l l' : List ℤ} (h : l.zip l' = before ++ p :: after) (x : ℤ) :
  (l.set before.length x).zip l' = before ++ (x, p.2) :: after
    ∧ l.zip (l'.set before.length x) = before ++ (p.1, x) :: after
  := by
  induction before generalizing l l' with
  | nil =>
      cases l with
      | nil => cases h
      | cons y l =>
          cases l' with
          | nil => cases h
          | cons y' l' =>
              obtain ⟨rfl, rfl⟩ := List.cons.inj h
              exact ⟨rfl, rfl⟩
  | cons q before ih =>
      cases l with
      | nil => cases h
      | cons y l =>
          cases l' with
          | nil => cases h
          | cons y' l' =>
              obtain ⟨rfl, hrest⟩ := List.cons.inj h
              obtain ⟨h₁, h₂⟩ := ih hrest
              exact ⟨congrArg _ h₁, congrArg _ h₂⟩

/-- An assignment to one of the arrays. -/
theorem exists_put₁ (h : a.pairs = before ++ p :: after) (hk : k = before.length) (x : ℤ) :
  ∃ cells, put a.twoGram1 k x = some cells
    ∧ Arrays.pairs { a with twoGram1 := cells } = before ++ (x, p.2) :: after
  := by
  have hlength := congrArg List.length h
  rw [length_pairs, List.length_append, List.length_cons] at hlength
  have hlt : k < SIZE := by omega
  subst hk
  use a.twoGram1.set before.length x hlt, dif_pos hlt
  rw [Arrays.pairs, Vector.toList_set]
  exact (zip_middle h x).1

theorem exists_put₂ (h : a.pairs = before ++ p :: after) (hk : k = before.length) (x : ℤ) :
  ∃ cells, put a.twoGram2 k x = some cells
    ∧ Arrays.pairs { a with twoGram2 := cells } = before ++ (p.1, x) :: after
  := by
  have hlength := congrArg List.length h
  rw [length_pairs, List.length_append, List.length_cons] at hlength
  have hlt : k < SIZE := by omega
  subst hk
  use a.twoGram2.set before.length x hlt, dif_pos hlt
  rw [Arrays.pairs, Vector.toList_set]
  exact (zip_middle h x).2

theorem exists_put {cells : Cells} {l l' : List ℤ} {c : ℤ} (h : cells.toList = l ++ c :: l')
    (hk : k = l.length) (x : ℤ) :
  ∃ cells', put cells k x = some cells' ∧ cells'.toList = l ++ x :: l'
  := by
  have hlength := congrArg List.length h
  rw [Vector.length_toList, List.length_append, List.length_cons] at hlength
  have hlt : k < SIZE := by omega
  use cells.set k x hlt, dif_pos hlt
  rw [Vector.toList_set, h, hk, List.set_append_right _ _ (Nat.le_refl _), Nat.sub_self,
    List.set_cons_zero]

theorem exists_addTo {l l' : List ℤ} {c : ℤ} (h : a.counter.toList = l ++ c :: l')
    (hk : k = l.length) (d : ℤ) :
  ∃ a', a.addTo k d = some a' ∧ a'.counter.toList = l ++ (c + d) :: l' ∧ a'.pairs = a.pairs
  := by
  obtain ⟨cells, hput, hcells⟩ := exists_put h hk (c + d)
  have hread : a.counter[k]? = some c := by
    rw [← Vector.getElem?_toList, h]
    exact getElem?_middle hk
  refine ⟨{ a with counter := cells }, ?_, hcells, rfl⟩
  rw [Arrays.addTo, hread]
  dsimp only [bind, Option.bind]
  rw [hput]
  rfl

/-! ### Removing a 2-gram -/

theorem exists_shift (h : a.pairs = before ++ p :: (rest ++ after)) (hj : j = before.length) :
  ∃ a' after', shift rest.length j a = some a' ∧ a'.counter = a.counter
    ∧ a'.pairs = before ++ (rest ++ after')
  := by
  induction rest generalizing a before p j with
  | nil => exact ⟨a, p :: after, rfl, rfl, h⟩
  | cons q rest ih =>
      have hread : a.pairs[j + 1]? = some q := by
        rw [h, ← List.singleton_append, ← List.append_assoc, List.cons_append]
        apply getElem?_middle
        rw [List.length_append, hj]
        rfl
      obtain ⟨hread₁, hread₂⟩ := pairs_eq_some.mp hread
      obtain ⟨cells₁, hput₁, h₁⟩ := exists_put₁ h hj q.1
      obtain ⟨cells₂, hput₂, h₂⟩ := exists_put₂ h₁ hj q.2
      have hmoved : Arrays.pairs { a with twoGram1 := cells₁, twoGram2 := cells₂ }
          = (before ++ [q]) ++ q :: (rest ++ after) := by
        rw [h₂, List.append_assoc]
        rfl
      have hj' : j + 1 = (before ++ [q]).length := by
        rw [List.length_append, hj]
        rfl
      obtain ⟨a', after', hshift, hcounter, hpairs⟩ := ih hmoved hj'
      refine ⟨a', after', ?_, hcounter, ?_⟩
      · rw [List.length_cons, shift, hread₁]
        dsimp only [bind, Option.bind]
        rw [hput₁]
        dsimp only
        rw [hread₂]
        dsimp only at hput₂ ⊢
        rw [hput₂]
        exact hshift
      · rw [hpairs, List.append_assoc]
        rfl

/-- Moving too many elements leaves the arrays. -/
theorem shift_eq_none (hj : j < SIZE) (h : SIZE ≤ j + t) : shift t j a = none
  := by
  induction t generalizing a j with
  | zero => exact absurd hj (Nat.not_lt.mpr h)
  | succ t ih =>
      rw [shift]
      rcases Nat.lt_or_ge (j + 1) SIZE with hlt | hge
      · apply Option.bind_eq_none_iff.mpr
        intro x _
        apply Option.bind_eq_none_iff.mpr
        intro cells₁ _
        apply Option.bind_eq_none_iff.mpr
        intro y _
        apply Option.bind_eq_none_iff.mpr
        intro cells₂ _
        exact ih hlt (by omega)
      · rw [Vector.getElem?_eq_none hge]
        rfl

/-! ### Comparing -/

theorem compare_step {q : ℤ × ℤ} (hp : a.pairs[j]? = some p) (hq : a.pairs[j - n]? = some q)
    (hn : n ≤ j) :
  compare n i j a
    = if p = q then do
        let a ← a.addTo (j - n) 1
        let a ← a.addTo j (-1)
        let a ← shift i j a
        compare (n + 1) (i - 1) (j - 1) a
      else
        compare (n + 1) i j a
  := by
  rw [compare, dif_pos hn, pair?_eq_some hp, pair?_eq_some hq]
  rfl

/-- Comparisons with 2-grams that differ change nothing. -/
theorem compare_of_ne (hp : a.pairs[j]? = some p)
    (hne : ∀ m, n ≤ m → m < n + k → a.pairs[j - m]? ≠ some p) (hk : n + k ≤ j + 1) :
  compare n i j a = compare (n + k) i j a
  := by
  induction k generalizing n with
  | zero => rfl
  | succ k ih =>
      obtain ⟨hj, -⟩ := List.getElem?_eq_some_iff.mp hp
      have hq : a.pairs[j - n]? = some a.pairs[j - n] := List.getElem?_eq_getElem (by omega)
      have hdiffers : p ≠ a.pairs[j - n] := by
        intro heq
        apply hne n (Nat.le_refl n) (by omega)
        rw [hq, heq]
      rw [compare_step hp hq (by omega), if_neg hdiffers, ih _ (by omega), Nat.add_right_comm]
      · rfl
      · intro m hm hlt
        exact hne m (by omega) (by omega)

/-- A 2-gram that none of those before it is equal to stays. -/
theorem compare_new (hp : a.pairs[j]? = some p) (h : ∀ k < j, a.pairs[k]? ≠ some p)
    (hn : 0 < n) :
  compare n i j a = some (i, j, a)
  := by
  rcases Nat.lt_or_ge j n with hlt | hge
  · rw [compare, dif_neg (Nat.not_le.mpr hlt)]
  · obtain ⟨k, hk⟩ := Nat.exists_eq_add_of_le (Nat.le_succ_of_le hge)
    rw [compare_of_ne hp _ (Nat.le_of_eq hk.symm), ← hk, compare,
      dif_neg (Nat.not_succ_le_self j)]
    intro m hm hlt
    exact h (j - m) (by omega)

section

variable {counts₁ counts₂ counts₃ : List ℤ} {c d : ℤ}
  (hpairs : a.pairs = before ++ p :: (between ++ p :: after))
  (hnodup : (before ++ p :: between).Nodup)
  (hcounter : a.counter.toList = counts₁ ++ c :: (counts₂ ++ d :: counts₃))
  (h₁ : counts₁.length = before.length) (h₂ : counts₂.length = between.length)
  (hj : j = before.length + 1 + between.length)

include hpairs hnodup hcounter h₁ h₂ hj

/-- A 2-gram that is equal to one before it is compared with those between them, and counted
there. -/
theorem compare_found :
  ∃ a', compare 1 i j a
      = ((shift i j a').bind fun a => compare (1 + between.length + 1) (i - 1) (j - 1) a)
    ∧ a'.counter.toList = counts₁ ++ (c + 1) :: (counts₂ ++ (d + -1) :: counts₃)
    ∧ a'.pairs = (before ++ p :: between) ++ p :: after
  := by
  have hlength : (before ++ p :: between).length = j := by
    rw [List.length_append, List.length_cons, hj]
    omega
  rw [← List.cons_append, ← List.append_assoc] at hpairs
  have hp : a.pairs[j]? = some p := by
    rw [hpairs]
    exact getElem?_middle hlength.symm
  have hfirst : (before ++ p :: between)[before.length]? = some p := getElem?_middle rfl
  have hq : a.pairs[j - (1 + between.length)]? = some p := by
    rw [hpairs, List.getElem?_append_left (by omega)]
    apply getElem?_middle
    omega
  have hne : ∀ m, 1 ≤ m → m < 1 + between.length → a.pairs[j - m]? ≠ some p := by
    intro m hm hlt heq
    rw [hpairs, List.getElem?_append_left (by omega)] at heq
    have hindex := (List.getElem?_inj (by omega) hnodup).mp (hfirst.trans heq.symm)
    omega
  have hplace : j - (1 + between.length) = counts₁.length := by omega
  obtain ⟨a₁, hadd₁, hcounter₁, hpairs₁⟩ := exists_addTo hcounter hplace 1
  rw [← List.cons_append, ← List.append_assoc] at hcounter₁
  have hplace' : j = (counts₁ ++ (c + 1) :: counts₂).length := by
    rw [List.length_append, List.length_cons]
    omega
  obtain ⟨a₂, hadd₂, hcounter₂, hpairs₂⟩ := exists_addTo hcounter₁ hplace' (-1)
  refine ⟨a₂, ?_, ?_, hpairs₂.trans (hpairs₁.trans hpairs)⟩
  · rw [compare_of_ne hp hne (by omega), compare_step hp hq (by omega), if_pos rfl, hadd₁]
    dsimp only [bind, Option.bind]
    rw [hadd₂]
  · rw [hcounter₂, List.append_assoc, List.cons_append]

/-- It is removed if there is room for the elements that are moved. -/
theorem compare_old (hafter : i ≤ after.length) :
  ∃ a' after', compare 1 i j a = some (i - 1, j - 1, a')
    ∧ a'.counter.toList = counts₁ ++ (c + 1) :: (counts₂ ++ (d + -1) :: counts₃)
    ∧ a'.pairs = (before ++ p :: between) ++ (after.take i ++ after')
  := by
  obtain ⟨a₁, hfound, hcounter₁, hpairs₁⟩ :=
    compare_found (i := i) hpairs hnodup hcounter h₁ h₂ hj
  have hlength : j = (before ++ p :: between).length := by
    rw [List.length_append, List.length_cons, hj]
    omega
  rw [← List.take_append_drop i after] at hpairs₁
  obtain ⟨a₂, after', hshift, hcounter₂, hpairs₂⟩ := exists_shift hpairs₁ hlength
  rw [List.length_take_of_le hafter] at hshift
  refine ⟨a₂, after', ?_, hcounter₂ ▸ hcounter₁, hpairs₂⟩
  rw [hfound, hshift]
  have hlast : j - 1 < (before ++ p :: between).length := by omega
  have hp : a₂.pairs[j - 1]? = some (before ++ p :: between)[j - 1] := by
    rw [hpairs₂, List.getElem?_append_left hlast]
    exact List.getElem?_eq_getElem hlast
  apply compare_new hp _ (Nat.succ_pos _)
  intro k hk heq
  rw [hpairs₂, List.getElem?_append_left (by omega), ← List.getElem?_eq_getElem hlast] at heq
  have hindex := (List.getElem?_inj (by omega) hnodup).mp heq
  omega

/-- Without that room the elements are moved from outside the arrays. -/
theorem compare_past (hafter : after.length < i) : compare 1 i j a = none
  := by
  obtain ⟨a', hfound, -, -⟩ := compare_found (i := i) hpairs hnodup hcounter h₁ h₂ hj
  have hlength := congrArg List.length hpairs
  rw [length_pairs] at hlength
  simp only [List.length_append, List.length_cons] at hlength
  rw [hfound, shift_eq_none (by omega) (by omega)]
  rfl

end

end TwoGrams
