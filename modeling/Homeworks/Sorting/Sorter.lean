import Homeworks.Sorting.Ranges

/-!
# The sorters

`MyInsertSort`, `MySelectSort` and `MyQuickSort`.  An array has a length that is part of its
type, and every access carries a proof that it is within the array.
-/

namespace Sorting

/-- The source of random numbers, with the number of those drawn so far. -/
structure Random where
  choice : Nat → Nat
  drawn : Nat

/-- `nextInt`: a number below a bound. -/
def Random.nextInt (random : Random) (bound : Nat) (h : 0 < bound) : Fin bound × Random :=
  (⟨random.choice random.drawn % bound, Nat.mod_lt _ h⟩,
    { random with drawn := random.drawn + 1 })

/-- A method `sort`: it sorts a range of an array, and may draw random numbers. -/
abbrev SortMethod (T : Type*) (n : Nat) :=
  (arr : Vector T n) → (start stop : Nat) → stop ≤ n → Random → Vector T n × Random

section

variable {T : Type*} {n : Nat} (compare : T → T → Int)

/-! ### MyInsertSort -/

/-- Elements that are greater than `key` are moved, and `key` is put at their place; the place
that is free is `hole`. -/
def insertKey (key : T) (start : Nat) (arr : Vector T n) (hole : Nat) (h : hole < n) :
    Vector T n :=
  if hstart : start < hole then
    if compare arr[hole - 1] key > 0 then
      insertKey key start (arr.set hole arr[hole - 1]) (hole - 1) (by omega)
    else
      arr.set hole key
  else
    arr.set hole key
termination_by hole

def insertLoop (start stop : Nat) (h : stop ≤ n) (arr : Vector T n) (i : Nat) : Vector T n :=
  if hi : i < stop then
    insertLoop start stop h (insertKey compare arr[i] start arr i (by omega)) (i + 1)
  else
    arr
termination_by stop - i

def insertSort : SortMethod T n :=
  fun arr start stop h random => (insertLoop compare start stop h arr (start + 1), random)

/-! ### MySelectSort -/

/-- The index of a minimum, if `minIndex` is that of the elements before `j`. -/
def minLoop (stop : Nat) (h : stop ≤ n) (arr : Vector T n) (minIndex : Fin n) (j : Nat) : Fin n :=
  if hj : j < stop then
    if compare arr[j] arr[minIndex] < 0 then
      minLoop stop h arr ⟨j, by omega⟩ (j + 1)
    else
      minLoop stop h arr minIndex (j + 1)
  else
    minIndex
termination_by stop - j

def selectLoop (stop : Nat) (h : stop ≤ n) (arr : Vector T n) (i : Nat) : Vector T n :=
  if hi : i + 1 < stop then
    let minIndex := minLoop compare stop h arr ⟨i, by omega⟩ (i + 1)
    if minIndex.val ≠ i then
      selectLoop stop h (arr.swap i minIndex) (i + 1)
    else
      selectLoop stop h arr (i + 1)
  else
    arr
termination_by stop - i

def selectSort : SortMethod T n :=
  fun arr start stop h random => (selectLoop compare stop h arr start, random)

/-! ### MyQuickSort -/

/-- An array that has been partitioned, and the place of the pivot. -/
structure Partition (T : Type*) (n start stop : Nat) where
  arr : Vector T n
  pivotIndex : Nat
  start_le : start ≤ pivotIndex
  lt_stop : pivotIndex < stop

/-- The loop of `partition`; the elements from `start + 1` to `i` are smaller than the pivot. -/
def partitionLoop (pivot : T) (start stop : Nat) (h : stop ≤ n) (arr : Vector T n) (i j : Nat)
    (hi : start < i) (hij : i ≤ j) (hj : j ≤ stop) : Partition T n start stop :=
  if hlt : j < stop then
    if compare arr[j] pivot < 0 then
      partitionLoop pivot start stop h (arr.swap i j) (i + 1) (j + 1) (by omega) (by omega)
        (by omega)
    else
      partitionLoop pivot start stop h arr i (j + 1) hi (by omega) (by omega)
  else
    ⟨arr.swap start (i - 1), i - 1, by omega, by omega⟩
termination_by stop - j

def partition (arr : Vector T n) (start stop : Nat) (h : stop ≤ n) (hlt : start < stop)
    (random : Random) : Partition T n start stop × Random :=
  let (k, random) := random.nextInt (stop - start) (Nat.sub_pos_of_lt hlt)
  let randomPivotIndex : Fin n := ⟨start + k, Nat.lt_of_lt_of_le (Nat.add_lt_of_lt_sub' k.isLt) h⟩
  let arr := arr.swap start randomPivotIndex
  (partitionLoop compare arr[start] start stop h arr (start + 1) (start + 1) (Nat.lt_succ_self _)
    (Nat.le_refl _) hlt, random)

def quickSort (subSorter : Option (SortMethod T n)) (subSortLimit : Int) (arr : Vector T n)
    (start stop : Nat) (h : stop ≤ n) (random : Random) : Vector T n × Random :=
  let length : Int := stop - start
  match subSorter.filter fun _ => length ≤ subSortLimit && length > 1 with
  | some sort => sort arr start stop h random
  | none =>
      if hlt : length ≤ 1 then
        (arr, random)
      else
        let (p, random) := partition compare arr start stop h (by omega) random
        let (arr, random) := quickSort subSorter subSortLimit p.arr start p.pivotIndex
          (by have hstop := p.lt_stop; omega) random
        quickSort subSorter subSortLimit arr (p.pivotIndex + 1) stop h random
termination_by stop - start
decreasing_by
  · have hstop := p.lt_stop
    omega
  · have hstart := p.start_le
    omega

/-! ### Nested sorters -/

end

inductive Sorter where
  | insertSort
  | selectSort
  | quickSort (subSorter : Option Sorter) (subSortLimit : Int)

/-- The method `sort` of a sorter. -/
def Sorter.sort {T : Type*} {n : Nat} (compare : T → T → Int) : Sorter → SortMethod T n
  | insertSort => Sorting.insertSort compare
  | selectSort => Sorting.selectSort compare
  | quickSort none limit => Sorting.quickSort compare none limit
  | quickSort (some subSorter) limit =>
      Sorting.quickSort compare (some (subSorter.sort compare)) limit

end Sorting
