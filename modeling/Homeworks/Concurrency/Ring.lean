import Mathlib.Data.Fin.Basic
import Mathlib.Data.List.Basic
import Mathlib.Data.Nat.ModEq
import Mathlib.Logic.Function.Basic

/-!
# Ring buffers

A ring of cells, of which some are in use, one after the other from a first one on.  Their
contents are a list, to which a new element is appended and from which the first one is
taken.
-/

namespace Ring

variable {n : ℕ} [NeZero n] {α : Type*}

/-- The cell that comes a number of places after another. -/
def shift (i : Fin n) (j : ℕ) : Fin n := Fin.ofNat n (i + j)

@[simp]
theorem shift_val (i : Fin n) (j : ℕ) :
  (shift i j).val = (i.val + j) % n
  := rfl

@[simp]
theorem shift_zero (i : Fin n) :
  shift i 0 = i
  := by
  apply Fin.ext
  rw [shift_val, Nat.add_zero, Nat.mod_eq_of_lt i.isLt]

theorem shift_shift (i : Fin n) (j k : ℕ) :
  shift (shift i j) k = shift i (j + k)
  := by
  apply Fin.ext
  rw [shift_val, shift_val, shift_val, Nat.mod_add_mod, Nat.add_assoc]

/-- Fewer than `n` places after a cell no cell comes twice. -/
theorem shift_inj {i : Fin n} {j k : ℕ} (hj : j < n) (hk : k < n) (h : shift i j = shift i k) :
  j = k
  := by
  have hmod : (i.val + j) % n = (i.val + k) % n := congrArg Fin.val h
  have hcancel : j % n = k % n := Nat.ModEq.add_left_cancel' i.val hmod
  rwa [Nat.mod_eq_of_lt hj, Nat.mod_eq_of_lt hk] at hcancel

/-- The contents of the cells in use. -/
def contents (cells : Fin n → α) (head : Fin n) (size : ℕ) : List α :=
  (List.range size).map fun j => cells (shift head j)

variable {cells : Fin n → α} {head : Fin n} {size : ℕ}

/-- A cell that is not in use does not matter. -/
theorem contents_update {i : Fin n} (x : α) (h : ∀ j, j < size → shift head j ≠ i) :
  contents (Function.update cells i x) head size = contents cells head size
  := by
  apply List.map_congr_left
  intro j hj
  rw [Function.update_of_ne (h j (List.mem_range.mp hj))]

/-- An element is put into the cell after the last one in use. -/
theorem contents_push (x : α) (h : size < n) :
  contents (Function.update cells (shift head size) x) head (size + 1)
    = contents cells head size ++ [x]
  := by
  have hold : contents (Function.update cells (shift head size) x) head size
      = contents cells head size := by
    apply contents_update
    intro j hj hshift
    exact hj.ne (shift_inj (hj.trans h) h hshift)
  rw [contents, List.range_succ, List.map_append, ← contents, hold, List.map_singleton,
    Function.update_self]

/-- The element in the first cell is taken out. -/
theorem contents_pop (cells : Fin n → α) (head : Fin n) (size : ℕ) :
  contents cells head (size + 1) = cells head :: contents cells (shift head 1) size
  := by
  rw [contents, List.range_succ_eq_map, List.map_cons, List.map_map, shift_zero]
  congr 1
  apply List.map_congr_left
  intro j _
  rw [shift_shift, Nat.add_comm]
  rfl

/-- The first cell is not in use after its element has been taken out. -/
theorem shift_one_ne {j : ℕ} (h : j + 1 < n) :
  shift (shift head 1) j ≠ head
  := by
  rw [shift_shift, Nat.add_comm]
  intro hshift
  rw [← shift_zero head, shift_shift, Nat.zero_add] at hshift
  cases shift_inj h (Nat.zero_lt_of_lt h) hshift

end Ring
