import Mathlib.Data.List.Basic
import Mathlib.Data.List.Perm.Basic
import Mathlib.Data.Set.List

/-!
# Ranges of arrays

An array that is rearranged within a range, and an array that is sorted on a range by a
comparison whose result is negative, zero or positive.  A range contains its start but not its
end.
-/

namespace Sorting

variable {T : Type*} {n : Nat} {a b c : Vector T n} {start stop : Nat}

/-- The elements of a range. -/
def slice (a : Vector T n) (start stop : Nat) : List T := (a.toList.take stop).drop start

/-- An array becomes another one by rearranging a range. -/
structure Rearranged (start stop : Nat) (a b : Vector T n) : Prop where
  perm : b.toList.Perm a.toList
  frame : ∀ i : Fin n, i < start ∨ stop ≤ i → getElem b i i.isLt = getElem a i i.isLt

namespace Rearranged

theorem refl :
  Rearranged start stop a a
  := ⟨.refl _, fun _ _ => rfl⟩

theorem trans (h : Rearranged start stop a b) (h' : Rearranged start stop b c) :
  Rearranged start stop a c
  where
  perm := h'.perm.trans h.perm
  frame i hi := (h'.frame i hi).trans (h.frame i hi)

/-- A range is part of a larger one. -/
theorem mono {start' stop' : Nat} (h : Rearranged start' stop' a b) (hstart : start ≤ start')
    (hstop : stop' ≤ stop) :
  Rearranged start stop a b
  where
  perm := h.perm
  frame i hi := h.frame i (by omega)

theorem swap {i j : Nat} (hi : i < n) (hj : j < n) (hi' : start ≤ i ∧ i < stop)
    (hj' : start ≤ j ∧ j < stop) :
  Rearranged start stop a (a.swap i j)
  where
  perm := (Vector.swap_perm hi hj).toList
  frame k hk := Vector.getElem_swap_of_ne (by omega) (by omega)

/-- The elements of the range are rearranged. -/
theorem slice_perm (h : Rearranged start stop a b) (hle : start ≤ stop) (hstop : stop ≤ n) :
  (slice b start stop).Perm (slice a start stop)
  := by
  have hsplit : ∀ a : Vector T n,
      a.toList = a.toList.take start ++ slice a start stop ++ a.toList.drop stop := by
    intro a
    have htake : a.toList.take start = (a.toList.take stop).take start := by
      rw [List.take_take, Nat.min_eq_left hle]
    rw [slice, htake, List.take_append_drop, List.take_append_drop]
  have hstart : b.toList.take start = a.toList.take start := by
    apply List.ext_getElem
    · simp
    · intro i hi hi'
      have hlt : i < start := by
        rw [List.length_take] at hi
        omega
      have hframe := h.frame ⟨i, by omega⟩ (.inl hlt)
      simpa using hframe
  have hdrop : b.toList.drop stop = a.toList.drop stop := by
    apply List.ext_getElem
    · simp
    · intro i hi hi'
      have hlt : stop + i < n := by
        rw [List.length_drop, Vector.length_toList] at hi
        omega
      have hframe := h.frame ⟨stop + i, hlt⟩ (.inr (Nat.le_add_right _ _))
      simpa using hframe
  have hperm := h.perm
  rw [hsplit a, hsplit b, hstart, hdrop, List.append_assoc, List.append_assoc,
    List.perm_append_left_iff, List.perm_append_right_iff] at hperm
  exact hperm

theorem mem_slice {x : T} (hstop : stop ≤ n) :
  x ∈ slice a start stop ↔ ∃ i : Fin n, start ≤ i ∧ i < stop ∧ a[i] = x
  := by
  have hlength : (slice a start stop).length = stop - start := by
    rw [slice, List.length_drop, List.length_take, Vector.length_toList, Nat.min_eq_left hstop]
  rw [List.mem_iff_getElem]
  constructor
  · rintro ⟨k, hk, rfl⟩
    rw [hlength] at hk
    refine ⟨⟨start + k, by omega⟩, by simp, by dsimp only; omega, ?_⟩
    simp [slice]
  · rintro ⟨i, hi, hi', rfl⟩
    refine ⟨i - start, by omega, ?_⟩
    simp [slice, Nat.add_sub_cancel' hi]

/-- What holds of all elements of a range still holds of them when they are rearranged. -/
theorem forall_mem {P : T → Prop} (h : Rearranged start stop a b) (hstop : stop ≤ n)
    (ha : ∀ i : Fin n, start ≤ i → i < stop → P a[i]) :
  ∀ i : Fin n, start ≤ i → i < stop → P b[i]
  := by
  intro i hi hi'
  have hmem : b[i] ∈ slice b start stop := (mem_slice hstop).mpr ⟨i, hi, hi', rfl⟩
  rw [(h.slice_perm (by omega) hstop).mem_iff] at hmem
  obtain ⟨j, hj, hj', heq⟩ := (mem_slice hstop).mp hmem
  rw [← heq]
  exact ha j hj hj'

end Rearranged

/-! ### Sorted ranges -/

/-- A comparison is that of a total preorder. -/
structure TotalPreorder (compare : T → T → Int) : Prop where
  swap : ∀ x y, compare x y < 0 ↔ compare y x > 0
  trans : ∀ x y z, compare x y ≤ 0 → compare y z ≤ 0 → compare x z ≤ 0

/-- The elements of a range do not decrease. -/
def SortedOn (compare : T → T → Int) (start stop : Nat) (a : Vector T n) : Prop :=
  ∀ i j : Fin n, start ≤ i → i < j → j < stop →
    compare (getElem a i i.isLt) (getElem a j j.isLt) ≤ 0

/-- What is rearranged of the images of some elements are the images of the elements in an
order. -/
theorem exists_map_of_perm {S : Type*} {f : S → T} (hf : Function.Injective f) {l : List T}
    {elements : List S} (h : l.Perm (elements.map f)) :
  ∃ order : List S, order.Perm elements ∧ l = order.map f
  := by
  have hrange : l ∈ Set.range (List.map f) := by
    rw [Set.range_list_map]
    intro x hx
    obtain ⟨v, -, rfl⟩ := List.mem_map.mp (h.mem_iff.mp hx)
    exact ⟨v, rfl⟩
  obtain ⟨order, rfl⟩ := hrange
  exact ⟨order, (List.map_perm_map_iff hf).mp h, rfl⟩

end Sorting
