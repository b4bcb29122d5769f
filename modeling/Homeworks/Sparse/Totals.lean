import Mathlib.Algebra.BigOperators.Group.List.Basic
import Mathlib.Data.List.Sort
import Mathlib.Order.Defs.LinearOrder

/-!
# Totals

A list of elements that have a key and a value stands for the function that gives every key the
sum of the values with that key.  A list whose keys increase and whose values are not zero is the
only one for its function.
-/

namespace Totals

variable {α κ K : Type*} (key : α → κ) (value : α → K)

section

variable [DecidableEq κ] [AddCommMonoid K]

/-- The sum of the values with a key. -/
def total (l : List α) (k : κ) : K := ((l.filter fun x => key x = k).map value).sum

variable {key value} {l l' : List α} {x : α} {k : κ}

@[simp]
theorem total_nil : total key value [] k = 0 := rfl

theorem total_cons :
  total key value (x :: l) k = (if key x = k then value x else 0) + total key value l k
  := by
  rw [total, total]
  by_cases h : key x = k
  · rw [List.filter_cons_of_pos (by simpa using h), List.map_cons, List.sum_cons, if_pos h]
  · rw [List.filter_cons_of_neg (by simpa using h), if_neg h, zero_add]

theorem total_append :
  total key value (l ++ l') k = total key value l k + total key value l' k
  := by
  rw [total, List.filter_append, List.map_append, List.sum_append]
  rfl

theorem total_perm (h : l.Perm l') : total key value l k = total key value l' k :=
  ((h.filter _).map value).sum_eq

theorem total_eq_zero (h : ∀ x ∈ l, key x ≠ k) : total key value l k = 0
  := by
  have hnil : (l.filter fun x => key x = k) = [] :=
    List.filter_eq_nil_iff.mpr fun x hx => by simpa using h x hx
  rw [total, hnil]
  rfl

/-- An element whose key no other element has. -/
theorem total_of_mem (h : l.Pairwise fun x y => key x ≠ key y) (hx : x ∈ l) :
  total key value l (key x) = value x
  := by
  induction l with
  | nil => cases hx
  | cons y l ih =>
      obtain ⟨hy, hl⟩ := List.pairwise_cons.mp h
      rw [total_cons]
      rcases List.mem_cons.mp hx with rfl | hx
      · rw [if_pos rfl, total_eq_zero fun z hz => (hy z hz).symm, add_zero]
      · rw [if_neg (hy x hx), ih hl hx, zero_add]

theorem countP_le_one (h : l.Pairwise fun x y => key x ≠ key y) (k : κ) :
  l.countP (fun x => key x = k) ≤ 1
  := by
  induction l with
  | nil => exact Nat.zero_le 1
  | cons x l ih =>
      obtain ⟨hx, hl⟩ := List.pairwise_cons.mp h
      by_cases heq : key x = k
      · have hzero : l.countP (fun y => key y = k) = 0 :=
          List.countP_eq_zero.mpr fun y hy => by simpa [← heq] using (hx y hy).symm
        rw [List.countP_cons_of_pos (by simpa using heq), hzero]
      · rw [List.countP_cons_of_neg (by simpa using heq)]
        exact ih hl

end

/-- An element is its key and its value, and the function changes the sign of the value. -/
structure Signed [Neg K] (negate : α → α) : Prop where
  ext : ∀ x y, key x = key y → value x = value y → x = y
  key_negate : ∀ x, key (negate x) = key x
  value_negate : ∀ x, value (negate x) = -value x

theorem Signed.total_map [DecidableEq κ] [AddCommGroup K] {key : α → κ} {value : α → K}
    {negate : α → α} (h : Signed key value negate) (l : List α) (k : κ) :
  total key value (l.map negate) k = -total key value l k
  := by
  induction l with
  | nil => exact neg_zero.symm
  | cons x l ih =>
      rw [List.map_cons, total_cons, total_cons, ih, h.key_negate, h.value_negate, neg_add]
      split
      · rfl
      · rw [neg_zero]

/-- The keys increase and no value is zero. -/
structure Canonical [LT κ] [Zero K] (l : List α) : Prop where
  increasing : l.Pairwise fun x y => key x < key y
  ne_zero : ∀ x ∈ l, value x ≠ 0

namespace Canonical

variable {key value} [LinearOrder κ] [AddCommMonoid K] {l l' : List α} {x : α}

theorem nil : Canonical key value [] :=
  ⟨List.Pairwise.nil, fun _ hx => absurd hx List.not_mem_nil⟩

theorem ne (h : Canonical key value l) : l.Pairwise fun x y => key x ≠ key y :=
  h.increasing.imp fun hlt => hlt.ne

theorem sublist (h : Canonical key value l') (hsublist : l.Sublist l') : Canonical key value l
  where
  increasing := h.increasing.sublist hsublist
  ne_zero x hx := h.ne_zero x (hsublist.subset hx)

/-- Elements are replaced by others with the same keys. -/
theorem map {f : α → α} (h : Canonical key value l) (hkey : ∀ x, key (f x) = key x)
    (hvalue : ∀ x, value x ≠ 0 → value (f x) ≠ 0) :
  Canonical key value (l.map f)
  where
  increasing := List.pairwise_map.mpr (h.increasing.imp fun hlt => by rwa [hkey, hkey])
  ne_zero := List.forall_mem_map.mpr fun x hx => hvalue x (h.ne_zero x hx)

theorem total_eq (h : Canonical key value l) (hx : x ∈ l) :
  total key value l (key x) = value x
  := total_of_mem h.ne hx

/-- The keys are those whose total is not zero. -/
theorem exists_iff (h : Canonical key value l) {k : κ} :
  (∃ x ∈ l, key x = k) ↔ total key value l k ≠ 0
  := by
  constructor
  · rintro ⟨x, hx, rfl⟩
    rw [h.total_eq hx]
    exact h.ne_zero x hx
  · intro hne
    by_contra hnone
    exact hne (total_eq_zero fun x hx heq => hnone ⟨x, hx, heq⟩)

/-- The list is determined by its totals. -/
theorem ext (h : Canonical key value l) (h' : Canonical key value l')
    (hdata : ∀ x y, key x = key y → value x = value y → x = y)
    (htotal : ∀ k, total key value l k = total key value l' k) :
  l = l'
  := by
  have hsubset : ∀ {l l' : List α}, Canonical key value l → Canonical key value l' →
      (∀ k, total key value l k = total key value l' k) → ∀ x ∈ l, x ∈ l' := by
    intro l l' h h' htotal x hx
    obtain ⟨y, hy, hkey⟩ : ∃ y ∈ l', key y = key x := by
      rw [h'.exists_iff, ← htotal, ← h.exists_iff]
      exact ⟨x, hx, rfl⟩
    have hvalue : value y = value x := by
      rw [← h'.total_eq hy, hkey, ← htotal, h.total_eq hx]
    exact hdata y x hkey hvalue ▸ hy
  have : Std.Irrefl fun x y => key x < key y := ⟨fun x => lt_irrefl (key x)⟩
  have : Std.Asymm fun x y => key x < key y := ⟨fun x y => lt_asymm⟩
  exact h.increasing.eq_of_mem_iff h'.increasing fun x =>
    ⟨hsubset h h' htotal x, hsubset h' h (fun k => (htotal k).symm) x⟩

theorem eq_nil_iff (h : Canonical key value l) :
  l = [] ↔ ∀ k, total key value l k = 0
  := by
  constructor
  · rintro rfl k
    rfl
  · intro htotal
    refine List.eq_nil_iff_forall_not_mem.mpr fun x hx => ?_
    exact h.ne_zero x hx (h.total_eq hx ▸ htotal (key x))

end Canonical

end Totals
