import Homeworks.Sparse.Vector
import Mathlib.Algebra.BigOperators.Finprod

/-!
# The dot product

`dot` is the sum of the products of the totals, so it depends on the totals only.
-/

namespace SparseVector

def dot (a b : SparseVector) : ℚ :=
  a.foldl (fun dotProduct x => b.foldl
    (fun dotProduct y =>
      if x.index = y.index then dotProduct + x.data * y.data else dotProduct) dotProduct) 0

variable {a b : SparseVector}

/-- The inner loop adds the product with a total. -/
theorem foldl_inner (x : Vec) (s : ℚ) :
  b.foldl (fun s y => if x.index = y.index then s + x.data * y.data else s) s
    = s + x.data * value b x.index
  := by
  induction b generalizing s with
  | nil =>
      have hzero : value [] x.index = 0 := rfl
      rw [List.foldl_nil, hzero, mul_zero, add_zero]
  | cons y b ih =>
      rw [List.foldl_cons, ih, value_cons, mul_add, ← add_assoc]
      by_cases h : x.index = y.index
      · rw [if_pos h, if_pos h.symm]
      · rw [if_neg h, if_neg (Ne.symm h), mul_zero, add_zero]

/-- The outer loop sums up over the indices, taken from any set that has those of the first
vector. -/
theorem dot_eq_sum {s : Finset ℤ} (hs : ∀ x ∈ a, x.index ∈ s) :
  dot a b = ∑ i ∈ s, value a i * value b i
  := by
  have hloop : ∀ (a : SparseVector) (d : ℚ), (∀ x ∈ a, x.index ∈ s) →
      a.foldl (fun d x => b.foldl
        (fun d y => if x.index = y.index then d + x.data * y.data else d) d) d
      = d + ∑ i ∈ s, value a i * value b i := by
    intro a
    induction a with
    | nil =>
        intro d _
        simp
    | cons x a ih =>
        intro d hs
        obtain ⟨hx, hs⟩ := List.forall_mem_cons.mp hs
        have hsum : ∑ i ∈ s, (if x.index = i then x.data else 0) * value b i
            = x.data * value b x.index := by
          simp [ite_mul, hx]
        rw [List.foldl_cons, foldl_inner, ih _ hs, add_assoc, ← hsum, ← Finset.sum_add_distrib]
        congr 1
        refine Finset.sum_congr rfl fun i _ => ?_
        rw [value_cons, add_mul]
  rw [dot, hloop a 0 hs, zero_add]

theorem dot_eq_finsum (a b : SparseVector) :
  dot a b = ∑ᶠ i, value a i * value b i
  := by
  have hs : ∀ x ∈ a, x.index ∈ (a.map Vec.index).toFinset := fun x hx =>
    List.mem_toFinset.mpr (List.mem_map_of_mem hx)
  rw [dot_eq_sum hs, finsum_eq_sum_of_support_subset]
  intro i hi
  rw [Function.mem_support] at hi
  by_contra hnone
  have hzero : value a i = 0 := Totals.total_eq_zero fun x hx heq => hnone (heq ▸ hs x hx)
  rw [hzero, zero_mul] at hi
  exact hi rfl

theorem dot_congr {a' b' : SparseVector} (ha : ∀ i, value a i = value a' i)
    (hb : ∀ i, value b i = value b' i) :
  dot a b = dot a' b'
  := by
  rw [dot_eq_finsum, dot_eq_finsum]
  exact finsum_congr fun i => by rw [ha, hb]

/-- `add` keeps every total where it stays in bounds. -/
theorem value_of_add {a' : SparseVector} (h : add a = .ok a') (i : ℤ) : value a' i = value a i
  := by
  rw [add_eq] at h
  split at h
  next => cases h
  next =>
    cases h
    exact value_merged a i

/-- The dot product of two lists is the sum over all indices of the products of the totals; it is
symmetric, and neither the order of the lists nor adding up neighbours changes it. -/
theorem dot_totals (a b : SparseVector) :
  dot a b = ∑ᶠ i, value a i * value b i
  ∧ dot b a = dot a b
  ∧ (∀ a' b' : SparseVector, a.Perm a' → b.Perm b' → dot a' b' = dot a b)
  ∧ ∀ a', add a = .ok a' → dot a' b = dot a b ∧ dot b a' = dot b a
  := by
  refine ⟨dot_eq_finsum a b, ?_, ?_, ?_⟩
  · rw [dot_eq_finsum, dot_eq_finsum]
    exact finsum_congr fun i => mul_comm _ _
  · intro a' b' ha hb
    exact dot_congr (value_eq_of_perm ha.symm) (value_eq_of_perm hb.symm)
  · intro a' ha
    exact ⟨dot_congr (value_of_add ha) fun _ => rfl, dot_congr (fun _ => rfl) (value_of_add ha)⟩

end SparseVector
