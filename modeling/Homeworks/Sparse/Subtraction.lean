import Homeworks.Sparse.MatrixSum
import Homeworks.Sparse.Vector
import Mathlib.Tactic.Linarith

/-!
# Subtraction

The binary `operator-` negates the element at the place of its counter instead of the one that it
has transferred, so it negates as many elements as the second operand has, from the front of the
first one on.
-/

open Sparse

namespace Sparse

open Totals

variable {α κ : Type*} [LinearOrder κ] {key : α → κ} {value : α → ℚ} {negate : α → α}
  {a b : List α}

/-- The signs are right if and only if the second list is at the front of the first one or the
first one at the end of the second. -/
theorem total_transferNegated_iff (ha : Canonical key value a) (hb : Canonical key value b)
    (h : Signed key value negate) :
  (∀ k, total key value (transferNegated negate a b) k = total key value a k - total key value b k)
    ↔ b <+: a ∨ a <:+ b
  := by
  have htotal : ∀ k, total key value (transferNegated negate a b) k
      = -total key value ((a ++ b).take b.length) k
        + total key value ((a ++ b).drop b.length) k := by
    intro k
    rw [transferNegated_eq, total_append, h.total_map]
  rcases Nat.lt_or_ge a.length b.length with hlt | hle
  · have hsuffix : b <+: a ∨ a <:+ b ↔ a = b.drop (b.length - a.length) := by
      rw [← List.suffix_iff_eq_drop]
      exact or_iff_right_of_imp fun hstart => absurd hstart.length_le (Nat.not_le.mpr hlt)
    rw [hsuffix]
    have hsplit : ∀ k, total key value b k = total key value (b.take (b.length - a.length)) k
        + total key value (b.drop (b.length - a.length)) k := by
      intro k
      rw [← total_append, List.take_append_drop]
    rw [List.take_append, List.drop_append, List.take_of_length_le hlt.le,
      List.drop_of_length_le hlt.le, List.nil_append] at htotal
    constructor
    · intro hsub
      refine ha.ext (hb.sublist (List.drop_sublist _ _)) h.ext fun k => ?_
      have hk := hsub k
      rw [htotal, hsplit, total_append] at hk
      linarith
    · intro heq k
      rw [htotal, hsplit, total_append, ← heq]
      linarith
  · have hstart : b <+: a ∨ a <:+ b ↔ b = a.take b.length := by
      rw [← List.prefix_iff_eq_take]
      refine or_iff_left_of_imp fun hsuffix => ?_
      rw [hsuffix.eq_of_length_le hle]
    rw [hstart]
    have hsplit : ∀ k, total key value a k
        = total key value (a.take b.length) k + total key value (a.drop b.length) k := by
      intro k
      rw [← total_append, List.take_append_drop]
    rw [List.take_append_of_le_length hle, List.drop_append_of_le_length hle] at htotal
    constructor
    · intro hsub
      refine hb.ext (ha.sublist (List.take_sublist _ _)) h.ext fun k => ?_
      have hk := hsub k
      rw [htotal, hsplit, total_append] at hk
      linarith
    · intro heq k
      rw [htotal, hsplit, total_append, ← heq]
      linarith

end Sparse

namespace SparseVector

variable {a b : SparseVector}

theorem data_ne_zero (ha : Canonical a) (hb : Canonical b) :
  ∀ v ∈ transferNegated Vec.negate a b, v.data ≠ 0
  := by
  have hne : ∀ v ∈ a ++ b, v.data ≠ 0 := List.forall_mem_append.mpr ⟨ha.ne_zero, hb.ne_zero⟩
  rw [transferNegated_eq]
  refine List.forall_mem_append.mpr ⟨List.forall_mem_map.mpr fun v hv => ?_, fun v hv => ?_⟩
  · exact (signed.value_negate v).trans_ne (neg_ne_zero.mpr (hne v (List.mem_of_mem_take hv)))
  · exact hne v (List.mem_of_mem_drop hv)

theorem countP_transferNegated (ha : Canonical a) (hb : Canonical b) (i : ℤ) :
  (transferNegated Vec.negate a b).countP (fun v => v.index = i) ≤ 2
  := by
  have hsplit : (a ++ b).countP (fun v => v.index = i)
      = ((a ++ b).take b.length).countP (fun v => v.index = i)
        + ((a ++ b).drop b.length).countP (fun v => v.index = i) := by
    rw [← List.countP_append, List.take_append_drop]
  have htwice := countP_append_le_two ha hb i
  rw [hsplit] at htwice
  rw [transferNegated_eq, List.countP_append, List.countP_map]
  exact htwice

/-- The difference of two vectors has the values of the sum with the negation. -/
def Subtracts (a b : SparseVector) : Prop :=
  ∃ c d, minus a b = .ok c ∧ plus a (negate b) = .ok d
    ∧ ∀ i, value c i = value d i ∧ value d i = value a i - value b i

theorem subtracts_iff (ha : Canonical a) (hb : Canonical b) :
  Subtracts a b ↔ (b <+: a ∨ a <:+ b) ∧ a ≠ b
  := by
  have htransfer : (∀ i, value (transferNegated Vec.negate a b) i = value a i - value b i)
      ↔ b <+: a ∨ a <:+ b :=
    total_transferNegated_iff ha hb signed
  rw [← htransfer]
  have hminus := sort_add (data_ne_zero ha hb) (countP_transferNegated ha hb)
  change _ ∧ (∃ e, minus a b = .error e) ∨ _ ∧ ∃ c, minus a b = .ok c ∧ _ at hminus
  constructor
  · rintro ⟨c, d, hc, hd, h⟩
    constructor
    · rcases hminus with ⟨-, e, he⟩ | ⟨-, c', hc', -, hvalue⟩
      · cases he.symm.trans hc
      · cases hc'.symm.trans hc
        exact fun i => (hvalue i).symm.trans ((h i).1.trans (h i).2)
    · rintro rfl
      have ha' : Canonical (negate a) := canonical_negated signed ha
      rcases plus_cases ha ha' with ⟨-, e, he⟩ | ⟨hne, -⟩
      · cases he.symm.trans hd
      · exact hne rfl
  · rintro ⟨h, hne⟩
    rcases hminus with ⟨hzero, -⟩ | ⟨-, c, hc, -, hvalue⟩
    · refine absurd (ha.ext hb signed.ext fun i => ?_) hne
      rw [← sub_eq_zero, ← h, hzero]
    · have hb' : Canonical (negate b) := canonical_negated signed hb
      rcases plus_cases ha hb' with ⟨heq, -⟩ | ⟨-, d, hd, -, hsum⟩
      · exact absurd (eq_of_negated_eq signed ha hb heq.symm) hne
      · have hd' : ∀ i, value d i = value a i - value b i := fun i => by
          rw [hsum, value_negate, sub_eq_add_neg]
        exact ⟨c, d, hc, hd, fun i => ⟨by rw [hvalue, h, hd'], hd' i⟩⟩

end SparseVector

namespace SparseMatrix

variable {a b : SparseMatrix}

/-- What is arranged keeps every total, and it is there unless everything is cancelled. -/
theorem arrange_cases (l : SparseMatrix) :
  merged l = [] ∧ (∃ e, arrange l = .error e)
  ∨ merged l ≠ [] ∧ ∃ c, arrange l = .ok c ∧ ∀ p, valueAt c p = valueAt l p
  := by
  rw [arrange_eq]
  by_cases h : merged l = []
  · rw [if_pos (by rwa [List.isEmpty_iff])]
    exact .inl ⟨h, _, rfl⟩
  · rw [if_neg (by rwa [List.isEmpty_iff])]
    exact .inr ⟨h, _, rfl, fun p =>
      (valueAt_eq_of_perm Exchange.sort_perm p).trans (valueAt_merged l p)⟩

/-- The difference of two matrices has the values of the sum with the negation. -/
def Subtracts (a b : SparseMatrix) : Prop :=
  ∃ c d, minus a b = .ok c ∧ plus a (negate b) = .ok d
    ∧ ∀ row column, value c row column = value d row column
      ∧ value d row column = value a row column - value b row column

theorem subtracts_iff (ha : Canonical a) (hb : Canonical b) :
  Subtracts a b ↔ (b <+: a ∨ a <:+ b) ∧ a ≠ b
  := by
  have htransfer : (∀ p, valueAt (transferNegated Mat.negate a b) p = valueAt a p - valueAt b p)
      ↔ b <+: a ∨ a <:+ b :=
    total_transferNegated_iff ha hb signed
  rw [← htransfer]
  have hminus := arrange_cases (transferNegated Mat.negate a b)
  have hplus := arrange_cases (a ++ negate b)
  have hb' : Canonical (negate b) := canonical_negated signed hb
  rw [merged_eq_nil_iff ha hb'] at hplus
  change _ ∧ (∃ e, minus a b = .error e) ∨ _ ∧ ∃ c, minus a b = .ok c ∧ _ at hminus
  change _ ∧ (∃ e, plus a (negate b) = .error e) ∨ _ ∧ ∃ d, plus a (negate b) = .ok d ∧ _ at hplus
  constructor
  · rintro ⟨c, d, hc, hd, h⟩
    constructor
    · rcases hminus with ⟨-, e, he⟩ | ⟨-, c', hc', hvalue⟩
      · cases he.symm.trans hc
      · cases hc'.symm.trans hc
        intro p
        obtain ⟨hcd, hd'⟩ := h (ofLex p).1 (ofLex p).2
        exact (hvalue p).symm.trans (hcd.trans hd')
    · rintro rfl
      rcases hplus with ⟨-, e, he⟩ | ⟨hne, -⟩
      · cases he.symm.trans hd
      · exact hne ((merged_eq_nil_iff ha hb').mpr rfl)
  · rintro ⟨h, hne⟩
    rcases hminus with ⟨hnil, -⟩ | ⟨-, c, hc, hvalue⟩
    · refine absurd (ha.ext hb signed.ext fun p => ?_) hne
      rw [← sub_eq_zero, ← h, ← valueAt_merged, hnil]
      rfl
    · rcases hplus with ⟨heq, -⟩ | ⟨-, d, hd, hsum⟩
      · exact absurd (eq_of_negated_eq signed ha hb heq.symm) hne
      · have hd' : ∀ p, valueAt d p = valueAt a p - valueAt b p := fun p => by
          rw [hsum, valueAt_append, valueAt_negate, sub_eq_add_neg]
        refine ⟨c, d, hc, hd, fun row column => ⟨?_, hd' _⟩⟩
        exact (hvalue _).trans ((h _).trans (hd' _).symm)

end SparseMatrix

namespace Sparse

/-- For vectors as for matrices, subtracting gives the values of the sum with the negation if and
only if the second operand is at the front of the first one, or the first one at the end of the
second, and they are different. -/
theorem minus_iff {a b : SparseVector} {c d : SparseMatrix} (ha : SparseVector.Canonical a)
    (hb : SparseVector.Canonical b) (hc : SparseMatrix.Canonical c)
    (hd : SparseMatrix.Canonical d) :
  (SparseVector.Subtracts a b ↔ (b <+: a ∨ a <:+ b) ∧ a ≠ b)
  ∧ (SparseMatrix.Subtracts c d ↔ (d <+: c ∨ c <:+ d) ∧ c ≠ d)
  := ⟨SparseVector.subtracts_iff ha hb, SparseMatrix.subtracts_iff hc hd⟩

/-- The second operand is the start of the first one. -/
theorem minus_prefix :
  SparseVector.Subtracts [⟨1, 2⟩, ⟨4, 1⟩] [⟨1, 2⟩]
  ∧ SparseMatrix.Subtracts [⟨1, 0, 2⟩, ⟨4, 0, 1⟩] [⟨1, 0, 2⟩]
  := by
  have h := minus_iff (a := [⟨1, 2⟩, ⟨4, 1⟩]) (b := [⟨1, 2⟩]) (c := [⟨1, 0, 2⟩, ⟨4, 0, 1⟩])
    (d := [⟨1, 0, 2⟩]) ⟨by decide, by decide⟩ ⟨by decide, by decide⟩ ⟨by decide, by decide⟩
    ⟨by decide, by decide⟩
  exact ⟨h.1.mpr (by decide), h.2.mpr (by decide)⟩

/-- The sign of the first operand changes. -/
theorem minus_other :
  SparseVector.Canonical [⟨0, 1⟩] ∧ SparseVector.Canonical [⟨1, 1⟩]
    ∧ SparseVector.minus [⟨0, 1⟩] [⟨1, 1⟩] = .ok [⟨0, -1⟩, ⟨1, 1⟩]
    ∧ ¬ SparseVector.Subtracts [⟨0, 1⟩] [⟨1, 1⟩]
  := by
  have ha : SparseVector.Canonical [⟨0, 1⟩] := ⟨by decide, by decide⟩
  have hb : SparseVector.Canonical [⟨1, 1⟩] := ⟨by decide, by decide⟩
  refine ⟨ha, hb, ?_, mt (SparseVector.subtracts_iff ha hb).mp (by decide)⟩
  have htransfer : transferNegated Vec.negate [⟨0, 1⟩] [⟨1, 1⟩] = [⟨0, -1⟩, ⟨1, 1⟩] := by
    decide +kernel
  have hsort : SparseVector.sort [⟨0, -1⟩, ⟨1, 1⟩] = .ok [⟨0, -1⟩, ⟨1, 1⟩] := by decide
  have hmerged : SparseVector.merged [⟨0, -1⟩, ⟨1, 1⟩] = [⟨0, -1⟩, ⟨1, 1⟩] := by
    rw [SparseVector.merged, if_neg (by decide), SparseVector.merged]
  rw [SparseVector.minus, htransfer, hsort]
  change SparseVector.add _ = _
  rw [SparseVector.add_eq, hmerged]
  rfl

end Sparse
