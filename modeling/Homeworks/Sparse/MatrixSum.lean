import Homeworks.Sparse.Matrix

/-!
# Sums of matrices

`sort_2` never exchanges anything, so the columns in a row are where `add` and `sort_1` leave
them, and `sort_1` rotates the elements of a row.
-/

open Sparse

namespace SparseMatrix

/-- The elements of a row. -/
abbrev row (r : ℤ) (a : SparseMatrix) : SparseMatrix := Exchange.ofSize Mat.rowIndex r a

theorem sort1_eq {alldata : SparseMatrix} (h : alldata ≠ []) :
  sort1 alldata = .ok (Exchange.sort (Exchange.byKey Mat.rowIndex) alldata)
  := sortLoops_eq h

theorem sort2_eq {alldata : SparseMatrix} (h : alldata ≠ []) : sort2 alldata = .ok alldata
  := by
  have hnever : ∀ x y : Mat,
      (decide (x.rowIndex = y.rowIndex) && decide (x.rowIndex > y.rowIndex)) = false := by
    intro x y
    rw [Bool.and_eq_false_iff, decide_eq_false_iff_not, decide_eq_false_iff_not]
    exact not_and_or.mp fun h => h.2.ne' h.1
  rw [sort2, sortLoops_eq h, Exchange.sort_eq_self hnever]

theorem arrange_eq (alldata : SparseMatrix) :
  arrange alldata = if (merged alldata).isEmpty then .error .overflow
    else .ok (Exchange.sort (Exchange.byKey Mat.rowIndex) (merged alldata))
  := by
  rw [arrange, add_eq]
  change (sort1 (merged alldata) >>= sort2) = _
  by_cases h : merged alldata = []
  · rw [h]
    rfl
  · have hsort : Exchange.sort (Exchange.byKey Mat.rowIndex) (merged alldata) ≠ [] := by
      rw [← List.length_pos_iff, Exchange.length_sort, List.length_pos_iff]
      exact h
    rw [sort1_eq h, if_neg (by rwa [List.isEmpty_iff])]
    exact sort2_eq hsort

/-! ### The order in a row -/

theorem position_lt {x y : Mat} :
  x.position < y.position ↔ x.rowIndex < y.rowIndex ∨ x.rowIndex = y.rowIndex ∧ x.index < y.index
  := Prod.Lex.toLex_lt_toLex

/-- The positions of a matrix that is sorted by rows increase if the columns in each row do. -/
theorem pairwise_position_iff {l : SparseMatrix}
    (h : l.Pairwise fun x y => x.rowIndex ≤ y.rowIndex) :
  (l.Pairwise fun x y => x.position < y.position)
    ↔ ∀ r, (row r l).Pairwise fun x y => x.index < y.index
  := by
  constructor
  · intro hl r
    refine (List.Pairwise.and_mem.mp (hl.filter _)).imp fun hlt => ?_
    obtain ⟨hx, hy, hlt⟩ := hlt
    have hrow := (of_decide_eq_true (List.mem_filter.mp hx).2).trans
      (of_decide_eq_true (List.mem_filter.mp hy).2).symm
    rcases position_lt.mp hlt with hlt | ⟨-, hlt⟩
    · exact absurd hrow hlt.ne
    · exact hlt
  · intro hrows
    induction l with
    | nil => exact List.Pairwise.nil
    | cons x l ih =>
        obtain ⟨hx, hl⟩ := List.pairwise_cons.mp h
        refine List.pairwise_cons.mpr ⟨fun y hy => position_lt.mpr ?_, ih hl fun r => ?_⟩
        · rcases (hx y hy).lt_or_eq with hlt | heq
          · exact .inl hlt
          · have hrow := hrows x.rowIndex
            rw [row, Exchange.ofSize_cons_of_eq rfl, List.pairwise_cons] at hrow
            exact .inr ⟨heq, hrow.1 y (List.mem_filter.mpr ⟨hy, decide_eq_true heq.symm⟩)⟩
        · exact (hrows r).sublist ((List.sublist_cons_self x l).filter _)

/-- The columns of the elements that are kept in a row are before those of the other matrix, and
their number divides that of the elements of the other matrix in the rows above. -/
def Ordered (a b : SparseMatrix) : Prop :=
  ∀ x ∈ kept a b,
    (kept a b).countP (fun z => z.rowIndex = x.rowIndex)
      ∣ (fresh a b).countP (fun z => z.rowIndex < x.rowIndex)
    ∧ ∀ y ∈ fresh a b, y.rowIndex = x.rowIndex → x.index < y.index

instance (a b : SparseMatrix) : Decidable (Ordered a b) :=
  inferInstanceAs (Decidable (∀ x ∈ kept a b, _ ∣ _ ∧ ∀ y ∈ fresh a b, _ → _))

/-! ### Sums -/

variable {a b : SparseMatrix}

theorem rows_of_canonical (h : Canonical a) : a.Pairwise fun x y => x.rowIndex ≤ y.rowIndex :=
  h.increasing.imp fun hlt => (position_lt.mp hlt).elim le_of_lt fun heq => heq.1.le

theorem columns_of_canonical (h : Canonical a) (r : ℤ) :
  (row r a).Pairwise fun x y => x.index < y.index
  := (pairwise_position_iff (rows_of_canonical h)).mp h.increasing r

theorem canonical_kept (ha : Canonical a) : Canonical ((kept a b).map (withSum b))
  where
  increasing := List.pairwise_map.mpr (ha.increasing.filter _)
  ne_zero := List.forall_mem_map.mpr fun _ hx => of_decide_eq_true (List.mem_filter.mp hx).2

theorem canonical_fresh (hb : Canonical b) : Canonical (fresh a b)
  where
  increasing := hb.increasing.filter _
  ne_zero := fun y hy => hb.ne_zero y (List.mem_of_mem_filter hy)

/-- The elements of the sum in a row are in order if and only if those that are kept come first
and are rotated by whole turns. -/
theorem row_pairwise_iff {kept fresh : SparseMatrix} (hkept : Canonical kept)
    (hfresh : Canonical fresh) (r : ℤ) :
  (row r (Exchange.sort (Exchange.byKey Mat.rowIndex) (kept ++ fresh))).Pairwise
      (fun x y => x.index < y.index)
    ↔ ∀ x ∈ kept, x.rowIndex = r →
        kept.countP (fun z => z.rowIndex = r) ∣ fresh.countP (fun z => z.rowIndex < r)
        ∧ ∀ y ∈ fresh, y.rowIndex = r → x.index < y.index
  := by
  have hrow : row r (Exchange.sort (Exchange.byKey Mat.rowIndex) (kept ++ fresh))
      = (row r kept).rotate (fresh.countP fun z => z.rowIndex < r) ++ row r fresh :=
    Exchange.ofSize_sort_append (rows_of_canonical hkept) (rows_of_canonical hfresh) r
  have hlength : (row r kept).length = kept.countP fun z => z.rowIndex = r :=
    List.countP_eq_length_filter.symm
  rw [hrow, List.pairwise_append, and_iff_right (columns_of_canonical hfresh r)]
  have hmem : ∀ {l : SparseMatrix} {x : Mat}, x ∈ row r l ↔ x ∈ l ∧ x.rowIndex = r := by
    intro l x
    rw [row, Exchange.ofSize, List.mem_filter, decide_eq_true_iff]
  by_cases hnil : row r kept = []
  · rw [hnil, List.rotate_nil]
    refine iff_of_true ⟨List.Pairwise.nil, fun x hx => absurd hx List.not_mem_nil⟩ ?_
    intro x hx hr
    have hrow := hmem.mpr ⟨hx, hr⟩
    rw [hnil] at hrow
    exact absurd hrow List.not_mem_nil
  · obtain ⟨x₀, hx₀⟩ := List.exists_mem_of_ne_nil _ hnil
    rw [Exchange.rotate_pairwise_iff hnil (columns_of_canonical hkept r), hlength]
    constructor
    · rintro ⟨hdvd, hlt⟩ x hx hr
      exact ⟨hdvd, fun y hy hy' =>
        hlt x (List.mem_rotate.mpr (hmem.mpr ⟨hx, hr⟩)) y (hmem.mpr ⟨hy, hy'⟩)⟩
    · intro h
      obtain ⟨hx₀, hr⟩ := hmem.mp hx₀
      refine ⟨(h x₀ hx₀ hr).1, fun x hx y hy => ?_⟩
      obtain ⟨hx, hxr⟩ := hmem.mp (List.mem_rotate.mp hx)
      obtain ⟨hy, hyr⟩ := hmem.mp hy
      exact (h x hx hxr).2 y hy hyr

/-- The positions of the sum increase if and only if the elements of each row are ordered. -/
theorem ordered_iff (ha : Canonical a) (hb : Canonical b) :
  (Exchange.sort (Exchange.byKey Mat.rowIndex)
      ((kept a b).map (withSum b) ++ fresh a b)).Pairwise (fun x y => x.position < y.position)
    ↔ Ordered a b
  := by
  have hcount : ∀ r : ℤ, ((kept a b).map (withSum b)).countP (fun z => z.rowIndex = r)
      = (kept a b).countP fun z => z.rowIndex = r := fun r => List.countP_map
  rw [pairwise_position_iff Exchange.sort_pairwise]
  constructor
  · intro h x hx
    have hrow := (row_pairwise_iff (canonical_kept ha) (canonical_fresh hb) x.rowIndex).mp
      (h x.rowIndex) (withSum b x) (List.mem_map_of_mem hx) rfl
    rwa [hcount] at hrow
  · intro h r
    rw [row_pairwise_iff (canonical_kept ha) (canonical_fresh hb), hcount]
    intro x hx hr
    obtain ⟨z, hz, rfl⟩ := List.mem_map.mp hx
    exact hr ▸ h z hz

theorem valueAt_append {p : ℤ ×ₗ ℤ} : valueAt (a ++ b) p = valueAt a p + valueAt b p :=
  Totals.total_append

theorem signed : Totals.Signed Mat.position Mat.data Mat.negate
  where
  ext x y hposition hdata := by
    obtain ⟨i, r, x⟩ := x
    obtain ⟨j, q, y⟩ := y
    obtain ⟨rfl, rfl⟩ := Prod.mk.inj (toLex_inj.mp hposition)
    obtain rfl : x = y := hdata
    rfl
  key_negate _ := rfl
  value_negate m := mul_neg_one m.data

theorem valueAt_negate (a : SparseMatrix) (p : ℤ ×ₗ ℤ) : valueAt (negate a) p = -valueAt a p :=
  total_negated signed a p

/-- Everything is cancelled if and only if the second matrix is the first one negated. -/
theorem merged_eq_nil_iff (ha : Canonical a) (hb : Canonical b) :
  merged (a ++ b) = [] ↔ b = negate a
  := by
  constructor
  · intro hnil
    refine hb.ext (canonical_negated signed ha) signed.ext fun p => ?_
    change valueAt b p = valueAt (negate a) p
    have hzero : valueAt (a ++ b) p = 0 := by
      rw [← valueAt_merged, hnil]
      rfl
    rw [valueAt_negate, ← add_eq_zero_iff_eq_neg', ← valueAt_append, hzero]
  · rintro rfl
    have hkept : kept a (negate a) = [] := by
      refine List.filter_eq_nil_iff.mpr fun x hx => ?_
      have hx' : valueAt a x.position = x.data := ha.total_eq hx
      rw [valueAt_negate, hx', add_neg_cancel]
      simp
    have hfresh : fresh a (negate a) = [] := by
      refine List.filter_eq_nil_iff.mpr fun y hy => ?_
      rw [negate, transferNegated_nil] at hy
      obtain ⟨x, hx, rfl⟩ := List.mem_map.mp hy
      rw [decide_eq_true_iff]
      exact fun h => h x hx rfl
    rw [merged_append ha.ne hb.ne ha.ne_zero, hkept, hfresh]
    rfl

/-- Adding two matrices gives the matrix of the sums, with increasing rows and columns, if and only
if the second is not the first one negated and the elements of each row are ordered. -/
theorem plus_ordered_iff (ha : Canonical a) (hb : Canonical b) :
  (∃ c, plus a b = .ok c ∧ Canonical c
      ∧ ∀ row column, value c row column = value a row column + value b row column)
    ↔ b ≠ negate a ∧ Ordered a b
  := by
  rw [plus, arrange_eq]
  by_cases hnil : merged (a ++ b) = []
  · rw [if_pos (by rwa [List.isEmpty_iff])]
    refine iff_of_false ?_ fun h => h.1 ((merged_eq_nil_iff ha hb).mp hnil)
    rintro ⟨c, hc, -⟩
    cases hc
  · rw [if_neg (by rwa [List.isEmpty_iff]), and_iff_right (mt (merged_eq_nil_iff ha hb).mpr hnil),
      merged_append ha.ne hb.ne ha.ne_zero]
    have hkept := canonical_kept (b := b) ha
    have hfresh := canonical_fresh (a := a) hb
    have hperm : (Exchange.sort (Exchange.byKey Mat.rowIndex)
        ((kept a b).map (withSum b) ++ fresh a b)).Perm _ := Exchange.sort_perm
    have hcanonical : Canonical (Exchange.sort (Exchange.byKey Mat.rowIndex)
        ((kept a b).map (withSum b) ++ fresh a b)) ↔ Ordered a b := by
      rw [← ordered_iff ha hb]
      refine ⟨fun h => h.increasing, fun h => ⟨h, fun x hx => ?_⟩⟩
      rcases List.mem_append.mp (hperm.mem_iff.mp hx) with hx | hx
      · exact hkept.ne_zero x hx
      · exact hfresh.ne_zero x hx
    rw [← hcanonical]
    constructor
    · rintro ⟨c, hc, h, -⟩
      cases hc
      exact h
    · intro h
      refine ⟨_, rfl, h, fun row column => ?_⟩
      rw [value, Totals.total_perm hperm, ← merged_append ha.ne hb.ne ha.ne_zero]
      exact (valueAt_merged _ _).trans valueAt_append

/-- A matrix below another one. -/
theorem plus_below :
  ∃ c, plus [⟨0, 0, 1⟩, ⟨3, 0, 2⟩] [⟨3, 0, 4⟩, ⟨1, 1, 1⟩] = .ok c ∧ Canonical c
    ∧ ∀ row column, value c row column = value [⟨0, 0, 1⟩, ⟨3, 0, 2⟩] row column
        + value [⟨3, 0, 4⟩, ⟨1, 1, 1⟩] row column
  := (plus_ordered_iff ⟨by decide, by decide⟩ ⟨by decide, by decide⟩).mpr ⟨by decide,
    by decide +kernel⟩

/-- Two elements of one row, the second matrix to the left of the first. -/
theorem plus_left :
  Canonical [⟨1, 0, 1⟩] ∧ Canonical [⟨0, 0, 1⟩]
    ∧ plus [⟨1, 0, 1⟩] [⟨0, 0, 1⟩] = .ok [⟨1, 0, 1⟩, ⟨0, 0, 1⟩]
    ∧ ¬ Canonical [⟨1, 0, 1⟩, ⟨0, 0, 1⟩]
  := by
  refine ⟨⟨by decide, by decide⟩, ⟨by decide, by decide⟩, ?_, fun h => ?_⟩
  · have hmerged : merged [⟨1, 0, 1⟩, ⟨0, 0, 1⟩] = [⟨1, 0, 1⟩, ⟨0, 0, 1⟩] :=
      merged_eq_self (by decide)
    rw [plus, arrange_eq, List.cons_append, List.nil_append, hmerged]
    simp [Exchange.sort, Exchange.pass, Exchange.byKey]
  · have hincreasing := h.increasing
    revert hincreasing
    decide

end SparseMatrix

/-! ### Transposing

`transpose` exchanges the rows and columns of the matrix that it is called on, and returns a sorted
copy of it.
-/

open Sparse

/-- The row and the column of an element exchanged. -/
def Mat.transpose (m : Mat) : Mat := { m with index := m.rowIndex, rowIndex := m.index }

namespace SparseMatrix

/-- The matrix after the call, and what the call returns. -/
def transpose (alldata : SparseMatrix) : SparseMatrix × Except Fault SparseMatrix :=
  let alldata := alldata.map Mat.transpose
  (alldata, do
    let sparseMat ← sort1 alldata
    sort2 sparseMat)

variable {a : SparseMatrix}

theorem value_map_transpose (a : SparseMatrix) (row column : ℤ) :
  value (a.map Mat.transpose) column row = value a row column
  := by
  induction a with
  | nil => rfl
  | cons m a ih =>
      have hposition : m.transpose.position = toLex (column, row)
          ↔ m.position = toLex (row, column) := by
        rw [Mat.position, Mat.position, toLex_inj, toLex_inj, Prod.mk.injEq, Prod.mk.injEq]
        exact and_comm
      change valueAt (m.transpose :: a.map Mat.transpose) _ = valueAt (m :: a) _
      rw [valueAt_cons, valueAt_cons]
      simp only [hposition]
      exact congrArg _ ih

theorem map_transpose_eq_iff : a.map Mat.transpose = a ↔ ∀ m ∈ a, m.rowIndex = m.index
  := by
  induction a with
  | nil => simp
  | cons m a ih =>
      have hm : m.transpose = m ↔ m.rowIndex = m.index := by
        obtain ⟨i, r, x⟩ := m
        simp [Mat.transpose, eq_comm]
      rw [List.map_cons, List.cons.injEq, hm, ih, List.forall_mem_cons]

theorem transpose_eq (h : a ≠ []) :
  (transpose a).2
    = .ok (Exchange.sort (Exchange.byKey Mat.rowIndex) (a.map Mat.transpose))
  := by
  have hne : a.map Mat.transpose ≠ [] := by rwa [Ne, List.map_eq_nil_iff]
  have hsort : Exchange.sort (Exchange.byKey Mat.rowIndex) (a.map Mat.transpose) ≠ [] := by
    rwa [← List.length_pos_iff, Exchange.length_sort, List.length_pos_iff]
  change (sort1 (a.map Mat.transpose) >>= sort2) = _
  rw [sort1_eq hne]
  exact sort2_eq hsort

/-- The result has the values of the transpose, the matrix itself stays as it is, and so the second
call returns the same. -/
def Transposes (a : SparseMatrix) : Prop :=
  ∃ t, (transpose a).2 = .ok t ∧ (∀ row column, value t column row = value a row column)
    ∧ (transpose a).1 = a ∧ (transpose (transpose a).1).2 = .ok t

/-- A matrix that is not empty is always transposed, and it stays as it is if and only if it is
diagonal. -/
theorem transposes_iff (a : SparseMatrix) :
  Transposes a ↔ a ≠ [] ∧ ∀ m ∈ a, m.rowIndex = m.index
  := by
  rw [← map_transpose_eq_iff]
  constructor
  · rintro ⟨t, ht, -, hframe, -⟩
    refine ⟨?_, hframe⟩
    rintro rfl
    cases ht
  · rintro ⟨hne, hframe⟩
    have hself : (transpose a).1 = a := hframe
    refine ⟨_, transpose_eq hne, fun row column => ?_, hself, ?_⟩
    · exact (Totals.total_perm Exchange.sort_perm).trans (value_map_transpose a row column)
    · rw [hself, transpose_eq hne]

/-- An element above the diagonal is below it after the call. -/
theorem transpose_moves :
  (transpose [⟨1, 0, 1⟩]).2 = .ok [⟨0, 1, 1⟩] ∧ (transpose [⟨1, 0, 1⟩]).1 = [⟨0, 1, 1⟩]
    ∧ ¬ Transposes [⟨1, 0, 1⟩]
  := by
  refine ⟨rfl, rfl, ?_⟩
  rintro ⟨t, -, -, hframe, -⟩
  revert hframe
  decide

end SparseMatrix
