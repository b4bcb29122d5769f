import Homeworks.Sparse.Loops
import Homeworks.Sparse.Totals
import Mathlib.Algebra.Order.Ring.Rat
import Mathlib.Data.Prod.Lex

/-!
# Sparse matrices

`SparseMatrix` over exact numbers, and what its `add` makes of its elements.
-/

open Sparse

/-- `mat`. -/
structure Mat where
  index : ℤ
  rowIndex : ℤ
  data : ℚ
  deriving DecidableEq, Repr

/-- The elements of `alldata`. -/
abbrev SparseMatrix := List Mat

namespace Mat

def negate (m : Mat) : Mat := { m with data := m.data * -1 }

/-- The row and the column. -/
def position (m : Mat) : ℤ ×ₗ ℤ := toLex (m.rowIndex, m.index)

def samePosition (x y : Mat) : Bool := x.rowIndex = y.rowIndex && x.index = y.index

theorem samePosition_iff {x y : Mat} : x.samePosition y = true ↔ y.position = x.position
  := by
  rw [samePosition, Bool.and_eq_true, decide_eq_true_iff, decide_eq_true_iff, position, position,
    toLex_inj, Prod.mk.injEq, eq_comm, @eq_comm _ x.index]

end Mat

namespace SparseMatrix

/-- The loops of `add` from an index on; the inner loop ends where it finds an element at the same
position. -/
def addFrom (i : ℕ) (alldata : SparseMatrix) : Except Fault SparseMatrix :=
  if _h : i < alldata.length then
    match alldata[i]? with
    | none => .error .pastEnd
    | some x =>
        match (alldata.drop (i + 1)).findIdx? x.samePosition with
        | none => addFrom (i + 1) alldata
        | some k =>
            match alldata[i + 1 + k]? with
            | none => .error .pastEnd
            | some y =>
                let sum : Mat := { x with data := x.data + y.data }
                let alldata' := (alldata.set i sum).eraseIdx (i + 1 + k)
                if sum.data = 0 then addFrom i (alldata'.eraseIdx i) else addFrom (i + 1) alldata'
  else .ok alldata
termination_by alldata.length - i
decreasing_by
  · omega
  · simp only [List.length_eraseIdx, List.length_set]
    split_ifs
    all_goals omega
  · simp only [List.length_eraseIdx, List.length_set]
    split_ifs
    all_goals omega

def add (alldata : SparseMatrix) : Except Fault SparseMatrix := addFrom 0 alldata

/-- `sort_1`. -/
def sort1 (alldata : SparseMatrix) : Except Fault SparseMatrix :=
  sortLoops (fun a b => a.rowIndex > b.rowIndex) alldata

/-- `sort_2`, which compares the rows twice. -/
def sort2 (alldata : SparseMatrix) : Except Fault SparseMatrix :=
  sortLoops (fun a b => a.rowIndex = b.rowIndex && a.rowIndex > b.rowIndex) alldata

/-- `add`, `sort_1` and `sort_2`. -/
def arrange (alldata : SparseMatrix) : Except Fault SparseMatrix := do
  let alldata ← add alldata
  let alldata ← sort1 alldata
  sort2 alldata

/-- `operator+`. -/
def plus (a b : SparseMatrix) : Except Fault SparseMatrix := arrange (a ++ b)

/-- `operator-` of two matrices. -/
def minus (a b : SparseMatrix) : Except Fault SparseMatrix :=
  arrange (transferNegated Mat.negate a b)

/-- `operator-` of one matrix. -/
def negate (a : SparseMatrix) : SparseMatrix := transferNegated Mat.negate [] a

/-- The value at a row and a column. -/
abbrev value (a : SparseMatrix) (row column : ℤ) : ℚ :=
  Totals.total Mat.position Mat.data a (toLex (row, column))

/-- The rows, and the columns in a row, increase strictly, and no data is zero. -/
abbrev Canonical (a : SparseMatrix) : Prop := Totals.Canonical Mat.position Mat.data a

/-! ### Adding up -/

/-- What `add` makes of the elements that it has not passed. -/
def merged : SparseMatrix → SparseMatrix
  | [] => []
  | x :: l =>
      match l.find? x.samePosition with
      | none => x :: merged l
      | some y =>
          if x.data + y.data = 0 then merged (l.eraseP x.samePosition)
          else { x with data := x.data + y.data } :: merged (l.eraseP x.samePosition)
termination_by l => l.length
decreasing_by
  · exact Nat.lt_succ_self _
  · exact Nat.lt_succ_of_le (List.eraseP_sublist.length_le)
  · exact Nat.lt_succ_of_le (List.eraseP_sublist.length_le)

theorem merged_of_find_eq_none {x : Mat} {l : SparseMatrix} (h : l.find? x.samePosition = none) :
  merged (x :: l) = x :: merged l
  := by
  rw [merged, h]

theorem merged_of_find_eq_some {x y : Mat} {l : SparseMatrix}
    (h : l.find? x.samePosition = some y) :
  merged (x :: l)
    = if x.data + y.data = 0 then merged (l.eraseP x.samePosition)
      else { x with data := x.data + y.data } :: merged (l.eraseP x.samePosition)
  := by
  rw [merged, h]

theorem addFrom_of_find_eq_none {front : SparseMatrix} {x : Mat} {l : SparseMatrix}
    (h : l.find? x.samePosition = none) :
  addFrom front.length (front ++ x :: l) = addFrom (front.length + 1) (front ++ x :: l)
  := by
  have hlt : front.length < (front ++ x :: l).length := by
    rw [List.length_append, List.length_cons]
    omega
  have hdrop : (front ++ x :: l).drop (front.length + 1) = l := List.drop_length_add_append 1
  have hfind : l.findIdx? x.samePosition = none := by
    rw [List.findIdx?_eq_none_iff]
    exact fun y hy => Bool.eq_false_iff.mpr (List.find?_eq_none.mp h y hy)
  conv_lhs => rw [addFrom, dif_pos hlt, getElem?_length]
  dsimp only
  rw [hdrop, hfind]

theorem addFrom_of_find_eq_some {front : SparseMatrix} {x y : Mat} {l : SparseMatrix}
    (h : l.find? x.samePosition = some y) :
  addFrom front.length (front ++ x :: l)
    = if x.data + y.data = 0 then addFrom front.length (front ++ l.eraseP x.samePosition)
      else addFrom (front.length + 1)
        (front ++ { x with data := x.data + y.data } :: l.eraseP x.samePosition)
  := by
  obtain ⟨hy, l₁, l₂, rfl, hl₁⟩ := List.find?_eq_some_iff_append.mp h
  have hl₁' : ∀ z ∈ l₁, ¬ x.samePosition z := fun z hz => by simpa using hl₁ z hz
  have hlt : front.length < (front ++ x :: (l₁ ++ y :: l₂)).length := by
    rw [List.length_append, List.length_cons]
    omega
  have hdrop : (front ++ x :: (l₁ ++ y :: l₂)).drop (front.length + 1) = l₁ ++ y :: l₂ :=
    List.drop_length_add_append 1
  have hfind : (l₁ ++ y :: l₂).findIdx? x.samePosition = some l₁.length := by
    rw [List.findIdx?_append, List.findIdx?_eq_none_iff.mpr fun z hz =>
      Bool.eq_false_iff.mpr (hl₁' z hz), List.findIdx?_cons, hy]
    simp
  have herase : (l₁ ++ y :: l₂).eraseP x.samePosition = l₁ ++ l₂ := by
    rw [List.eraseP_append_right _ hl₁', List.eraseP_cons_of_pos hy]
  rw [addFrom, dif_pos hlt, getElem?_length]
  dsimp only
  rw [hdrop, hfind]
  dsimp only
  rw [getElem?_behind]
  dsimp only
  rw [set_length, eraseIdx_behind, eraseIdx_length, herase]

theorem addFrom_eq (front rest : SparseMatrix) :
  addFrom front.length (front ++ rest) = .ok (front ++ merged rest)
  := by
  have hlist : ∀ (front : SparseMatrix) (z : Mat) (l : SparseMatrix),
      front ++ z :: l = front ++ [z] ++ l :=
    fun front z l => by rw [List.append_assoc, List.singleton_append]
  have hlength : ∀ (front : SparseMatrix) (z : Mat), front.length + 1 = (front ++ [z]).length :=
    fun front z => by rw [List.length_append, List.length_singleton]
  induction rest using merged.induct generalizing front with
  | case1 =>
      rw [addFrom, dif_neg (by rw [List.append_nil]; omega), merged]
  | case2 x l hfind ih =>
      rw [addFrom_of_find_eq_none hfind, merged_of_find_eq_none hfind, hlist, hlength front x, ih,
        ← hlist]
  | case3 x l y hfind hsum ih =>
      rw [addFrom_of_find_eq_some hfind, if_pos hsum, merged_of_find_eq_some hfind, if_pos hsum, ih]
  | case4 x l y hfind hsum ih =>
      rw [addFrom_of_find_eq_some hfind, if_neg hsum, merged_of_find_eq_some hfind, if_neg hsum,
        hlist, hlength front { x with data := x.data + y.data }, ih, ← hlist]

theorem add_eq (alldata : SparseMatrix) : add alldata = .ok (merged alldata) :=
  addFrom_eq [] alldata

/-- The element that is found, and the others. -/
theorem perm_of_find {x y : Mat} {l : SparseMatrix} (h : l.find? x.samePosition = some y) :
  y.position = x.position ∧ l.Perm (y :: l.eraseP x.samePosition)
  := by
  obtain ⟨hy, l₁, l₂, rfl, hl₁⟩ := List.find?_eq_some_iff_append.mp h
  have hl₁' : ∀ z ∈ l₁, ¬ x.samePosition z := fun z hz => by simpa using hl₁ z hz
  rw [List.eraseP_append_right _ hl₁', List.eraseP_cons_of_pos hy]
  exact ⟨Mat.samePosition_iff.mp hy, List.perm_middle⟩

/-- The total at a position. -/
abbrev valueAt (a : SparseMatrix) (p : ℤ ×ₗ ℤ) : ℚ := Totals.total Mat.position Mat.data a p

theorem valueAt_cons {m : Mat} {l : SparseMatrix} {p : ℤ ×ₗ ℤ} :
  valueAt (m :: l) p = (if m.position = p then m.data else 0) + valueAt l p
  := Totals.total_cons

theorem valueAt_eq_of_perm {a b : SparseMatrix} (h : a.Perm b) (p : ℤ ×ₗ ℤ) :
  valueAt a p = valueAt b p
  := Totals.total_perm h

/-- Adding up keeps every total. -/
theorem valueAt_merged (alldata : SparseMatrix) (p : ℤ ×ₗ ℤ) :
  valueAt (merged alldata) p = valueAt alldata p
  := by
  induction alldata using merged.induct with
  | case1 => rw [merged]
  | case2 x l hfind ih =>
      rw [merged_of_find_eq_none hfind, valueAt_cons, ih, ← valueAt_cons]
  | case3 x l y hfind hsum ih =>
      obtain ⟨hposition, hperm⟩ := perm_of_find hfind
      rw [merged_of_find_eq_some hfind, if_pos hsum, ih, valueAt_cons, valueAt_eq_of_perm hperm,
        valueAt_cons, hposition]
      split
      · rw [← add_assoc, hsum, zero_add]
      · rw [zero_add, zero_add]
  | case4 x l y hfind hsum ih =>
      obtain ⟨hposition, hperm⟩ := perm_of_find hfind
      have hsame : Mat.position { x with data := x.data + y.data } = x.position := rfl
      rw [merged_of_find_eq_some hfind, if_neg hsum, valueAt_cons, ih, valueAt_cons,
        valueAt_eq_of_perm hperm, valueAt_cons, hposition, hsame]
      dsimp only
      split
      · rw [add_assoc]
      · rw [zero_add, zero_add]

/-! ### Two lists of different positions -/

/-- The elements that are not cancelled. -/
def kept (a b : SparseMatrix) : SparseMatrix :=
  a.filter fun x => x.data + valueAt b x.position ≠ 0

/-- The elements at positions that the other matrix does not have. -/
def fresh (a b : SparseMatrix) : SparseMatrix :=
  b.filter fun y => ∀ x ∈ a, x.position ≠ y.position

def withSum (b : SparseMatrix) (x : Mat) : Mat :=
  { x with data := x.data + valueAt b x.position }

theorem find_eq_none {x : Mat} {l : SparseMatrix} (h : ∀ y ∈ l, x.position ≠ y.position) :
  l.find? x.samePosition = none
  := by
  rw [List.find?_eq_none]
  exact fun y hy hsame => h y hy (Mat.samePosition_iff.mp hsame).symm

theorem merged_eq_self {l : SparseMatrix} (h : l.Pairwise fun x y => x.position ≠ y.position) :
  merged l = l
  := by
  induction l with
  | nil => rw [merged]
  | cons x l ih =>
      obtain ⟨hx, hl⟩ := List.pairwise_cons.mp h
      rw [merged_of_find_eq_none (find_eq_none hx), ih hl]

/-- What `add` makes of two lists of different positions each. -/
theorem merged_append {a b : SparseMatrix} (ha : a.Pairwise fun x y => x.position ≠ y.position)
    (hb : b.Pairwise fun x y => x.position ≠ y.position) (hne : ∀ x ∈ a, x.data ≠ 0) :
  merged (a ++ b) = (kept a b).map (withSum b) ++ fresh a b
  := by
  induction a generalizing b with
  | nil =>
      have hfresh : fresh [] b = b :=
        List.filter_eq_self.mpr fun y _ => decide_eq_true (fun x hx => absurd hx List.not_mem_nil)
      rw [List.nil_append, merged_eq_self hb, hfresh]
      rfl
  | cons x a ih =>
      obtain ⟨hx, ha⟩ := List.pairwise_cons.mp ha
      obtain ⟨hxne, hne⟩ := List.forall_mem_cons.mp hne
      have hfind : (a ++ b).find? x.samePosition = b.find? x.samePosition := by
        rw [List.find?_append, find_eq_none hx]
        rfl
      rw [List.cons_append]
      cases hcase : b.find? x.samePosition with
      | none =>
          have hxb : ∀ y ∈ b, x.position ≠ y.position := fun y hy heq =>
            List.find?_eq_none.mp hcase y hy (Mat.samePosition_iff.mpr heq.symm)
          have hzero : valueAt b x.position = 0 := Totals.total_eq_zero fun y hy => (hxb y hy).symm
          have hkept : kept (x :: a) b = x :: kept a b :=
            List.filter_cons_of_pos (by simpa [hzero] using hxne)
          have hfresh : fresh (x :: a) b = fresh a b := by
            refine List.filter_congr fun y hy => ?_
            simp [hxb y hy]
          have hsum : withSum b x = x := by rw [withSum, hzero, add_zero]
          rw [merged_of_find_eq_none (hfind.trans hcase), ih ha hb hne, hkept, hfresh,
            List.map_cons,
            hsum, List.cons_append]
      | some y =>
          obtain ⟨hy, l₁, l₂, rfl, hl₁⟩ := List.find?_eq_some_iff_append.mp hcase
          have hposition := Mat.samePosition_iff.mp hy
          have hl₁' : ∀ z ∈ l₁, ¬ x.samePosition z := fun z hz => by simpa using hl₁ z hz
          have hxa : ∀ z ∈ a, ¬ x.samePosition z := fun z hz hsame =>
            hx z hz (Mat.samePosition_iff.mp hsame).symm
          have herase : (a ++ (l₁ ++ y :: l₂)).eraseP x.samePosition = a ++ (l₁ ++ l₂) := by
            rw [List.eraseP_append_right _ hxa, List.eraseP_append_right _ hl₁',
              List.eraseP_cons_of_pos hy]
          have hb' : (y :: (l₁ ++ l₂)).Pairwise fun x y => x.position ≠ y.position :=
            List.perm_middle.pairwise hb fun h => h.symm
          obtain ⟨hyb, hb'⟩ := List.pairwise_cons.mp hb'
          have hvalue : ∀ p, valueAt (l₁ ++ y :: l₂) p
              = (if x.position = p then y.data else 0) + valueAt (l₁ ++ l₂) p := by
            intro p
            rw [valueAt_eq_of_perm List.perm_middle, valueAt_cons, hposition]
          have hzero : valueAt (l₁ ++ l₂) x.position = 0 :=
            Totals.total_eq_zero fun z hz => hposition ▸ (hyb z hz).symm
          have hself : valueAt (l₁ ++ y :: l₂) x.position = y.data := by
            rw [hvalue, if_pos rfl, hzero, add_zero]
          have hother : ∀ z ∈ a, valueAt (l₁ ++ y :: l₂) z.position
              = valueAt (l₁ ++ l₂) z.position := by
            intro z hz
            rw [hvalue, if_neg (hx z hz), zero_add]
          have hkept : kept a (l₁ ++ y :: l₂) = kept a (l₁ ++ l₂) :=
            List.filter_congr fun z hz => by rw [hother z hz]
          have hsum : (kept a (l₁ ++ l₂)).map (withSum (l₁ ++ y :: l₂))
              = (kept a (l₁ ++ l₂)).map (withSum (l₁ ++ l₂)) :=
            List.map_congr_left fun z hz => by
              rw [withSum, withSum, hother z (List.mem_of_mem_filter hz)]
          have hfresh : fresh (x :: a) (l₁ ++ y :: l₂) = fresh a (l₁ ++ l₂) := by
            have hcongr : fresh (x :: a) (l₁ ++ l₂) = fresh a (l₁ ++ l₂) := by
              refine List.filter_congr fun z hz => ?_
              simp [(hposition ▸ hyb z hz : x.position ≠ z.position)]
            rw [← hcongr, fresh, fresh, List.filter_append, List.filter_append,
              List.filter_cons_of_neg (by simp [hposition])]
          rw [merged_of_find_eq_some (hfind.trans hcase), herase, ih ha hb' hne, ← hfresh, ← hsum,
            ← hkept, ← hself]
          by_cases hsum₀ : x.data + valueAt (l₁ ++ y :: l₂) x.position = 0
          · have hdrop : kept (x :: a) (l₁ ++ y :: l₂) = kept a (l₁ ++ y :: l₂) :=
              List.filter_cons_of_neg (by simpa using hsum₀)
            rw [if_pos hsum₀, hdrop]
          · have hkeep : kept (x :: a) (l₁ ++ y :: l₂) = x :: kept a (l₁ ++ y :: l₂) :=
              List.filter_cons_of_pos (by simpa using hsum₀)
            rw [if_neg hsum₀, hkeep]
            rfl

end SparseMatrix
