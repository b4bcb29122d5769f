import Homeworks.Sparse.Loops
import Homeworks.Sparse.Totals
import Mathlib.Algebra.Order.Ring.Rat

/-!
# Sparse vectors

`SparseVector` over exact numbers, and its sums.
-/

open Sparse

/-- `vec`. -/
structure Vec where
  index : ℤ
  data : ℚ
  deriving DecidableEq, Repr

/-- The elements of `alldata`. -/
abbrev SparseVector := List Vec

def Vec.negate (v : Vec) : Vec := { v with data := v.data * -1 }

namespace SparseVector

def sort (alldata : SparseVector) : Except Fault SparseVector :=
  sortLoops (fun a b => a.index > b.index) alldata

/-- The loop of `add` from an index on.  For an empty vector the bound is `2 ^ 64 - 1`, so that an
element is read that is not there. -/
def addFrom (i : ℕ) (alldata : SparseVector) : Except Fault SparseVector :=
  if _h : i + 1 < alldata.length then
    match alldata[i]?, alldata[i + 1]? with
    | some x, some y =>
        if x.index = y.index then
          let sum : Vec := { x with data := x.data + y.data }
          let alldata' := (alldata.set i sum).eraseIdx (i + 1)
          if sum.data = 0 then addFrom i (alldata'.eraseIdx i) else addFrom (i + 1) alldata'
        else addFrom (i + 1) alldata
    | _, _ => .error .pastEnd
  else if alldata.isEmpty then .error .pastEnd
  else .ok alldata
termination_by alldata.length - i
decreasing_by
  · simp only [List.length_eraseIdx, List.length_set]
    split_ifs
    all_goals omega
  · simp only [List.length_eraseIdx, List.length_set]
    split_ifs
    omega
  · omega

def add (alldata : SparseVector) : Except Fault SparseVector := addFrom 0 alldata

/-- `operator+`. -/
def plus (a b : SparseVector) : Except Fault SparseVector := do
  let c ← sort (a ++ b)
  add c

/-- `operator-` of two vectors. -/
def minus (a b : SparseVector) : Except Fault SparseVector := do
  let c ← sort (transferNegated Vec.negate a b)
  add c

/-- `operator-` of one vector. -/
def negate (a : SparseVector) : SparseVector := transferNegated Vec.negate [] a

/-- The value at an index. -/
abbrev value (a : SparseVector) (i : ℤ) : ℚ := Totals.total Vec.index Vec.data a i

/-- The indices increase strictly and no data is zero. -/
abbrev Canonical (a : SparseVector) : Prop := Totals.Canonical Vec.index Vec.data a

/-! ### Adding up neighbours -/

/-- What `add` makes of the elements that it has not passed. -/
def merged : SparseVector → SparseVector
  | [] => []
  | [x] => [x]
  | x :: y :: l =>
      if x.index = y.index then
        if x.data + y.data = 0 then merged l else { x with data := x.data + y.data } :: merged l
      else x :: merged (y :: l)

/-- What the loop does with two neighbours. -/
theorem addFrom_cons (front : SparseVector) (x y : Vec) (l : SparseVector) :
  addFrom front.length (front ++ x :: y :: l)
    = if x.index = y.index then
        if x.data + y.data = 0 then addFrom front.length (front ++ l)
        else addFrom (front.length + 1) (front ++ { x with data := x.data + y.data } :: l)
      else addFrom (front.length + 1) (front ++ x :: y :: l)
  := by
  have hlt : front.length + 1 < (front ++ x :: y :: l).length := by
    rw [List.length_append, List.length_cons, List.length_cons]
    omega
  have hx : (front ++ x :: y :: l)[front.length]? = some x := getElem?_length
  have hy : (front ++ x :: y :: l)[front.length + 1]? = some y :=
    @getElem?_behind _ x y front [] l
  have hset : ∀ z : Vec, ((front ++ x :: y :: l).set front.length z).eraseIdx (front.length + 1)
      = front ++ z :: l := by
    intro z
    rw [set_length]
    exact @eraseIdx_behind _ z y front [] l
  rw [addFrom, dif_pos hlt, hx, hy]
  dsimp only
  rw [hset, eraseIdx_length]

theorem addFrom_eq (front rest : SparseVector) :
  addFrom front.length (front ++ rest)
    = if (front ++ merged rest).isEmpty then .error .pastEnd else .ok (front ++ merged rest)
  := by
  have hlist : ∀ (front : SparseVector) (z : Vec) (l : SparseVector),
      front ++ z :: l = front ++ [z] ++ l :=
    fun front z l => by rw [List.append_assoc, List.singleton_append]
  have hlength : ∀ (front : SparseVector) (z : Vec), front.length + 1 = (front ++ [z]).length :=
    fun front z => by rw [List.length_append, List.length_singleton]
  induction rest using merged.induct generalizing front with
  | case1 =>
      rw [addFrom, dif_neg (by rw [List.append_nil]; omega), merged]
  | case2 x =>
      rw [addFrom, dif_neg (by rw [List.length_append, List.length_singleton]; omega), merged]
  | case3 x y l hindex hsum ih =>
      rw [addFrom_cons, if_pos hindex, if_pos hsum, ih, merged, if_pos hindex, if_pos hsum]
  | case4 x y l hindex hsum ih =>
      rw [addFrom_cons, if_pos hindex, if_neg hsum, merged, if_pos hindex, if_neg hsum, hlist,
        hlength front { x with data := x.data + y.data }, ih, ← hlist]
  | case5 x y l hindex ih =>
      rw [addFrom_cons, if_neg hindex, merged, if_neg hindex, hlist, hlength front x, ih, ← hlist]

/-- `add` reads past the end if nothing is left, else it adds up neighbours. -/
theorem add_eq (alldata : SparseVector) :
  add alldata = if (merged alldata).isEmpty then .error .pastEnd else .ok (merged alldata)
  := addFrom_eq [] alldata

theorem value_cons {v : Vec} {l : SparseVector} {i : ℤ} :
  value (v :: l) i = (if v.index = i then v.data else 0) + value l i
  := Totals.total_cons

/-- Adding up neighbours keeps every total. -/
theorem value_merged (alldata : SparseVector) (i : ℤ) :
  value (merged alldata) i = value alldata i
  := by
  induction alldata using merged.induct with
  | case1 => rw [merged]
  | case2 x => rw [merged]
  | case3 x y l hindex hsum ih =>
      rw [merged, if_pos hindex, if_pos hsum, ih, value_cons, value_cons, hindex]
      split
      · rw [← add_assoc, hsum, zero_add]
      · rw [zero_add, zero_add]
  | case4 x y l hindex hsum ih =>
      rw [merged, if_pos hindex, if_neg hsum, value_cons, ih, value_cons, value_cons, hindex]
      dsimp only
      split
      · rw [add_assoc]
      · rw [zero_add, zero_add]
  | case5 x y l hindex ih =>
      rw [merged, if_neg hindex, value_cons, ih, ← value_cons]

theorem exists_of_mem_merged {alldata : SparseVector} :
  ∀ v ∈ merged alldata, ∃ w ∈ alldata, w.index = v.index
  := by
  have hcons : ∀ {x : Vec} {l l' : SparseVector}, (∀ v ∈ l, ∃ w ∈ l', w.index = v.index) →
      ∀ v ∈ l, ∃ w ∈ x :: l', w.index = v.index := by
    intro x l l' h v hv
    obtain ⟨w, hw, hindex⟩ := h v hv
    exact ⟨w, List.mem_cons_of_mem x hw, hindex⟩
  induction alldata using merged.induct with
  | case1 =>
      rw [merged]
      exact fun v hv => ⟨v, hv, rfl⟩
  | case2 x =>
      rw [merged]
      exact fun v hv => ⟨v, hv, rfl⟩
  | case3 x y l hindex hsum ih =>
      rw [merged, if_pos hindex, if_pos hsum]
      exact hcons (hcons ih)
  | case4 x y l hindex hsum ih =>
      rw [merged, if_pos hindex, if_neg hsum]
      exact List.forall_mem_cons.mpr ⟨⟨x, List.mem_cons_self, rfl⟩, hcons (hcons ih)⟩
  | case5 x y l hindex ih =>
      rw [merged, if_neg hindex]
      exact List.forall_mem_cons.mpr ⟨⟨x, List.mem_cons_self, rfl⟩, hcons ih⟩

/-- Behind two neighbours with the same index the indices are greater. -/
theorem lt_of_twice {x y : Vec} {l : SparseVector}
    (hsorted : (x :: y :: l).Pairwise fun x y => x.index ≤ y.index)
    (htwice : (x :: y :: l).countP (fun v => v.index = x.index) ≤ 2) (h : x.index = y.index) :
  ∀ w ∈ l, x.index < w.index
  := by
  intro w hw
  have hle := (List.pairwise_cons.mp hsorted).1 w (List.mem_cons_of_mem _ hw)
  refine lt_of_le_of_ne hle fun heq => ?_
  have hpos : 0 < l.countP fun v => v.index = x.index :=
    List.countP_pos_iff.mpr ⟨w, hw, decide_eq_true heq.symm⟩
  rw [List.countP_cons_of_pos (by simp), List.countP_cons_of_pos (by simpa using h.symm)] at htwice
  omega

/-- Where every index occurs twice at most, what is left has increasing indices. -/
theorem canonical_merged {alldata : SparseVector} (hne : ∀ v ∈ alldata, v.data ≠ 0)
    (hsorted : alldata.Pairwise fun x y => x.index ≤ y.index)
    (htwice : ∀ i : ℤ, alldata.countP (fun v => v.index = i) ≤ 2) :
  Canonical (merged alldata)
  := by
  have hcons : ∀ {x : Vec} {l : SparseVector}, x.data ≠ 0 → (∀ w ∈ l, x.index < w.index) →
      Canonical (merged l) → Canonical (x :: merged l) := by
    intro x l hx hlt h
    refine ⟨List.pairwise_cons.mpr ⟨fun v hv => ?_, h.increasing⟩,
      List.forall_mem_cons.mpr ⟨hx, h.ne_zero⟩⟩
    obtain ⟨w, hw, hindex⟩ := exists_of_mem_merged v hv
    exact hindex ▸ hlt w hw
  have hcount : ∀ {p : Vec → Bool} {x : Vec} {l : SparseVector} {n : ℕ}, n ≤ l.countP p →
      n ≤ (x :: l).countP p := fun h =>
    h.trans ((List.sublist_cons_self ..).countP_le)
  induction alldata using merged.induct with
  | case1 =>
      rw [merged]
      exact Totals.Canonical.nil
  | case2 x =>
      rw [merged]
      exact ⟨List.pairwise_singleton _ x, hne⟩
  | case3 x y l hindex hsum ih =>
      rw [merged, if_pos hindex, if_pos hsum]
      exact ih (List.forall_mem_cons.mp (List.forall_mem_cons.mp hne).2).2
        (List.pairwise_cons.mp (List.pairwise_cons.mp hsorted).2).2
        fun i => (hcount (hcount le_rfl)).trans (htwice i)
  | case4 x y l hindex hsum ih =>
      rw [merged, if_pos hindex, if_neg hsum]
      have hlt := lt_of_twice hsorted (htwice x.index) hindex
      refine hcons hsum hlt ?_
      exact ih (List.forall_mem_cons.mp (List.forall_mem_cons.mp hne).2).2
        (List.pairwise_cons.mp (List.pairwise_cons.mp hsorted).2).2
        fun i => (hcount (hcount le_rfl)).trans (htwice i)
  | case5 x y l hindex ih =>
      rw [merged, if_neg hindex]
      obtain ⟨hx, hsorted⟩ := List.pairwise_cons.mp hsorted
      obtain ⟨hne₁, hne⟩ := List.forall_mem_cons.mp hne
      have hlt : ∀ w ∈ y :: l, x.index < w.index := by
        have hxy := lt_of_le_of_ne (hx y List.mem_cons_self) hindex
        exact List.forall_mem_cons.mpr
          ⟨hxy, fun w hw => hxy.trans_le ((List.pairwise_cons.mp hsorted).1 w hw)⟩
      exact hcons hne₁ hlt (ih hne hsorted fun i => (hcount le_rfl).trans (htwice i))

/-! ### Sums -/

theorem sort_eq {alldata : SparseVector} (h : alldata ≠ []) :
  sort alldata = .ok (Exchange.sort (Exchange.byKey Vec.index) alldata)
  := sortLoops_eq h

theorem value_eq_of_perm {a b : SparseVector} (h : a.Perm b) (i : ℤ) : value a i = value b i :=
  Totals.total_perm h

/-- Sorting and adding up neighbours gives a vector with the same totals, unless all are zero. -/
theorem sort_add {l : SparseVector} (hne : ∀ v ∈ l, v.data ≠ 0)
    (htwice : ∀ i : ℤ, l.countP (fun v => v.index = i) ≤ 2) :
  (∀ i, value l i = 0) ∧ (∃ e, sort l >>= add = .error e)
  ∨ (∃ i, value l i ≠ 0)
    ∧ ∃ c, sort l >>= add = .ok c ∧ Canonical c ∧ ∀ i, value c i = value l i
  := by
  by_cases hnil : l = []
  · subst hnil
    exact .inl ⟨fun _ => rfl, _, rfl⟩
  · have hperm : (Exchange.sort (Exchange.byKey Vec.index) l).Perm l := Exchange.sort_perm
    rw [sort_eq hnil]
    have hcanonical : Canonical (merged (Exchange.sort (Exchange.byKey Vec.index) l)) :=
      canonical_merged (fun v hv => hne v (hperm.mem_iff.mp hv)) Exchange.sort_pairwise
        fun i => (hperm.countP_eq _).trans_le (htwice i)
    have hvalue : ∀ i, value (merged (Exchange.sort (Exchange.byKey Vec.index) l)) i = value l i :=
      fun i => (value_merged _ i).trans (value_eq_of_perm hperm i)
    have hadd := add_eq (Exchange.sort (Exchange.byKey Vec.index) l)
    generalize Exchange.sort (Exchange.byKey Vec.index) l = sorted at *
    change _ ∧ (∃ e, add sorted = .error e) ∨ _ ∧ ∃ c, add sorted = .ok c ∧ _
    rw [hadd]
    by_cases hempty : merged sorted = []
    · rw [hempty]
      refine .inl ⟨fun i => ?_, _, rfl⟩
      rw [← hvalue, hempty]
      rfl
    · rw [if_neg (by rwa [List.isEmpty_iff])]
      refine .inr ⟨?_, _, rfl, hcanonical, hvalue⟩
      by_contra hzero
      refine hempty (hcanonical.eq_nil_iff.mpr fun i => ?_)
      by_contra hi
      exact hzero ⟨i, fun h => hi ((hvalue i).trans h)⟩

theorem signed : Totals.Signed Vec.index Vec.data Vec.negate
  where
  ext := by
    rintro ⟨i, x⟩ ⟨j, y⟩ rfl rfl
    rfl
  key_negate _ := rfl
  value_negate v := mul_neg_one v.data

theorem value_negate (a : SparseVector) (i : ℤ) : value (negate a) i = -value a i :=
  total_negated signed a i

theorem countP_append_le_two {a b : SparseVector} (ha : Canonical a) (hb : Canonical b) (i : ℤ) :
  (a ++ b).countP (fun v => v.index = i) ≤ 2
  := by
  rw [List.countP_append]
  exact Nat.add_le_add (Totals.countP_le_one ha.ne i) (Totals.countP_le_one hb.ne i)

/-- Adding two vectors gives the vector of the sums, or the second is the first one negated. -/
theorem plus_cases {a b : SparseVector} (ha : Canonical a) (hb : Canonical b) :
  b = negate a ∧ (∃ e, plus a b = .error e)
  ∨ b ≠ negate a
    ∧ ∃ c, plus a b = .ok c ∧ Canonical c ∧ ∀ i, value c i = value a i + value b i
  := by
  have hvalue : ∀ i, value (a ++ b) i = value a i + value b i := fun i => Totals.total_append
  have hne : ∀ v ∈ a ++ b, v.data ≠ 0 := List.forall_mem_append.mpr ⟨ha.ne_zero, hb.ne_zero⟩
  rcases sort_add hne (countP_append_le_two ha hb) with
    ⟨hzero, herror⟩ | ⟨⟨i, hi⟩, c, hc, hcanonical, hsum⟩
  · refine .inl ⟨hb.ext (canonical_negated signed ha) signed.ext fun i => ?_, herror⟩
    change value b i = value (negate a) i
    rw [value_negate, ← add_eq_zero_iff_eq_neg', ← hvalue, hzero]
  · refine .inr ⟨?_, c, hc, hcanonical, fun i => (hsum i).trans (hvalue i)⟩
    rintro rfl
    rw [hvalue, value_negate, add_neg_cancel] at hi
    exact hi rfl

theorem plus_pointwise_iff {a b : SparseVector} (ha : Canonical a) (hb : Canonical b) :
  (∃ c, plus a b = .ok c ∧ Canonical c ∧ ∀ i, value c i = value a i + value b i) ↔ b ≠ negate a
  := by
  rcases plus_cases ha hb with ⟨heq, e, he⟩ | ⟨hne, hsum⟩
  · refine iff_of_false ?_ (not_not_intro heq)
    rintro ⟨c, hc, -⟩
    cases he.symm.trans hc
  · exact iff_of_true hsum hne

/-- Two vectors with one index in common. -/
theorem plus_common :
  ∃ c, plus [⟨1, 2⟩, ⟨4, 1⟩] [⟨4, 3⟩] = .ok c ∧ Canonical c
    ∧ ∀ i, value c i = value [⟨1, 2⟩, ⟨4, 1⟩] i + value [⟨4, 3⟩] i
  := (plus_pointwise_iff ⟨by decide, by decide⟩ ⟨by decide, by decide⟩).mpr (by decide)

/-- The sum of a vector and its negation is empty, and `add` reads past its end. -/
theorem plus_cancels :
  Canonical [⟨0, 1⟩] ∧ Canonical [⟨0, -1⟩] ∧ plus [⟨0, 1⟩] [⟨0, -1⟩] = .error .pastEnd
  := by
  refine ⟨⟨by decide, by decide⟩, ⟨by decide, by decide⟩, ?_⟩
  have hsort : sort [⟨0, 1⟩, ⟨0, -1⟩] = .ok [⟨0, 1⟩, ⟨0, -1⟩] := by decide
  have hmerged : merged [⟨0, 1⟩, ⟨0, -1⟩] = [] := by
    rw [merged, if_pos rfl, if_pos (add_neg_cancel 1), merged]
  rw [plus, List.cons_append, List.nil_append, hsort]
  change add _ = _
  rw [add_eq, hmerged]
  rfl

/-- So is that of two empty vectors, for which `sort` already overflows. -/
example : plus [] [] = .error .overflow := rfl

end SparseVector
