import Homeworks.Sorting.Exchange
import Homeworks.Sparse.Totals
import Mathlib.Data.Int.Notation

/-!
# The loops that sort

`sort`, `sort_1` and `sort_2` are the same two loops with different comparisons, and they sort by
exchange.  A vector has fewer than `2 ^ 31` elements, so an `int` counts them.
-/

namespace Sparse

/-- Behaviour that is not defined: an element that is read past the end of a vector, a counter
that overflows. -/
inductive Fault where
  | pastEnd
  | overflow
  deriving DecidableEq, Repr

variable {α : Type*} (gt : α → α → Bool)

/-- The body of the inner loop, with `Swap`. -/
def swapIf (i : ℕ) (alldata : List α) (j : ℕ) : Except Fault (List α) :=
  match alldata[i]?, alldata[j]? with
  | some x, some y => .ok (if gt x y then (alldata.set i y).set j x else alldata)
  | _, _ => .error .pastEnd

def innerLoop (alldata : List α) (i : ℕ) : Except Fault (List α) :=
  (List.range' (i + 1) (alldata.length - (i + 1))).foldlM (swapIf gt i) alldata

/-- The loops.  A size has no sign, so `size () - 1` is `2 ^ 64 - 1` for an empty vector, and the
counter overflows on the way there. -/
def sortLoops (alldata : List α) : Except Fault (List α) :=
  if alldata.isEmpty then .error .overflow
  else (List.range' 0 (alldata.length - 1)).foldlM (innerLoop gt) alldata

/-- The loop of the subtractions: what is transferred is put at the end, and then the element at
the place of the counter is negated. -/
def transferNegated (negate : α → α) (alldata l : List α) : List α :=
  l.zipIdx.foldl (fun alldata p => (alldata ++ [p.1]).modify p.2 negate) alldata

/-! ### Sorting by exchange -/

variable {gt} {x y : α} {front middle rest : List α}

theorem getElem?_length : (front ++ x :: rest)[front.length]? = some x
  := by
  rw [List.getElem?_append_right le_rfl, Nat.sub_self, List.getElem?_cons_zero]

theorem set_length : (front ++ x :: rest).set front.length y = front ++ y :: rest
  := by
  rw [List.set_append_right _ _ le_rfl, Nat.sub_self, List.set_cons_zero]

theorem eraseIdx_length : (front ++ x :: rest).eraseIdx front.length = front ++ rest
  := by
  rw [List.eraseIdx_append_of_length_le le_rfl, Nat.sub_self, List.eraseIdx_cons_zero]

/-- A place behind another one. -/
theorem place_behind (front middle rest : List α) (x : α) :
  front ++ x :: (middle ++ rest) = (front ++ x :: middle) ++ rest
    ∧ front.length + 1 + middle.length = (front ++ x :: middle).length
  := by
  constructor
  · rw [List.append_assoc, List.cons_append]
  · rw [List.length_append, List.length_cons]
    omega

theorem getElem?_behind :
  (front ++ x :: (middle ++ y :: rest))[front.length + 1 + middle.length]? = some y
  := by
  obtain ⟨hlist, hlength⟩ := place_behind front middle (y :: rest) x
  rw [hlist, hlength, getElem?_length]

theorem set_behind {z : α} :
  (front ++ x :: (middle ++ y :: rest)).set (front.length + 1 + middle.length) z
    = front ++ x :: (middle ++ z :: rest)
  := by
  obtain ⟨hlist, hlength⟩ := place_behind front middle (y :: rest) x
  rw [hlist, hlength, set_length, (place_behind ..).1]

theorem eraseIdx_behind :
  (front ++ x :: (middle ++ y :: rest)).eraseIdx (front.length + 1 + middle.length)
    = front ++ x :: (middle ++ rest)
  := by
  obtain ⟨hlist, hlength⟩ := place_behind front middle (y :: rest) x
  rw [hlist, hlength, eraseIdx_length, (place_behind ..).1]

theorem swapIf_eq :
  swapIf gt front.length (front ++ x :: (middle ++ y :: rest)) (front.length + 1 + middle.length)
    = .ok (if gt x y then front ++ y :: (middle ++ x :: rest)
        else front ++ x :: (middle ++ y :: rest))
  := by
  rw [swapIf, getElem?_length, getElem?_behind]
  dsimp only
  rw [set_length, set_behind]

/-- The inner loop is a pass. -/
theorem innerLoop_eq :
  innerLoop gt (front ++ x :: rest) front.length
    = .ok (front ++ (Exchange.pass gt x rest).1 :: (Exchange.pass gt x rest).2)
  := by
  have hloop : ∀ (rest : List α) (middle : List α) (x : α),
      (List.range' (front.length + 1 + middle.length) rest.length).foldlM (swapIf gt front.length)
        (front ++ x :: (middle ++ rest))
      = .ok (front ++ (Exchange.pass gt x rest).1 :: (middle ++ (Exchange.pass gt x rest).2)) := by
    intro rest
    induction rest with
    | nil =>
        intro middle x
        rfl
    | cons y rest ih =>
        intro middle x
        have hnext : ∀ z : α,
            front.length + 1 + middle.length + 1 = front.length + 1 + (middle ++ [z]).length :=
          fun z => by rw [List.length_append, List.length_singleton, Nat.add_assoc]
        have hlist : ∀ x z : α, front ++ x :: (middle ++ z :: rest)
            = front ++ x :: (middle ++ [z] ++ rest) :=
          fun x z => by rw [List.append_assoc, List.singleton_append]
        rw [List.length_cons, List.range'_succ, List.foldlM_cons, swapIf_eq, Exchange.pass,
          hnext x]
        change List.foldlM _ (ite _ _ _) _ = _
        split
        · rw [hlist, ih, List.append_assoc, List.singleton_append]
        · rw [hlist, ← hnext x, hnext y, ih, List.append_assoc, List.singleton_append]
  have hlength : (front ++ x :: rest).length - (front.length + 1) = rest.length := by
    rw [List.length_append, List.length_cons]
    omega
  rw [innerLoop, hlength]
  exact hloop rest [] x

theorem sortLoops_eq {alldata : List α} (h : alldata ≠ []) :
  sortLoops gt alldata = .ok (Exchange.sort gt alldata)
  := by
  have hloop : ∀ (rest front : List α),
      (List.range' front.length (rest.length - 1)).foldlM (innerLoop gt) (front ++ rest)
      = .ok (front ++ Exchange.sort gt rest) := by
    intro rest
    induction rest using Exchange.sort.induct gt with
    | case1 =>
        intro front
        rw [Exchange.sort]
        rfl
    | case2 x rest ih =>
        intro front
        rcases rest with - | ⟨y, rest⟩
        · rw [Exchange.sort, Exchange.pass, Exchange.sort]
          rfl
        · have hlength : (y :: rest).length = (Exchange.pass gt x (y :: rest)).2.length :=
            Exchange.length_pass.symm
          have hnext : ∀ z : α, front.length + 1 = (front ++ [z]).length :=
            fun z => by rw [List.length_append, List.length_singleton]
          rw [List.length_cons, Nat.add_sub_cancel, List.length_cons, List.range'_succ,
            List.foldlM_cons, innerLoop_eq, Exchange.sort]
          change List.foldlM _ _ _ = _
          have hrest := ih (front ++ [(Exchange.pass gt x (y :: rest)).1])
          rw [← hnext, ← hlength, List.append_assoc, List.singleton_append, List.append_assoc,
            List.singleton_append] at hrest
          exact hrest
  rw [sortLoops, if_neg (by rwa [List.isEmpty_iff])]
  exact hloop alldata []

/-! ### Transferring with a sign -/

theorem modify_length (f : α → α) :
  (front ++ x :: rest).modify front.length f = front ++ f x :: rest
  := by
  induction front with
  | nil => rfl
  | cons y front ih => exact congrArg (y :: ·) ih

/-- As many elements are negated as are transferred, from the front on. -/
theorem transferNegated_eq (negate : α → α) (alldata l : List α) :
  transferNegated negate alldata l
    = ((alldata ++ l).take l.length).map negate ++ (alldata ++ l).drop l.length
  := by
  induction l using List.reverseRecOn with
  | nil => simp [transferNegated]
  | append_singleton l x ih =>
      rw [transferNegated] at ih
      rw [transferNegated, List.zipIdx_append, List.foldl_append, ih, Nat.zero_add,
        List.zipIdx_singleton, List.foldl_cons, List.foldl_nil]
      dsimp only
      have hlength : ((alldata ++ l).take l.length).length = l.length := by
        rw [List.length_take, List.length_append]
        omega
      obtain ⟨y, rest, hrest⟩ : ∃ y rest, (alldata ++ l).drop l.length ++ [x] = y :: rest :=
        List.exists_cons_of_ne_nil (by simp)
      have hlist : alldata ++ (l ++ [x]) = (alldata ++ l).take l.length ++ y :: rest := by
        rw [← hrest, ← List.append_assoc, ← List.append_assoc, List.take_append_drop]
      rw [hlist, List.length_append, List.length_singleton]
      rw [List.append_assoc _ _ [x], hrest]
      generalize (alldata ++ l).take l.length = front at hlength ⊢
      have hmap : l.length = (front.map negate).length := by rw [List.length_map, hlength]
      rw [hmap, modify_length, List.length_map, List.take_length_add_append,
        List.drop_length_add_append, List.map_append]
      simp

/-- Nothing is there before. -/
theorem transferNegated_nil (negate : α → α) (l : List α) :
  transferNegated negate [] l = l.map negate
  := by
  rw [transferNegated_eq, List.nil_append, List.take_length, List.drop_length, List.append_nil]

section

open Totals

variable {κ K : Type*} [LinearOrder κ] [AddCommGroup K] {key : α → κ} {value : α → K}
  {negate : α → α} {l l' : List α}

theorem total_negated (h : Signed key value negate) (l : List α) (k : κ) :
  total key value (transferNegated negate [] l) k = -total key value l k
  := by
  rw [transferNegated_nil, h.total_map]

theorem canonical_negated (h : Signed key value negate) (hl : Canonical key value l) :
  Canonical key value (transferNegated negate [] l)
  := by
  rw [transferNegated_nil]
  exact hl.map h.key_negate fun x hx => (h.value_negate x).trans_ne (neg_ne_zero.mpr hx)

theorem eq_of_negated_eq (h : Signed key value negate) (hl : Canonical key value l)
    (hl' : Canonical key value l')
    (heq : transferNegated negate [] l = transferNegated negate [] l') :
  l = l'
  := by
  refine hl.ext hl' h.ext fun k => ?_
  rw [← neg_inj, ← total_negated h, ← total_negated h, heq]

end

end Sparse
