import Homeworks.TaskManager.MinHeap
import Mathlib.Algebra.Order.Group.Int
import Mathlib.Algebra.Ring.Int.Defs

/-!
# MinHeap as a priority queue

Calls of `add` and `poll`, for elements whose `compareTo` keeps the contract of `Comparable`.  The
indices of `poll` are of the type `int`, and an index that is too large wraps around.
-/

namespace TaskManager

namespace MinHeap

variable {T : Type*} {n : Nat} {compareTo : T → T → Int} {h : MinHeap T} {x : T}

theorem place_val (i : Fin n) :
  place n i.val = some i
  := by
  rw [place, if_pos (Int.natCast_nonneg _), dif_pos (by simp)]
  simp

theorem place_of_lt {k : Nat} (hk : k < n) :
  place n k = some ⟨k, hk⟩
  := place_val ⟨k, hk⟩

theorem cmpChildInt_eq (compareTo : T → T → Int) (heap : Vector T n) (left : Fin n)
    (hleft : left.val < 2147483647) :
  cmpChildInt compareTo heap left.val = some (cmpChild compareTo heap left)
  := by
  have hwrap : Java.wrap ((left.val : Int) + 1) = (left.val + 1 : Nat) := by
    apply Java.wrap_eq
    rw [Java.isInt_iff]
    omega
  rw [cmpChildInt, place_val, Option.bind_some, hwrap, cmpChild]
  by_cases hright : left.val + 1 < n
  · dsimp only
    rw [if_pos (by omega), place_of_lt hright, dif_pos hright, Option.map_some]
    rfl
  · dsimp only
    rw [if_neg (by omega), dif_neg hright]

/-- Among at most `2 ^ 30` elements no index is too large. -/
theorem sinkLoop_eq (compareTo : T → T → Int) (hn : n ≤ 1073741824) (fuel : Nat) (heap : Vector T n)
    (parent : Fin n)
    (hfuel : n - parent < fuel) :
  sinkLoop compareTo fuel heap parent.val = some (siftDown compareTo heap parent)
  := by
  induction fuel generalizing heap parent with
  | zero => exact absurd hfuel (Nat.not_lt_zero _)
  | succ fuel ih =>
      have hparent := parent.isLt
      have hleft : Java.wrap (2 * (parent.val : Int) + 1) = (2 * parent.val + 1 : Nat) := by
        apply Java.wrap_eq
        rw [Java.isInt_iff]
        omega
      rw [sinkLoop, siftDown, hleft]
      dsimp only
      by_cases hlt : 2 * parent.val + 1 < n
      · have hchild := cmpChildInt_eq compareTo heap ⟨2 * parent.val + 1, hlt⟩
          (by dsimp only; omega)
        have hle := le_cmpChild compareTo heap ⟨2 * parent.val + 1, hlt⟩
        dsimp only at hle hchild
        rw [if_neg (by omega), hchild, place_val, dif_pos hlt, Option.bind_some, Option.bind_some]
        split
        · rename_i hhigher
          exact (ih _ _ (by omega)).trans (congrArg some (if_pos hhigher).symm)
        · rename_i hhigher
          exact congrArg some (if_neg hhigher).symm
      · rw [if_pos (by omega), dif_neg hlt]

theorem pollInt_eq (hsize : h.size ≤ 1073741824) :
  h.pollInt compareTo = some (h.poll compareTo)
  := by
  obtain ⟨size, heap⟩ := h
  rcases size with _ | _ | n
  · rfl
  · rfl
  · have hloop := sinkLoop_eq compareTo (n := n + 1) (Nat.le_of_succ_le hsize) (n + 2)
      (heap.pop.set 0 heap.back (Nat.succ_pos n)) 0 (by simp)
    rw [pollInt]
    exact congrArg (Option.map _) hloop

/-! ### The contract of `Comparable` -/

/-- Only the sign of a result has a meaning. -/
structure Contract (compareTo : T → T → Int) : Prop where
  sgn : ∀ x y, (compareTo x y).sign = -(compareTo y x).sign
  trans : ∀ x y z, 0 < compareTo x y → 0 < compareTo y z → 0 < compareTo x z
  congr : ∀ x y z, compareTo x y = 0 → (compareTo x z).sign = (compareTo y z).sign

namespace Contract

theorem pos_iff (hc : Contract compareTo) (x y : T) :
  0 < compareTo x y ↔ compareTo y x < 0
  := by
  rw [← Int.sign_eq_one_iff_pos, hc.sgn, neg_eq_iff_eq_neg, Int.sign_eq_neg_one_iff_neg]

theorem nonpos_iff (hc : Contract compareTo) (x y : T) :
  compareTo x y ≤ 0 ↔ 0 ≤ compareTo y x
  := by
  have hpos := hc.pos_iff x y
  omega

/-- An element that exceeds no second one exceeds none that exceeds the second one or is equal to
it. -/
theorem nonpos_trans (hc : Contract compareTo) {x y z : T} (hxy : compareTo x y ≤ 0)
    (hyz : compareTo y z ≤ 0) :
  compareTo x z ≤ 0
  := by
  rcases hxy.lt_or_eq with hlt | heq
  · rcases hyz.lt_or_eq with hlt' | heq'
    · have hzx := hc.trans z y x ((hc.pos_iff z y).mpr hlt') ((hc.pos_iff y x).mpr hlt)
      exact ((hc.pos_iff z x).mp hzx).le
    · have hzx : 0 < compareTo z x := by
        have hzy : compareTo z y = 0 := by
          have hsign := hc.sgn z y
          rw [heq', Int.sign_zero, neg_zero] at hsign
          exact Int.sign_eq_zero_iff_zero.mp hsign
        rw [← Int.sign_eq_one_iff_pos, hc.congr z y x hzy, Int.sign_eq_one_iff_pos]
        exact (hc.pos_iff y x).mpr hlt
      exact ((hc.pos_iff z x).mp hzx).le
  · have hsign := hc.congr x y z heq
    by_contra hpos
    rw [Int.sign_eq_one_of_pos (not_le.mp hpos), eq_comm, Int.sign_eq_one_iff_pos] at hsign
    exact absurd hsign (not_lt.mpr hyz)

/-- If a positive result is always 1, the comparison with 1 tells which element is greater. -/
theorem comparison (hc : Contract compareTo) (hone : ∀ x y, 0 < compareTo x y → compareTo x y = 1) :
  Comparison compareTo
  := by
  have hiff : ∀ x y, compareTo x y ≠ 1 ↔ compareTo x y ≤ 0 := by
    intro x y
    have hxy := hone x y
    omega
  constructor
  · intro x y hxy
    rw [hiff, hc.nonpos_iff, hxy]
    exact Int.one_nonneg
  · intro x y z hyx hzy
    rw [hiff] at hyx hzy ⊢
    exact hc.nonpos_trans hzy hyx

end Contract

/-! ### Calls -/

/-- A call of a heap. -/
inductive Call (T : Type*) where
  | add (task : T)
  | poll

/-- The elements of a heap, in any order. -/
def elements (h : MinHeap T) : Multiset T := h.toList

/-- What `poll` does: it returns `null` if there are no elements, and otherwise removes one that no
other exceeds. -/
def Polls (compareTo : T → T → Int) (h : MinHeap T) (r : Option T × MinHeap T) : Prop :=
  h.elements = 0 ∧ r = (none, h)
    ∨ ∃ x, r.1 = some x ∧ h.elements = x ::ₘ r.2.elements ∧ ∀ y ∈ r.2.elements, compareTo y x ≤ 0

/-- All calls do what those of a priority queue do. -/
def Serves (compareTo : T → T → Int) : MinHeap T → List (Call T) → Prop
  | _, [] => True
  | h, .add task :: calls =>
      (h.add compareTo task).elements = task ::ₘ h.elements
        ∧ Serves compareTo (h.add compareTo task) calls
  | h, .poll :: calls =>
      ∃ r, h.pollInt compareTo = some r ∧ Polls compareTo h r ∧ Serves compareTo r.2 calls

/-- The calls never put more elements into a heap than a limit allows. -/
def Within (limit : Nat) : Nat → List (Call T) → Prop
  | _, [] => True
  | size, .add _ :: calls => size + 1 ≤ limit ∧ Within limit (size + 1) calls
  | size, .poll :: calls => Within limit (size - 1) calls

theorem card_elements (h : MinHeap T) :
  h.elements.card = h.size
  := h.heap.length_toList

theorem polls (hc : Contract compareTo) (hone : ∀ x y, 0 < compareTo x y → compareTo x y = 1)
    (hordered : h.Ordered compareTo) :
  Polls compareTo h (h.poll compareTo) ∧ (h.poll compareTo).2.Ordered compareTo
    ∧ (h.poll compareTo).2.size = h.size - 1
  := by
  rcases poll_spec (hc.comparison hone) hordered with ⟨heq, hnil⟩ | ⟨x, h', heq, hperm, hordered',
    hle⟩
  · have hzero : h.elements = 0 := congrArg Multiset.ofList hnil
    have hsize := h.card_elements
    rw [hzero, Multiset.card_zero] at hsize
    rw [heq]
    exact ⟨.inl ⟨hzero, rfl⟩, hordered, by dsimp only; omega⟩
  · have hcons : h.elements = x ::ₘ h'.elements := Multiset.coe_eq_coe.mpr hperm
    have hsize := h.card_elements
    rw [hcons, Multiset.card_cons, card_elements] at hsize
    rw [heq]
    refine ⟨.inr ⟨x, rfl, hcons, ?_⟩, hordered', by dsimp only; omega⟩
    intro y hy
    by_contra hpos
    exact hle y hy (hone y x (not_le.mp hpos))

/-- The heap stays in order from call to call. -/
theorem serves (hc : Contract compareTo) (hone : ∀ x y, 0 < compareTo x y → compareTo x y = 1)
    (calls : List (Call T)) (h : MinHeap T) (hordered : h.Ordered compareTo)
    (hsize : h.size ≤ 1073741824) (hwithin : Within 1073741824 h.size calls) :
  Serves compareTo h calls
  := by
  induction calls generalizing h with
  | nil => trivial
  | cons call calls ih =>
      cases call with
      | add task =>
          refine ⟨Multiset.coe_eq_coe.mpr add_perm, ?_⟩
          exact ih _ (add_ordered (hc.comparison hone) hordered) hwithin.1 hwithin.2
      | poll =>
          obtain ⟨hpolls, hordered', hsize'⟩ := polls hc hone hordered
          refine ⟨h.poll compareTo, pollInt_eq hsize, hpolls, ?_⟩
          apply ih _ hordered' (by omega)
          rw [hsize']
          exact hwithin

/-- An element that is greater does not rise if the result is not 1. -/
theorem add_add_of_ne {x y : T} (hne : compareTo x y ≠ 1) :
  (new.add compareTo y).add compareTo x = ⟨2, #v[y, x]⟩
  := by
  have hfirst : new.add compareTo y = ⟨1, #v[y]⟩ := by
    rw [add, siftUp]
    exact congrArg (MinHeap.mk 1) (dif_neg (Nat.lt_irrefl 0))
  rw [hfirst, add, siftUp]
  refine congrArg (MinHeap.mk 2) ((dif_pos Nat.zero_lt_one).trans ?_)
  dsimp only
  split
  · rename_i hhigher
    exact absurd hhigher hne
  · rfl

/-- The heap is a priority queue if and only if `compareTo` returns no positive number but 1. -/
theorem isPriorityQueue_iff (hc : Contract compareTo) :
  (∀ calls : List (Call T), Within 1073741824 0 calls → Serves compareTo new calls)
    ↔ ∀ x y, 0 < compareTo x y → compareTo x y = 1
  := by
  constructor
  · intro hserves x y hpos
    by_contra hne
    obtain ⟨-, -, r, hr, hpolls, -⟩ := hserves
      [.add y, .add x, .poll] ⟨by decide, by decide, trivial⟩
    rw [add_add_of_ne hne] at hr hpolls
    obtain rfl : (some y, ⟨1, #v[x]⟩) = r := Option.some.inj hr
    rcases hpolls with ⟨-, heq⟩ | ⟨z, hz, -, hle⟩
    · cases heq
    · cases hz
      exact absurd hpos (not_lt.mpr (hle x (by simp [elements, toList])))
  · intro hone calls hwithin
    exact serves hc hone calls new ordered_new (Nat.zero_le _) hwithin

/-- `compareTo` of `Integer`. -/
def compareInteger (x y : Int) : Int := if x < y then -1 else if x = y then 0 else 1

theorem compareInteger_eq (x y : Int) :
  compareInteger x y = (x - y).sign
  := by
  rw [compareInteger]
  rcases lt_trichotomy x y with hlt | rfl | hlt
  · rw [if_pos hlt, Int.sign_eq_neg_one_of_neg (by omega)]
  · simp
  · rw [if_neg (by omega), if_neg (by omega), Int.sign_eq_one_of_pos (by omega)]

theorem contract_compareInteger :
  Contract compareInteger
  := by
  constructor
  · intro x y
    rw [compareInteger_eq, compareInteger_eq, Int.sign_sign, Int.sign_sign, ← Int.sign_neg, neg_sub]
  · intro x y z
    rw [compareInteger_eq, compareInteger_eq, compareInteger_eq, Int.sign_pos_iff, Int.sign_pos_iff,
      Int.sign_pos_iff]
    omega
  · intro x y z heq
    rw [compareInteger_eq, Int.sign_eq_zero_iff_zero] at heq
    obtain rfl : x = y := by omega
    rfl

theorem compareInteger_eq_one {x y : Int} (h : 0 < compareInteger x y) : compareInteger x y = 1
  := by
  rw [compareInteger_eq, Int.sign_pos_iff] at h
  rw [compareInteger_eq, Int.sign_eq_one_of_pos h]

theorem isPriorityQueue_integers :
  Serves compareInteger new [.add 3, .add 7, .poll, .poll]
  := (isPriorityQueue_iff contract_compareInteger).mpr (fun _ _ => compareInteger_eq_one) _
    ⟨by decide, by decide, trivial⟩

/-- `compareTo` of `Character`. -/
def compareCharacter (x y : Char) : Int := x.toNat - y.toNat

theorem contract_compareCharacter :
  Contract compareCharacter
  := by
  constructor
  · intro x y
    rw [compareCharacter, compareCharacter, ← Int.sign_neg, neg_sub]
  · intro x y z
    rw [compareCharacter, compareCharacter, compareCharacter]
    omega
  · intro x y z heq
    rw [compareCharacter] at heq
    rw [compareCharacter, compareCharacter]
    congr 1
    omega

theorem isPriorityQueue_not_characters :
  Contract compareCharacter ∧ ¬ Serves compareCharacter new [.add 'a', .add 'c', .poll]
  := by
  refine ⟨contract_compareCharacter, ?_⟩
  rintro ⟨-, -, r, hr, hpolls, -⟩
  rw [add_add_of_ne (by decide)] at hr hpolls
  obtain rfl : (some 'a', ⟨1, #v['c']⟩) = r := Option.some.inj hr
  rcases hpolls with ⟨-, heq⟩ | ⟨z, hz, -, hle⟩
  · cases heq
  · cases hz
    exact absurd (hle 'c' (by simp [elements, toList])) (by decide)

end MinHeap

end TaskManager
