import Homeworks.Heap.Order
import Homeworks.Java.Text
import Mathlib.Data.List.Perm.Basic

/-!
# MinHeap

`MinHeap` and its operations.  A list that has not been created is empty.
-/

namespace TaskManager

structure MinHeap (T : Type*) where
  size : Nat
  heap : Vector T size

namespace MinHeap

section

variable {T : Type*} {n : Nat} (compareTo : T → T → Int)

/-! ### Operations -/

/-- The heap without elements. -/
def new : MinHeap T := ⟨0, #v[]⟩

def isEmpty (h : MinHeap T) : Bool := h.size = 0

/-- The loop of `add`: a child with a higher priority is swapped with its parent. -/
def siftUp (heap : Vector T n) (child : Fin n) : Vector T n :=
  if h : 0 < child.val then
    let parent : Fin n := ⟨(child - 1) / 2, by omega⟩
    if compareTo (getElem heap child child.isLt) (getElem heap parent parent.isLt) = 1 then
      siftUp (heap.swap child parent child.isLt parent.isLt) parent
    else
      heap
  else
    heap
termination_by child.val
decreasing_by omega

def add (h : MinHeap T) (task : T) : MinHeap T :=
  ⟨h.size + 1, siftUp compareTo (h.heap.push task) (Fin.last h.size)⟩

/-- The child with the higher priority, if the left child is there. -/
def cmpChild (heap : Vector T n) (leftChild : Fin n) : Fin n :=
  if h : leftChild + 1 < n then
    let rightChild : Fin n := ⟨leftChild + 1, h⟩
    if compareTo heap[rightChild] heap[leftChild] = 1 then rightChild else leftChild
  else
    leftChild

theorem le_cmpChild (heap : Vector T n) (leftChild : Fin n) :
  leftChild.val ≤ cmpChild compareTo heap leftChild
  := by
  rw [cmpChild]
  split
  · dsimp only
    split
    · exact Nat.le_succ _
    · exact Nat.le_refl _
  · exact Nat.le_refl _

/-- The loop of `poll`: a child with a higher priority is swapped with its parent. -/
def siftDown (heap : Vector T n) (parent : Fin n) : Vector T n :=
  if h : 2 * parent + 1 < n then
    let child := cmpChild compareTo heap ⟨2 * parent + 1, h⟩
    if compareTo (getElem heap child child.isLt) (getElem heap parent parent.isLt) = 1 then
      siftDown (heap.swap parent child parent.isLt child.isLt) child
    else
      heap
  else
    heap
termination_by n - parent
decreasing_by
  have hle := le_cmpChild compareTo heap ⟨2 * parent + 1, h⟩
  dsimp only at hle
  omega

/-- The element with the highest priority, and the heap without it. -/
def poll : MinHeap T → Option T × MinHeap T
  | ⟨0, heap⟩ => (none, ⟨0, heap⟩)
  | ⟨1, heap⟩ => (some heap[0], ⟨0, heap.pop⟩)
  | ⟨n + 2, heap⟩ => (some heap[0], ⟨n + 1, siftDown compareTo (heap.pop.set 0 heap.back) 0⟩)

/-- The size after an element has been removed. -/
theorem size_poll {h h' : MinHeap T} {x : T} (hpoll : h.poll compareTo = (some x, h')) :
  h'.size < h.size
  := by
  revert hpoll
  fun_cases poll compareTo h with
  | case1 heap => rintro ⟨⟩
  | case2 heap =>
      rintro ⟨⟩
      exact Nat.zero_lt_one
  | case3 n heap =>
      rintro ⟨⟩
      exact Nat.lt_succ_self _

/-- The elements in the order in which they are removed. -/
def drain (h : MinHeap T) : List T :=
  match _hpoll : h.poll compareTo with
  | (none, _) => []
  | (some task, h') => task :: drain h'
termination_by h.size
decreasing_by exact size_poll compareTo _hpoll

end

/-! ### Order -/

/-- A comparison tells which of two elements has the higher priority. -/
structure Comparison {T : Type*} (compareTo : T → T → Int) : Prop where
  asymm : ∀ x y, compareTo x y = 1 → compareTo y x ≠ 1
  trans : ∀ x y z, compareTo y x ≠ 1 → compareTo z y ≠ 1 → compareTo z x ≠ 1

variable {T : Type*} {n : Nat} {compareTo : T → T → Int} {h h' : MinHeap T} {x : T}

/-- The second element does not have a higher priority. -/
def NotAfter (compareTo : T → T → Int) (x y : T) : Prop := compareTo y x ≠ 1

theorem Comparison.refl (hc : Comparison compareTo) (x : T) :
  NotAfter compareTo x x
  := fun hx => hc.asymm x x hx hx

/-- The heap is in order. -/
def Ordered (compareTo : T → T → Int) (h : MinHeap T) : Prop :=
  Heap.Ordered (NotAfter compareTo) h.heap

/-- The elements of a heap. -/
def toList (h : MinHeap T) : List T := h.heap.toList

theorem ordered_new :
  (new : MinHeap T).Ordered compareTo
  := by
  intro p
  exact p.elim0

/-! ### Adding -/

theorem siftUp_perm {heap : Vector T n} {child : Fin n} :
  (siftUp compareTo heap child).toList.Perm heap.toList
  := by
  fun_induction siftUp compareTo heap child with
  | case1 heap child hpos p hhigher ih => exact ih.trans (Vector.swap_perm _ _).toList
  | case2 heap child hpos p hhigher => exact .refl _
  | case3 heap child hpos => exact .refl _

theorem siftUp_ordered (hc : Comparison compareTo) {heap : Vector T n} {child : Fin n} :
  Heap.Rising (NotAfter compareTo) heap child
    → Heap.Ordered (NotAfter compareTo) (siftUp compareTo heap child)
  := by
  fun_induction siftUp compareTo heap child with
  | case1 heap child hpos p hhigher ih =>
      intro hrising
      exact ih (hrising.swap hc.trans hpos rfl (hc.asymm _ _ hhigher))
  | case2 heap child hpos p hhigher =>
      intro hrising
      apply hrising.to_ordered
      intro q _ hq
      obtain rfl : p = q := Fin.ext hq
      exact hhigher
  | case3 heap child hpos =>
      intro hrising
      apply hrising.to_ordered
      intro q hpos'
      exact absurd hpos' hpos

/-- An element is added. -/
theorem add_perm :
  (h.add compareTo x).toList.Perm (x :: h.toList)
  := by
  have hpush : (h.heap.push x).toList.Perm (x :: h.toList) := by
    rw [Vector.toList_push]
    exact List.perm_append_singleton x h.toList
  exact siftUp_perm.trans hpush

theorem add_ordered (hc : Comparison compareTo) (hordered : h.Ordered compareTo) :
  (h.add compareTo x).Ordered compareTo
  := siftUp_ordered hc hordered.push

/-! ### Removing -/

theorem siftDown_perm {heap : Vector T n} {parent : Fin n} :
  (siftDown compareTo heap parent).toList.Perm heap.toList
  := by
  fun_induction siftDown compareTo heap parent with
  | case1 heap parent hleft child hhigher ih => exact ih.trans (Vector.swap_perm _ _).toList
  | case2 heap parent hleft child hhigher => exact .refl _
  | case3 heap parent hleft => exact .refl _

/-- The child that is compared is one of the two, and no other has a higher priority. -/
theorem cmpChild_cases (hc : Comparison compareTo) (heap : Vector T n) (leftChild : Fin n) :
  cmpChild compareTo heap leftChild = leftChild
      ∧ (∀ h : leftChild + 1 < n, NotAfter compareTo heap[leftChild] heap[leftChild.val + 1])
    ∨ ∃ h : leftChild + 1 < n, cmpChild compareTo heap leftChild = ⟨leftChild + 1, h⟩
      ∧ NotAfter compareTo heap[leftChild.val + 1] heap[leftChild]
  := by
  rw [cmpChild]
  split
  · rename_i hright
    dsimp only
    split
    · rename_i hhigher
      exact .inr ⟨hright, rfl, hc.asymm _ _ hhigher⟩
    · rename_i hhigher
      exact .inl ⟨rfl, fun _ => hhigher⟩
  · rename_i hright
    exact .inl ⟨rfl, fun h => absurd h hright⟩

theorem cmpChild_spec (hc : Comparison compareTo) {heap : Vector T n} {parent child : Fin n}
    (hleft : 2 * parent + 1 < n)
    (hchild : cmpChild compareTo heap ⟨2 * parent + 1, hleft⟩ = child) :
  0 < child.val ∧ Heap.parent child = parent
    ∧ ∀ i : Fin n, 0 < i.val → Heap.parent i = parent → NotAfter compareTo heap[child] heap[i]
  := by
  rcases cmpChild_cases hc heap ⟨2 * parent + 1, hleft⟩ with ⟨heq, hle⟩ | ⟨hright, heq, hle⟩
  · obtain rfl := hchild.symm.trans heq
    refine ⟨Nat.succ_pos _, Heap.parent_left, ?_⟩
    intro i hi hp
    obtain ⟨i, hin⟩ := i
    rcases Heap.eq_of_parent hi hp with rfl | rfl
    · exact hc.refl _
    · exact hle hin
  · obtain rfl := hchild.symm.trans heq
    refine ⟨Nat.succ_pos _, Heap.parent_right, ?_⟩
    intro i hi hp
    obtain ⟨i, hin⟩ := i
    rcases Heap.eq_of_parent hi hp with rfl | rfl
    · exact hle
    · exact hc.refl _

theorem siftDown_ordered (hc : Comparison compareTo) {heap : Vector T n} {parent : Fin n} :
  Heap.Sinking (NotAfter compareTo) heap parent
    → Heap.Ordered (NotAfter compareTo) (siftDown compareTo heap parent)
  := by
  fun_induction siftDown compareTo heap parent with
  | case1 heap parent hleft child hhigher ih =>
      intro hsinking
      obtain ⟨hpos, hparent, hmin⟩ := cmpChild_spec hc hleft rfl
      exact ih (hsinking.swap hpos hparent (hc.asymm _ _ hhigher) hmin)
  | case2 heap parent hleft child hhigher =>
      intro hsinking
      obtain ⟨hpos, hparent, hmin⟩ := cmpChild_spec hc hleft rfl
      apply hsinking.to_ordered
      intro i hi hp
      exact hc.trans _ _ _ hhigher (hmin i hi hp)
  | case3 heap parent hleft =>
      intro hsinking
      apply hsinking.to_ordered
      intro i hi hp
      rcases Heap.eq_of_parent hi hp with heq | heq <;> omega

/-- The root is the first element. -/
theorem exists_rest (heap : Vector T (n + 1)) :
  ∃ rest, heap.toList = heap[0] :: rest
  := by
  obtain ⟨root, rest, hlist⟩ := List.exists_cons_of_length_eq_add_one heap.length_toList
  have hhead := congrArg List.head? hlist
  rw [List.head?_cons, List.head?_eq_getElem?] at hhead
  have hroot : heap[0] = root := by simpa using hhead
  exact ⟨rest, hroot ▸ hlist⟩

/-- The root is replaced by the last element. -/
theorem set_root_perm (heap : Vector T (n + 1)) (last : T) :
  (heap.push last).toList.Perm (heap[0] :: (heap.set 0 last).toList)
  := by
  obtain ⟨rest, hlist⟩ := exists_rest heap
  rw [Vector.toList_push, Vector.toList_set, hlist, List.set_cons_zero, List.cons_append]
  exact (List.perm_append_singleton last rest).cons heap[0]

/-- No element has a higher priority than the root. -/
theorem root_notAfter (hc : Comparison compareTo) {heap : Vector T (n + 1)}
    (hordered : Heap.Ordered (NotAfter compareTo) heap) :
  ∀ y ∈ heap.toList, NotAfter compareTo heap[0] y
  := by
  intro y hy
  obtain ⟨i, hi, rfl⟩ := Vector.mem_iff_getElem.mp (Vector.mem_toList_iff.mp hy)
  exact hordered.root_le hc.refl hc.trans (Nat.succ_pos n) ⟨i, hi⟩

/-- What is removed, if the heap is not empty. -/
theorem poll_spec (hc : Comparison compareTo) (hordered : h.Ordered compareTo) :
  h.poll compareTo = (none, h) ∧ h.toList = []
    ∨ ∃ x h', h.poll compareTo = (some x, h') ∧ h.toList.Perm (x :: h'.toList)
      ∧ h'.Ordered compareTo ∧ ∀ y ∈ h'.toList, NotAfter compareTo x y
  := by
  obtain ⟨size, heap⟩ := h
  rcases size with _ | _ | n
  · exact .inl ⟨rfl, List.eq_nil_of_length_eq_zero heap.length_toList⟩
  · right
    have hperm : heap.toList.Perm (heap[0] :: heap.pop.toList) := by
      obtain ⟨rest, hlist⟩ := exists_rest heap
      have hlength := congrArg List.length hlist
      rw [heap.length_toList, List.length_cons] at hlength
      rw [Vector.toList_pop, hlist, List.eq_nil_of_length_eq_zero (Nat.succ.inj hlength).symm]
      exact .refl _
    refine ⟨heap[0], ⟨0, heap.pop⟩, rfl, hperm, fun p => p.elim0, ?_⟩
    intro y hy
    exact root_notAfter hc hordered y (hperm.mem_iff.mpr (List.mem_cons_of_mem _ hy))
  · right
    have hperm : heap.toList.Perm
        (heap[0] :: (siftDown (n := n + 1) compareTo (heap.pop.set 0 heap.back) 0).toList) := by
      have hroot : heap.pop[0] = heap[0] := Vector.getElem_pop _
      have hset := set_root_perm (n := n) heap.pop heap.back
      rw [Vector.push_pop_back, hroot] at hset
      exact hset.trans (siftDown_perm.symm.cons heap[0])
    refine ⟨heap[0], ⟨n + 1, siftDown compareTo (heap.pop.set 0 heap.back) 0⟩, rfl, hperm, ?_, ?_⟩
    · have hpop : Heap.Ordered (NotAfter compareTo) heap.pop := Heap.Ordered.pop hordered
      exact siftDown_ordered hc (hpop.set_root (Nat.succ_pos n))
    · intro y hy
      exact root_notAfter hc hordered y (hperm.mem_iff.mpr (List.mem_cons_of_mem _ hy))

/-- The elements are removed in the order of their priorities. -/
theorem drain_spec (hc : Comparison compareTo) (h : MinHeap T) :
  h.Ordered compareTo → (h.drain compareTo).Perm h.toList
    ∧ (h.drain compareTo).Pairwise (NotAfter compareTo)
  := by
  fun_induction drain compareTo h with
  | case1 h h' hpoll =>
      intro hordered
      rcases poll_spec hc hordered with ⟨-, hnil⟩ | ⟨y, h'', heq, -⟩
      · rw [hnil]
        exact ⟨.refl _, .nil⟩
      · rw [hpoll] at heq
        cases heq
  | case2 h x h' hpoll ih =>
      intro hordered
      rcases poll_spec hc hordered with ⟨heq, -⟩ | ⟨y, h'', heq, hperm, hordered', hafter⟩
      · rw [hpoll] at heq
        cases heq
      · rw [hpoll] at heq
        cases heq
        obtain ⟨hrest, hpairwise⟩ := ih hordered'
        refine ⟨(hrest.cons x).trans hperm.symm, List.pairwise_cons.mpr ⟨?_, hpairwise⟩⟩
        intro z hz
        exact hafter z (hrest.mem_iff.mp hz)

/-! ### Indices of the type `int` -/

/-- The place of an index; `get` throws an exception if there is none. -/
def place (n : Nat) (index : Int) : Option (Fin n) :=
  if 0 ≤ index then
    if h : index.toNat < n then some ⟨index.toNat, h⟩ else none
  else
    none

section

variable {T : Type*} {n : Nat} (compareTo : T → T → Int)

/-- The child with the higher priority. -/
def cmpChildInt (heap : Vector T n) (leftChild : Int) : Option (Fin n) :=
  (place n leftChild).bind fun left =>
    let rightChild := Java.wrap (leftChild + 1)
    if rightChild < n then
      (place n rightChild).map fun right =>
        if compareTo (heap.get right) (heap.get left) = 1 then right else left
    else
      some left

/-- The loop of `poll`; there is no result if an index is outside of the list, or if the loop takes
more steps than `fuel` says. -/
def sinkLoop : Nat → Vector T n → Int → Option (Vector T n)
  | 0, _, _ => none
  | fuel + 1, heap, parent =>
      let leftChild := Java.wrap (2 * parent + 1)
      if leftChild ≥ n then
        some heap
      else
        (cmpChildInt compareTo heap leftChild).bind fun child =>
          (place n parent).bind fun parent =>
            if compareTo (heap.get child) (heap.get parent) = 1 then
              sinkLoop fuel (heap.swap parent child parent.isLt child.isLt) child
            else
              some heap

/-- `poll` with indices of the type `int`. -/
def pollInt : MinHeap T → Option (Option T × MinHeap T)
  | ⟨0, heap⟩ => some (none, ⟨0, heap⟩)
  | ⟨1, heap⟩ => some (some (heap.get 0), ⟨0, heap.pop⟩)
  | ⟨n + 2, heap⟩ =>
      (sinkLoop compareTo (n + 2) (heap.pop.set 0 heap.back (Nat.succ_pos n)) 0).map fun heap' =>
        (some (heap.get 0), ⟨n + 1, heap'⟩)

end

end MinHeap

end TaskManager
