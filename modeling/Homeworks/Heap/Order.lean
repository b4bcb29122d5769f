import Mathlib.Data.Fintype.Basic

/-!
# Heaps in arrays

The children of the element at `i` are at `2 * i + 1` and `2 * i + 2`.  An array is ordered if
no element is above its parent; while an element rises or sinks it is so everywhere else.
-/

namespace Heap

/-- The index of the parent, except for the root. -/
def parent (i : Nat) : Nat := (i - 1) / 2

section

variable {T : Type*} {n : Nat} (le : T → T → Prop) (a : Vector T n)

/-- An element is at most its children. -/
def Ordered : Prop :=
  ∀ p i : Fin n, 0 < i.val → parent i = p → le a[p] a[i]

/-- An element may have to rise. -/
structure Rising (child : Fin n) : Prop where
  ordered : ∀ p i : Fin n, 0 < i.val → parent i = p → i ≠ child → le a[p] a[i]
  grand : ∀ p i : Fin n, 0 < i.val → parent i = child → 0 < child.val → parent child = p →
    le a[p] a[i]

/-- An element may have to sink. -/
structure Sinking (hole : Fin n) : Prop where
  ordered : ∀ p i : Fin n, 0 < i.val → parent i = p → p ≠ hole → le a[p] a[i]
  grand : ∀ p i : Fin n, 0 < i.val → parent i = hole → 0 < hole.val → parent hole = p →
    le a[p] a[i]

end

variable {T : Type*} {n : Nat} {le : T → T → Prop} {a : Vector T n} {x : T}

/-- What an array contains after two elements have been swapped. -/
theorem getElem_swap (i j k : Fin n) :
  (a.swap i j)[k] = if k = i then a[j] else if k = j then a[i] else a[k]
  := by
  rw [Fin.getElem_fin, Vector.getElem_swap]
  simp only [Fin.ext_iff, Fin.getElem_fin]

theorem parent_lt {i : Nat} (h : 0 < i) :
  parent i < i
  := by
  rw [parent]
  omega

theorem parent_left {i : Nat} :
  parent (2 * i + 1) = i
  := by
  rw [parent]
  omega

theorem parent_right {i : Nat} :
  parent (2 * i + 1 + 1) = i
  := by
  rw [parent]
  omega

/-- An element has no other children than the left and the right one. -/
theorem eq_of_parent {i p : Nat} (hi : 0 < i) (hp : parent i = p) :
  i = 2 * p + 1 ∨ i = 2 * p + 1 + 1
  := by
  rw [parent] at hp
  omega

/-! ### Rising elements -/

/-- An element that is below its parent rises. -/
theorem Rising.swap (htrans : ∀ x y z, le x y → le y z → le x z) {child p : Fin n}
    (h : Rising le a child) (hpos : 0 < child.val) (hp : parent child = p)
    (hle : le a[child] a[p]) :
  Rising le (a.swap child p) p
  := by
  have hlt := parent_lt hpos
  have hcp : child ≠ p := by
    rintro rfl
    omega
  constructor
  · intro q i hi hq hip
    rw [getElem_swap, getElem_swap, if_neg hip]
    by_cases hichild : i = child
    · obtain rfl : q = p := by
        rw [hichild] at hq
        exact Fin.ext (hq.symm.trans hp)
      rw [if_neg (Ne.symm hcp), if_pos rfl, if_pos hichild]
      exact hle
    · rw [if_neg hichild]
      split
      · rename_i hqchild
        rw [hqchild] at hq
        exact h.grand p i hi hq hpos hp
      · split
        · rename_i hqp
          rw [hqp] at hq
          exact htrans _ _ _ hle (h.ordered p i hi hq hichild)
        · exact h.ordered q i hi hq hichild
  · intro q i hi hip hppos hq
    have hplt := parent_lt hppos
    have hqp : q ≠ p := by
      rintro rfl
      omega
    have hqchild : q ≠ child := by
      rintro rfl
      omega
    have hi' : i ≠ p := by
      rintro rfl
      have hself := parent_lt hi
      omega
    rw [getElem_swap, getElem_swap, if_neg hqchild, if_neg hqp, if_neg hi']
    have hqp' : le a[q] a[p] := h.ordered q p hppos hq (Ne.symm hcp)
    split
    · exact hqp'
    · rename_i hichild
      exact htrans _ _ _ hqp' (h.ordered p i hi hip hichild)

/-- An element rises no further at the root, or below an element that is at most it. -/
theorem Rising.to_ordered {child : Fin n} (h : Rising le a child)
    (hle : ∀ p : Fin n, 0 < child.val → parent child = p → le a[p] a[child]) :
  Ordered le a
  := by
  intro p i hi hp
  by_cases hichild : i = child
  · rw [hichild] at hi hp ⊢
    exact hle p hi hp
  · exact h.ordered p i hi hp hichild

/-- An element that is put behind an array may have to rise. -/
theorem Ordered.push (h : Ordered le a) :
  Rising le (a.push x) (Fin.last n)
  := by
  constructor
  · intro p i hi hp hlast
    have hin : i.val < n := Fin.val_lt_last hlast
    have hpi := parent_lt hi
    have hpn : p.val < n := by omega
    rw [Fin.getElem_fin, Fin.getElem_fin, Vector.getElem_push_lt hin, Vector.getElem_push_lt hpn]
    exact h ⟨p, hpn⟩ ⟨i, hin⟩ hi hp
  · intro p i hi hilast
    have hpi := parent_lt hi
    rw [hilast, Fin.val_last] at hpi
    omega

/-! ### Sinking elements -/

/-- An element that is above a child sinks below the child that is at most the other one. -/
theorem Sinking.swap {hole c : Fin n} (h : Sinking le a hole) (hpos : 0 < c.val)
    (hc : parent c = hole) (hle : le a[c] a[hole])
    (hmin : ∀ i : Fin n, 0 < i.val → parent i = hole → le a[c] a[i]) :
  Sinking le (a.swap hole c) c
  := by
  have hlt := parent_lt hpos
  have hne : c ≠ hole := by
    rintro rfl
    omega
  constructor
  · intro p i hi hp hpc
    have hpi := parent_lt hi
    rw [getElem_swap, getElem_swap]
    by_cases hphole : p = hole
    · rw [hphole] at hp
      rw [if_pos hphole, if_neg]
      · split
        · exact hle
        · exact hmin i hi hp
      · rintro rfl
        omega
    · rw [if_neg hphole, if_neg hpc]
      split
      · rename_i hihole
        rw [hihole] at hi hp
        exact h.grand p c hpos hc hi hp
      · rw [if_neg]
        · exact h.ordered p i hi hp hphole
        · rintro rfl
          exact hphole (Fin.ext (hp.symm.trans hc))
  · intro p i hi hic _ hp
    have hci := parent_lt hi
    obtain rfl : p = hole := Fin.ext (hp.symm.trans hc)
    rw [getElem_swap, getElem_swap, if_pos rfl, if_neg, if_neg]
    · exact h.ordered c i hi hic hne
    · rintro rfl
      omega
    · rintro rfl
      omega

/-- An element sinks no further if it is at most its children. -/
theorem Sinking.to_ordered {hole : Fin n} (h : Sinking le a hole)
    (hle : ∀ i : Fin n, 0 < i.val → parent i = hole → le a[hole] a[i]) :
  Ordered le a
  := by
  intro p i hi hp
  by_cases hphole : p = hole
  · rw [hphole] at hp ⊢
    exact hle i hi hp
  · exact h.ordered p i hi hp hphole

/-- An element that replaces the root may have to sink. -/
theorem Ordered.set_root (h : Ordered le a) (hn : 0 < n) :
  Sinking le (a.set 0 x) ⟨0, hn⟩
  := by
  constructor
  · intro p i hi hp hproot
    have hp0 : 0 ≠ p.val := fun heq => hproot (Fin.ext heq.symm)
    rw [Fin.getElem_fin, Fin.getElem_fin, Vector.getElem_set_ne _ _ hp0,
      Vector.getElem_set_ne _ _ (Nat.ne_of_lt hi)]
    exact h p i hi hp
  · intro p i _ _ hroot
    exact absurd hroot (Nat.lt_irrefl 0)

/-- Without its last element an array is still ordered. -/
theorem Ordered.pop (h : Ordered le a) :
  Ordered le a.pop
  := by
  intro p i hi hp
  rw [Fin.getElem_fin, Fin.getElem_fin, Vector.getElem_pop, Vector.getElem_pop]
  exact h ⟨p, by omega⟩ ⟨i, by omega⟩ hi hp

/-- The root is at most every element. -/
theorem Ordered.root_le (hrefl : ∀ x, le x x) (htrans : ∀ x y z, le x y → le y z → le x z)
    (h : Ordered le a) (hn : 0 < n) (i : Fin n) :
  le a[0] a[i]
  := by
  obtain ⟨i, hi⟩ := i
  induction i using Nat.strongRecOn with
  | ind i ih =>
      rcases Nat.eq_zero_or_pos i with rfl | hpos
      · exact hrefl _
      · have hlt := parent_lt hpos
        have hp : parent i < n := Nat.lt_trans hlt hi
        apply htrans _ _ _ (ih (parent i) hlt hp)
        exact h ⟨parent i, hp⟩ ⟨i, hi⟩ hpos rfl

end Heap
