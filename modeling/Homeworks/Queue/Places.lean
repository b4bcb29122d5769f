import Mathlib.Data.List.Basic
import Mathlib.Data.List.Induction
import Mathlib.Logic.Function.Basic
import Mathlib.Order.Basic
import Mathlib.Order.Nat

/-!
# Lists in arrays

An array of pointers holds a list in its first places.  Before an element is inserted, those behind
it are moved up by one place, from the last one on; when an element is removed, those behind it are
moved down, from the first one on.
-/

namespace Places

variable {α : Type*} {q : ℕ → Option α} {l r : List α} {a x : α} {i : ℕ}

/-- The list is in the first places of the array. -/
def Holds (q : ℕ → Option α) (l : List α) : Prop := ∀ j < l.length, q j = l[j]?

theorem holds_nil (q : ℕ → Option α) :
  Holds q []
  := fun _ hj => absurd hj (Nat.not_lt_zero _)

theorem holds_cons :
  Holds q (x :: l) ↔ q 0 = some x ∧ Holds (fun j => q (j + 1)) l
  := by
  constructor
  · intro h
    exact ⟨h 0 (Nat.succ_pos _), fun j hj => h (j + 1) (Nat.succ_lt_succ hj)⟩
  · rintro ⟨h₀, h⟩ j hj
    cases j with
    | zero => exact h₀
    | succ j => exact h j (Nat.lt_of_succ_lt_succ hj)

theorem holds_append :
  Holds q (l ++ r) ↔ Holds q l ∧ Holds (fun j => q (l.length + j)) r
  := by
  induction l generalizing q with
  | nil => simp [Holds]
  | cons x l ih =>
      rw [List.cons_append, holds_cons, holds_cons, ih, and_assoc, List.length_cons]
      simp only [Nat.add_right_comm _ 1]

theorem Holds.mem (h : Holds q l) (hi : i < l.length) :
  ∃ x ∈ l, q i = some x
  := ⟨l[i], List.getElem_mem hi, by rw [h i hi, List.getElem?_eq_getElem hi]⟩

theorem Holds.update (h : Holds q l) {x : Option α} (hi : l.length ≤ i) :
  Holds (Function.update q i x) l
  := by
  intro j hj
  rw [Function.update_of_ne (by omega)]
  exact h j hj

/-- An element is put at the place between two parts. -/
theorem Holds.put (hl : Holds q l) (hr : Holds (fun j => q (l.length + 1 + j)) r) :
  Holds (Function.update q l.length (some a)) (l ++ a :: r)
  := by
  apply holds_append.mpr ⟨hl.update (Nat.le_refl _), holds_cons.mpr ⟨Function.update_self .., _⟩⟩
  intro j hj
  change Function.update q l.length (some a) (l.length + (j + 1)) = _
  rw [Function.update_of_ne (by omega), ← hr j hj]
  exact congrArg q (by omega)

/-- The element before those that have been moved up is moved up. -/
theorem Holds.moved (hr : Holds (fun j => q (i + 1 + 1 + j)) r) (x : α) :
  Holds (fun j => Function.update q (i + 1) (some x) (i + 1 + j)) (x :: r)
  := by
  apply holds_cons.mpr ⟨Function.update_self (i + 1) _ q, _⟩
  intro j hj
  change Function.update q (i + 1) (some x) (i + 1 + (j + 1)) = _
  rw [Function.update_of_ne (by omega), ← hr j hj]
  exact congrArg q (by omega)

/-! ### Moving up -/

/-- An element is inserted before the first of the last places whose elements are moved up by one
until one of them makes it stop.  The elements that have been looked at are returned as well. -/
def insertFrom (stop : α → Bool) (a : α) :
    ℕ → (ℕ → Option α) → Option ((ℕ → Option α) × List α)
  | 0, q => some (Function.update q 0 (some a), [])
  | i + 1, q => (q i).bind fun x =>
      if stop x then
        some (Function.update q (i + 1) (some a), [x])
      else
        (insertFrom stop a i (Function.update q (i + 1) (some x))).map fun p => (p.1, x :: p.2)

/-- The same where the elements from the place on have been moved up already. -/
theorem insertFrom_append (stop : α → Bool) (hl : Holds q l)
    (hr : Holds (fun j => q (l.length + 1 + j)) r) :
  ∃ q' seen l', insertFrom stop a l.length q = some (q', seen) ∧ l'.Perm (a :: (l ++ r))
    ∧ Holds q' l' ∧ ∀ x ∈ seen, x ∈ l
  := by
  induction l using List.reverseRecOn generalizing q r with
  | nil => exact ⟨_, _, _, rfl, .refl _, hl.put hr, nofun⟩
  | append_singleton l x ih =>
      have hput := hl.put hr (a := a)
      obtain ⟨hl, hx⟩ := holds_append.mp hl
      replace hx : q l.length = some x := (holds_cons.mp hx).1
      rw [List.length_append] at hr hput ⊢
      rw [List.length_singleton] at hr hput ⊢
      rw [insertFrom, hx, Option.bind_some]
      cases hstop : stop x with
      | true => exact ⟨_, _, _, rfl, List.perm_middle, hput, by simp⟩
      | false =>
          obtain ⟨q', seen, l', heq, hperm, hq', hseen⟩ :=
            ih (hl.update (Nat.le_succ _)) (hr.moved x)
          refine ⟨q', x :: seen, l', by simp [heq], ?_, hq', ?_⟩
          · rwa [List.append_assoc]
          · intro y hy
            rcases List.mem_cons.mp hy with rfl | hy
            · exact List.mem_append_right _ List.mem_cons_self
            · exact List.mem_append_left _ (hseen y hy)

theorem Holds.insertFrom (stop : α → Bool) (a : α) (h : Holds q l) :
  ∃ q' seen l', insertFrom stop a l.length q = some (q', seen) ∧ l'.Perm (a :: l)
    ∧ Holds q' l' ∧ ∀ x ∈ seen, x ∈ l
  := by
  have hinsert := insertFrom_append stop h (holds_nil _) (a := a)
  rwa [List.append_nil] at hinsert

/-- It is inserted before those behind the last element that makes it stop. -/
theorem insertFrom_split (stop : α → Bool) {rest : List α} (hl : Holds q (l ++ r))
    (hrest : Holds (fun j => q ((l ++ r).length + 1 + j)) rest) (hstop : ∀ x ∈ l, stop x = true)
    (hmove : ∀ x ∈ r, stop x = false) :
  ∃ q' seen, insertFrom stop a (l ++ r).length q = some (q', seen)
    ∧ Holds q' (l ++ a :: (r ++ rest))
  := by
  induction r using List.reverseRecOn generalizing q rest with
  | nil =>
      rw [List.append_nil] at hl hrest ⊢
      have hput := hl.put hrest (a := a)
      induction l using List.reverseRecOn with
      | nil => exact ⟨_, _, rfl, hput⟩
      | append_singleton l x _ =>
          have hx : q l.length = some x := (holds_cons.mp (holds_append.mp hl).2).1
          rw [List.length_append, List.length_singleton, insertFrom, hx, Option.bind_some,
            if_pos (hstop x (by simp))]
          rw [List.length_append, List.length_singleton] at hput
          exact ⟨_, _, rfl, hput⟩
  | append_singleton r x ih =>
      rw [← List.append_assoc] at hl hrest ⊢
      obtain ⟨hl, hx⟩ := holds_append.mp hl
      replace hx : q (l ++ r).length = some x := (holds_cons.mp hx).1
      rw [List.length_append, List.length_singleton] at hrest ⊢
      rw [insertFrom, hx, Option.bind_some, if_neg (by simp [hmove x])]
      obtain ⟨q', seen, heq, hq'⟩ := ih (hl.update (Nat.le_succ _)) (hrest.moved x)
        fun y hy => hmove y (List.mem_append_left _ hy)
      rw [heq]
      refine ⟨q', x :: seen, rfl, ?_⟩
      rwa [List.append_assoc]

/-! ### Moving down -/

/-- The elements before the place have been moved down by one, those from the place on have not. -/
def Slides (q : ℕ → Option α) (i : ℕ) (l : List α) : Prop :=
  ∀ j < l.length, q (if j < i then j else j + 1) = l[j]?

theorem Holds.slides (h : Holds q (x :: l)) :
  Slides q 0 l
  := fun j hj => (holds_cons.mp h).2 j hj

theorem Slides.holds (h : Slides q i l) (hi : l.length ≤ i) :
  Holds q l
  := by
  intro j hj
  rw [← h j hj, if_pos (by omega)]

theorem Slides.step (h : Slides q i l) (hi : i < l.length) :
  Slides (Function.update q i (q (i + 1))) (i + 1) l
  := by
  intro j hj
  rw [← h j hj]
  rcases lt_trichotomy j i with hlt | rfl | hgt
  · rw [if_pos (by omega), if_pos hlt, Function.update_of_ne (by omega)]
  · rw [if_pos (by omega), if_neg (by omega), Function.update_self]
  · rw [if_neg (by omega), if_neg (by omega), Function.update_of_ne (by omega)]

/-- The elements behind a place are moved down by one, a number of them. -/
def moveDown (q : ℕ → Option α) (i n : ℕ) : ℕ → Option α :=
  (List.range' i n).foldl (fun q j => Function.update q j (q (j + 1))) q

theorem Slides.moveDown {n : ℕ} (h : Slides q i l) (hn : i + n = l.length) :
  Holds (moveDown q i n) l
  := by
  induction n generalizing q i with
  | zero => exact h.holds (by omega)
  | succ n ih => exact ih (h.step (by omega)) (by omega)

/-- An element is removed. -/
theorem Holds.erase {y : Option α} (h : Holds q l) (hi : i < l.length) :
  Holds (Places.moveDown (Function.update q i y) i (l.length - 1 - i)) (l.eraseIdx i)
  := by
  have hlength := List.length_eraseIdx_of_lt hi
  apply Slides.moveDown _ (by omega)
  intro j hj
  rw [List.getElem?_eraseIdx, Function.update_of_ne (by split <;> omega)]
  split
  · exact h j (by omega)
  · exact h (j + 1) (by omega)

end Places
