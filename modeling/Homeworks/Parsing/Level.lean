import Mathlib.Algebra.BigOperators.Group.List.Basic
import Mathlib.Data.Int.Order.Basic
import Mathlib.Data.List.Infix
import Mathlib.Tactic.Ring

/-!
# Levels

Every letter raises or lowers a level.  A word stays up from a level when the level is never below
zero, neither before the word nor after any of its letters.
-/

namespace Parsing

variable {α : Type} (weight : α → ℤ)

/-- By how much a word raises the level. -/
def level (s : List α) : ℤ := (s.map weight).sum

/-- The level does not fall below zero. -/
def StaysUp : ℤ → List α → Prop
  | d, [] => 0 ≤ d
  | d, a :: s => 0 ≤ d ∧ StaysUp (d + weight a) s

instance : ∀ d s, Decidable (StaysUp weight d s)
  | d, [] => inferInstanceAs (Decidable (0 ≤ d))
  | d, a :: s =>
      haveI := instDecidableStaysUp (d + weight a) s
      inferInstanceAs (Decidable (0 ≤ d ∧ StaysUp weight (d + weight a) s))

variable {weight} {d : ℤ} {a : α} {s t : List α}

@[simp]
theorem level_nil :
  level weight [] = 0
  := rfl

@[simp]
theorem level_cons :
  level weight (a :: s) = weight a + level weight s
  := List.sum_cons

@[simp]
theorem level_append :
  level weight (s ++ t) = level weight s + level weight t
  := by
  rw [level, List.map_append, List.sum_append]
  rfl

@[simp]
theorem staysUp_nil :
  StaysUp weight d [] ↔ 0 ≤ d
  := Iff.rfl

@[simp]
theorem staysUp_cons :
  StaysUp weight d (a :: s) ↔ 0 ≤ d ∧ StaysUp weight (d + weight a) s
  := Iff.rfl

theorem StaysUp.nonneg (h : StaysUp weight d s) :
  0 ≤ d
  := by
  cases s with
  | nil => exact h
  | cons a s => exact h.1

/-- A word that stays up ends at a level that is not below zero. -/
theorem StaysUp.nonneg_end (h : StaysUp weight d s) :
  0 ≤ d + level weight s
  := by
  induction s generalizing d with
  | nil => simpa using h
  | cons a s ih =>
      rw [level_cons, ← add_assoc]
      exact ih h.2

@[simp]
theorem staysUp_append :
  StaysUp weight d (s ++ t) ↔ StaysUp weight d s ∧ StaysUp weight (d + level weight s) t
  := by
  induction s generalizing d with
  | nil =>
      rw [List.nil_append, level_nil, add_zero]
      exact ⟨fun h => ⟨h.nonneg, h⟩, fun h => h.2⟩
  | cons a s ih =>
      rw [List.cons_append, staysUp_cons, staysUp_cons, ih, level_cons, add_assoc, and_assoc]

/-- The level in front of each letter and at the end. -/
theorem staysUp_iff :
  StaysUp weight d s ↔ ∀ front, front <+: s → 0 ≤ d + level weight front
  := by
  constructor
  · rintro h front ⟨rest, rfl⟩
    exact (staysUp_append.mp h).1.nonneg_end
  · intro h
    induction s generalizing d with
    | nil => simpa using h [] List.prefix_rfl
    | cons a s ih =>
        constructor
        · simpa using h [] List.nil_prefix
        · refine ih fun front hfront => ?_
          have hcons := h (a :: front) (List.cons_prefix_cons.mpr ⟨rfl, hfront⟩)
          rwa [level_cons, ← add_assoc] at hcons

/-- Letters of weight zero do not matter. -/
theorem level_of_silent (h : ∀ a ∈ s, weight a = 0) :
  level weight s = 0
  := by
  rw [level, List.map_congr_left h]
  simp

theorem staysUp_of_silent (h : ∀ a ∈ s, weight a = 0) :
  StaysUp weight d s ↔ 0 ≤ d
  := by
  induction s with
  | nil => rfl
  | cons a s ih =>
      rw [staysUp_cons, h a List.mem_cons_self, add_zero,
        ih fun b hb => h b (List.mem_cons_of_mem a hb), and_self]

end Parsing
