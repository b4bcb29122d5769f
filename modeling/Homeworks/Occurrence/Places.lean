import Mathlib.Data.List.Basic

/-!
# Places in a list

A place in a list has an element and what is before it.  The places with a property are counted.
-/

namespace Occurrence

variable {α : Type*} {P Q : List α → α → Prop} [∀ s a, Decidable (P s a)]
  [∀ s a, Decidable (Q s a)] {before l : List α}

/-- The number of places with a property in a list, where something is before it. -/
def places (P : List α → α → Prop) [∀ s a, Decidable (P s a)] (before : List α) : List α → ℕ
  | [] => 0
  | a :: l => (if P before a then 1 else 0) + places P (before ++ [a]) l

/-- At every place in a list, where something is before it. -/
def Everywhere (R : List α → α → Prop) (before l : List α) : Prop :=
  ∀ s a t, l = s ++ a :: t → R (before ++ s) a

theorem everywhere_cons {R : List α → α → Prop} {a : α} :
  Everywhere R before (a :: l) ↔ R before a ∧ Everywhere R (before ++ [a]) l
  := by
  constructor
  · intro h
    refine ⟨by simpa using h [] a l rfl, ?_⟩
    rintro s b t rfl
    simpa using h (a :: s) b t rfl
  · rintro ⟨ha, hl⟩ s b t heq
    cases s with
    | nil =>
        obtain ⟨rfl, -⟩ := List.cons.inj heq
        rwa [List.append_nil]
    | cons c s =>
        obtain ⟨rfl, rfl⟩ := List.cons.inj heq
        simpa using hl s b t rfl

theorem places_le (h : Everywhere (fun s a => P s a → Q s a) before l) :
  places P before l ≤ places Q before l
  := by
  induction l generalizing before with
  | nil => exact Nat.le_refl 0
  | cons a l ih =>
      obtain ⟨ha, hl⟩ := everywhere_cons.mp h
      refine Nat.add_le_add ?_ (ih hl)
      split_ifs with hP hQ
      · exact Nat.le_refl 1
      · exact absurd (ha hP) hQ
      · exact Nat.zero_le _
      · exact Nat.le_refl 0

/-- If one property implies another one, as many places have both if and only if the properties are
the same. -/
theorem places_eq_iff (h : Everywhere (fun s a => P s a → Q s a) before l) :
  places P before l = places Q before l ↔ Everywhere (fun s a => P s a ↔ Q s a) before l
  := by
  induction l generalizing before with
  | nil => exact iff_of_true rfl fun s a t heq => by cases s <;> cases heq
  | cons a l ih =>
      obtain ⟨ha, hl⟩ := everywhere_cons.mp h
      have hle := places_le hl
      rw [everywhere_cons, ← ih hl, places, places]
      by_cases hP : P before a
      · simp only [hP, ha hP, if_true, iff_self, true_and]
        omega
      · by_cases hQ : Q before a
        · simp only [hP, hQ, if_true, if_false, false_iff, not_true, false_and, iff_false]
          omega
        · simp [hP, hQ]

theorem places_congr (h : Everywhere (fun s a => P s a ↔ Q s a) before l) :
  places P before l = places Q before l
  := (places_eq_iff fun s a t heq => (h s a t heq).mp).mpr h

end Occurrence
