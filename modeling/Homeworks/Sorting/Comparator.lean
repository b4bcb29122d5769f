import Mathlib.Data.List.Pairwise
import Mathlib.Data.List.Perm.Basic
import Mathlib.Order.Defs.Unbundled
import Mathlib.Order.Lattice

/-!
# Sorting with a comparator

A function that sorts for every strict weak order.  Where elements are sorted by one key, they are
sorted by another one if and only if the two keys agree about all of them.
-/

namespace Comparator

variable {α β γ : Type*}

/-- The result is a permutation in which nothing is less than what is before it, if the comparator
is a strict weak order. -/
def Lawful (sort : (α → α → Bool) → List α → List α) : Prop :=
  ∀ lt, IsStrictWeakOrder α (fun a b => lt a b = true) → ∀ l,
    (sort lt l).Perm l ∧ (sort lt l).Pairwise fun a b => ¬lt b a = true

/-- What is not less than another, which is not less than a third. -/
theorem not_lt_trans {r : α → α → Prop} [IsStrictWeakOrder α r] {a b c : α} (hab : ¬r b a)
    (hbc : ¬r c b) :
  ¬r c a
  := by
  intro hca
  by_cases hlt : r a b
  · exact hbc (trans_of r hca hlt)
  · by_cases hlt' : r b c
    · exact hab (trans_of r hlt' hca)
    · exact (IsStrictWeakOrder.incomp_trans a b c ⟨hlt, hab⟩ ⟨hlt', hbc⟩).2 hca

/-- Merge sort is such a function. -/
theorem lawful_mergeSort :
  Lawful fun lt (l : List α) => l.mergeSort fun a b => !lt b a
  := by
  intro lt hlt l
  refine ⟨List.mergeSort_perm l _, ?_⟩
  refine (List.pairwise_mergeSort ?_ ?_ l).imp fun h => ?_
  · intro a b c hab hbc
    simp only [Bool.not_eq_true', Bool.eq_false_iff] at hab hbc ⊢
    exact not_lt_trans (r := fun a b => lt a b = true) hab hbc
  · intro a b
    cases hba : lt b a with
    | false => rfl
    | true =>
        cases hab : lt a b with
        | false => rfl
        | true =>
            have h := trans_of (fun a b => lt a b = true) hab hba
            exact absurd h (irrefl_of (fun a b => lt a b = true) a)
  · simpa using h

/-- A comparator that compares keys. -/
theorem isStrictWeakOrder_of_key [LinearOrder β] {lt : α → α → Bool} {key : α → β}
    (h : ∀ a b, lt a b = true ↔ key a < key b) :
  IsStrictWeakOrder α fun a b => lt a b = true
  where
  irrefl a hlt := lt_irrefl _ ((h a a).mp hlt)
  trans a b c hab hbc := (h a c).mpr (((h a b).mp hab).trans ((h b c).mp hbc))
  incomp_trans a b c hab hbc := by
    simp only [h, not_lt] at hab hbc ⊢
    exact ⟨hbc.1.trans hab.1, hab.2.trans hbc.2⟩

/-- What is sorted by a key is sorted by another. -/
theorem pairwise_le_iff [LinearOrder β] [LinearOrder γ] {f : α → β} {g : α → γ} {l : List α}
    (hg : l.Pairwise fun a b => ¬g b < g a) (hfg : ∀ a ∈ l, ∀ b ∈ l, g a = g b → f a = f b) :
  (l.Pairwise fun a b => f a ≤ f b) ↔ ∀ a ∈ l, ∀ b ∈ l, f a < f b → g a < g b
  := by
  constructor
  · intro hf a ha b hb
    refine List.Pairwise.forall_of_forall_of_flip (R := fun a b => f a < f b → g a < g b)
      (fun x _ hx => absurd hx (lt_irrefl _)) ?_ ?_ ha hb
    · refine hg.imp_of_mem fun {a b} ha hb hle hlt => lt_of_le_of_ne (not_lt.mp hle) fun heq => ?_
      exact hlt.ne (hfg a ha b hb heq)
    · exact hf.imp fun hle hlt => absurd hlt (not_lt.mpr hle)
  · intro h
    refine hg.imp_of_mem fun {a b} ha hb hle => ?_
    exact le_of_not_gt fun hlt => hle (h b hb a ha hlt)

end Comparator
