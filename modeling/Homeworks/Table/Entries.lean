import Mathlib.Algebra.BigOperators.Group.Finset.Piecewise
import Mathlib.Data.Finset.Card
import Mathlib.Data.Fintype.Card
import Mathlib.Data.List.Count
import Mathlib.Data.List.FinRange
import Mathlib.Tactic.Abel

/-!
# Tables

A table has finitely many entries, some of which are in use.  The number of entries in use
changes by one when an entry is taken or given up.
-/

namespace Table

variable {α : Type*} [Fintype α] {p q : α → Bool} {i : α}

/-- The entries in use. -/
def used (p : α → Bool) : Finset α := Finset.univ.filter fun i => p i

@[simp] theorem mem_used : i ∈ used p ↔ p i = true := by simp [used]

variable [DecidableEq α]

/-- Where one entry changes the number of entries in use changes by that entry. -/
theorem card_used (h : ∀ j, j ≠ i → q j = p j) :
  (used q).card + (p i).toNat = (used p).card + (q i).toNat
  := by
  have herase : (used q).erase i = (used p).erase i := by
    ext j
    rcases eq_or_ne j i with rfl | hj
    · simp
    · simp [hj, h j hj]
  have hcard : ∀ p : α → Bool, (used p).card = ((used p).erase i).card + (p i).toNat := by
    intro p
    cases hp : p i with
    | false => rw [Finset.erase_eq_of_notMem (by simp [hp])]; rfl
    | true => rw [← Finset.card_erase_add_one (mem_used.mpr hp)]; rfl
  rw [hcard p, hcard q, herase]
  omega

omit [Fintype α] in
/-- Where one entry changes the sum of the entries changes by that entry. -/
theorem sum_update {M : Type*} [AddCommGroup M] {t : Finset α} (h : i ∈ t) (f : α → M) (b : M) :
  ∑ j ∈ t, Function.update f i b j = ∑ j ∈ t, f j - f i + b
  := by
  rw [Finset.sum_update_of_mem h, Finset.sum_eq_add_sum_sdiff_singleton_of_mem h f]
  abel

variable {n : Nat} {s : Fin n → Bool} {k : Fin n}

/-- The first entry of a kind is of that kind. -/
theorem of_find (h : (List.finRange n).find? s = some k) :
  s k = true
  := List.find?_some h

/-- Where no entry is found there is none of the kind. -/
theorem of_not_find (h : (List.finRange n).find? s = none) (k : Fin n) :
  s k = false
  := by
  rw [← Bool.not_eq_true]
  apply List.find?_eq_none.mp h k (List.mem_finRange k)

/-- The only entry of a kind is found. -/
theorem find_eq (h : s k = true) (hs : ∀ j, s j = true → j = k) :
  (List.finRange n).find? s = some k
  := by
  cases hf : (List.finRange n).find? s with
  | none =>
      rw [of_not_find hf k] at h
      cases h
  | some j => rw [hs j (of_find hf)]

/-- The first entry of a kind is found. -/
theorem find_first (h : s k = true) (hs : ∀ j, j < k → s j = false) :
  (List.finRange n).find? s = some k
  := by
  rw [List.find?_eq_some_iff_getElem]
  refine ⟨h, k, by simp, by simp, ?_⟩
  intro j hj
  simpa using hs ⟨j, _⟩ hj

/-! ### Lists of entries -/

variable {β : Type*} {l : List β} {a b : β} {j : Nat}

/-- Where one entry of a list is replaced the number of those of a kind changes by that
entry. -/
theorem countP_set {p : β → Bool} (h : l[j]? = some a) (b : β) :
  (l.set j b).countP p + (p a).toNat = l.countP p + (p b).toNat
  := by
  obtain ⟨hlt, rfl⟩ := List.getElem?_eq_some_iff.mp h
  have hle : (p l[j]).toNat ≤ l.countP p := by
    cases hp : p l[j] with
    | false => exact Nat.zero_le _
    | true => exact List.countP_pos_iff.mpr ⟨_, List.getElem_mem hlt, hp⟩
  rw [List.countP_set hlt]
  cases hp : p l[j] with
  | false => cases p b <;> rfl
  | true =>
      rw [hp, Bool.toNat_true] at hle
      cases p b with
      | false => exact Nat.sub_add_cancel hle
      | true => exact congrArg (· + 1) (Nat.sub_add_cancel hle)

/-- An entry that has been replaced. -/
theorem get_set (h : l[j]? = some a) (b : β) :
  (l.set j b)[j]? = some b
  := by
  obtain ⟨hlt, -⟩ := List.getElem?_eq_some_iff.mp h
  apply List.getElem?_set_self hlt

end Table
