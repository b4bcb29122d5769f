import Mathlib.Data.Finset.Card
import Mathlib.Data.Finset.Range
import Mathlib.Data.Nat.ModEq
import Mathlib.Data.Nat.Prime.Basic

/-!
# Quadratic probing

The places `start + i * i` modulo a prime.  Those before the half of the prime are different,
and the start comes back at the multiples of the prime only.
-/

namespace Probing

def slot (p start i : Nat) : Nat := (start + i * i) % p

variable {p start i j : Nat}

theorem slot_lt (hp : 0 < p) :
  slot p start i < p
  := Nat.mod_lt _ hp

theorem slot_zero (h : start < p) :
  slot p start 0 = start
  := Nat.mod_eq_of_lt h

theorem slot_eq_start (hp : p.Prime) (h : start < p) :
  slot p start i = start ↔ p ∣ i
  := by
  constructor
  · intro hslot
    have hmod : start + i * i ≡ start + 0 [MOD p] := by
      rw [Nat.ModEq, Nat.add_zero, Nat.mod_eq_of_lt h]
      exact hslot
    have hdvd : p ∣ i * i := (Nat.modEq_zero_iff_dvd).mp (Nat.ModEq.add_left_cancel' start hmod)
    exact (hp.dvd_mul.mp hdvd).elim id id
  · rintro ⟨k, rfl⟩
    rw [slot, Nat.mul_assoc, Nat.add_mul_mod_self_left, Nat.mod_eq_of_lt h]

/-- The places before the half of the prime are different. -/
theorem slot_injective (hp : p.Prime) (hi : 2 * i < p) (hj : 2 * j < p)
    (h : slot p start i = slot p start j) :
  i = j
  := by
  have hlt : ∀ {i j : Nat}, 2 * j < p → slot p start i = slot p start j → ¬ i < j := by
    intro i j hj h hij
    have hmod : j * j ≡ i * i [MOD p] := (Nat.ModEq.add_left_cancel' start h).symm
    have hdvd : p ∣ j * j - i * i :=
      (Nat.modEq_iff_dvd' (Nat.mul_le_mul hij.le hij.le)).mp hmod.symm
    rw [Nat.mul_self_sub_mul_self_eq] at hdvd
    rcases hp.dvd_mul.mp hdvd with hsum | hdifference
    · have hle := Nat.le_of_dvd (by omega) hsum
      omega
    · have hle := Nat.le_of_dvd (by omega) hdifference
      omega
  have hij := hlt hj h
  have hji := hlt hi h.symm
  omega

/-- Fewer places than the half of the prime leave a place free. -/
theorem exists_free (hp : p.Prime) (start : Nat) {S : Finset Nat} (hS : 2 * S.card < p) :
  ∃ i < p, slot p start i ∉ S
  := by
  by_contra hfull
  have hsub : (Finset.range ((p + 1) / 2)).image (slot p start) ⊆ S := by
    intro x hx
    obtain ⟨i, hi, rfl⟩ := Finset.mem_image.mp hx
    by_contra hfree
    have hip := Finset.mem_range.mp hi
    exact hfull ⟨i, by omega, hfree⟩
  have hcard : ((Finset.range ((p + 1) / 2)).image (slot p start)).card = (p + 1) / 2 := by
    rw [Finset.card_image_of_injOn, Finset.card_range]
    intro i hi j hj h
    have hip := Finset.mem_range.mp (Finset.mem_coe.mp hi)
    have hjp := Finset.mem_range.mp (Finset.mem_coe.mp hj)
    exact slot_injective hp (by omega) (by omega) h
  have hle := Finset.card_le_card hsub
  omega

end Probing
