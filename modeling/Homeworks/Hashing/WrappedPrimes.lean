import Homeworks.Hashing.Primes
import Homeworks.Java.Text
import Mathlib.Tactic.NormNum.Prime

/-!
# Lengths of tables that wrap around

`isPrime` and `nextPrime` with the arithmetic of `int`.  They are exact for the lengths that are
not too large.
-/

namespace Hashing

/-- The loop of `isPrime`; there is no result if it takes more steps than `fuel` says. -/
def wrappedNoDivisor : Nat → Int → Int → Option Bool
  | 0, _, _ => none
  | fuel + 1, n, i =>
      if Java.wrap (i * i) ≤ n then
        if n.tmod i = 0 || n.tmod (Java.wrap (i + 2)) = 0 then
          some false
        else
          wrappedNoDivisor fuel n (Java.wrap (i + 6))
      else
        some true

def wrappedIsPrime (fuel : Nat) (n : Int) : Option Bool :=
  if n ≤ 1 then
    some false
  else if n ≤ 3 then
    some true
  else if n.tmod 3 = 0 then
    some false
  else
    wrappedNoDivisor fuel n 5

/-- The loop of `nextPrime`. -/
def wrappedPrimeFrom : Nat → Int → Option Int
  | 0, _ => none
  | fuel + 1, n =>
      match wrappedIsPrime fuel n with
      | none => none
      | some true => some n
      | some false => wrappedPrimeFrom fuel (Java.wrap (n + 2))

def wrappedNextPrime (fuel : Nat) (n : Int) : Option Int :=
  if n ≤ 2 then
    some 2
  else if n.tmod 2 = 0 then
    wrappedPrimeFrom fuel (Java.wrap (n + 1))
  else
    wrappedPrimeFrom fuel n

/-- `nextPrime` returns a number. -/
def NextPrime (n p : Int) : Prop := ∃ fuel, wrappedNextPrime fuel n = some p

theorem isInt_of_wrappedPrimeFrom {fuel : Nat} {n p : Int} (hn : Java.IsInt n) :
  wrappedPrimeFrom fuel n = some p → Java.IsInt p
  := by
  induction fuel generalizing n with
  | zero =>
      intro h
      cases h
  | succ fuel ih =>
      rw [wrappedPrimeFrom]
      split
      · intro h
        cases h
      · intro h
        cases h
        exact hn
      · exact ih (Java.isInt_wrap _)

theorem NextPrime.isInt {n p : Int} (h : NextPrime n p) (hn : Java.IsInt n) :
  Java.IsInt p
  := by
  obtain ⟨fuel, h⟩ := h
  rw [wrappedNextPrime] at h
  split at h
  · cases h
    decide
  · split at h
    · exact isInt_of_wrappedPrimeFrom (Java.isInt_wrap _) h
    · exact isInt_of_wrappedPrimeFrom hn h

/-! ### Small numbers -/

theorem tmod_natCast (n i : Nat) :
  (n : Int).tmod i = (n % i : Nat)
  := by
  rw [Int.tmod_eq_emod_of_nonneg (by omega)]
  rfl

theorem wrap_natCast {n : Nat} (h : n ≤ 2147483647) :
  Java.wrap n = n
  := by
  rw [Java.wrap_eq]
  rw [Java.isInt_iff]
  omega

/-- A step of the loop of `isPrime` is exact. -/
theorem wrappedNoDivisor_step {fuel n i : Nat} (hi : i ≤ 1000) :
  wrappedNoDivisor (fuel + 1) n i =
    if i * i ≤ n then
      if n % i = 0 || n % (i + 2) = 0 then some false else wrappedNoDivisor fuel n (i + 6 : Nat)
    else
      some true
  := by
  have hsquare : i * i ≤ 1000 * 1000 := Nat.mul_le_mul hi hi
  have hwrap : Java.wrap ((i : Int) * i) = (i * i : Nat) := wrap_natCast (by omega)
  have htwo : Java.wrap ((i : Int) + 2) = (i + 2 : Nat) := wrap_natCast (n := i + 2) (by omega)
  have hsix : Java.wrap ((i : Int) + 6) = (i + 6 : Nat) := wrap_natCast (n := i + 6) (by omega)
  rw [wrappedNoDivisor, hwrap, htwo, hsix, tmod_natCast, tmod_natCast]
  simp only [Int.ofNat_le, Int.natCast_eq_zero]

theorem wrappedNoDivisor_eq {n i : Nat} (hn : n ≤ 524287) :
  i ≤ 1000 → ∃ steps, ∀ fuel, wrappedNoDivisor (fuel + steps) n i = some (hasNoDivisor n i)
  := by
  fun_induction hasNoDivisor n i with
  | case1 i hle hdivisor =>
      intro hi
      refine ⟨1, fun fuel => ?_⟩
      rw [wrappedNoDivisor_step hi, if_pos hle, if_pos hdivisor]
  | case2 i hle hdivisor ih =>
      intro hi
      have hsmall : i < 800 := by
        by_contra hge
        have hsquare : 800 * 800 ≤ i * i := Nat.mul_le_mul (by omega) (by omega)
        omega
      obtain ⟨steps, hsteps⟩ := ih (by omega)
      refine ⟨steps + 1, fun fuel => ?_⟩
      rw [← Nat.add_assoc, wrappedNoDivisor_step hi, if_pos hle, if_neg hdivisor, hsteps]
  | case3 i hgt =>
      intro hi
      refine ⟨1, fun fuel => ?_⟩
      rw [wrappedNoDivisor_step hi, if_neg hgt]

theorem wrappedIsPrime_eq {n : Nat} (hn : n ≤ 524287) :
  ∃ steps, ∀ fuel, wrappedIsPrime (fuel + steps) n = some (isPrime n)
  := by
  obtain ⟨steps, hsteps⟩ := wrappedNoDivisor_eq hn (show 5 ≤ 1000 by decide)
  refine ⟨steps, fun fuel => ?_⟩
  have hone : (n : Int) ≤ 1 ↔ n ≤ 1 := by omega
  have hthree : (n : Int) ≤ 3 ↔ n ≤ 3 := by omega
  have hmod : (n : Int).tmod 3 = 0 ↔ n % 3 = 0 := by
    rw [show (n : Int).tmod 3 = (n % 3 : Nat) from tmod_natCast n 3, Int.natCast_eq_zero]
  simp only [wrappedIsPrime, isPrime, hone, hthree, hmod]
  split
  · rfl
  · split
    · rfl
    · split
      · rfl
      · exact hsteps fuel

theorem wrappedPrimeFrom_eq {n : Nat} (hn : 2 < n) (hodd : n % 2 = 1) :
  leastPrime n ≤ 524287 →
    ∃ steps, ∀ fuel, wrappedPrimeFrom (fuel + steps) n = some (oddPrimeFrom n hn hodd : Int)
  := by
  fun_induction oddPrimeFrom n hn hodd with
  | case1 n hn hodd hprime =>
      intro hle
      obtain ⟨steps, hsteps⟩ := wrappedIsPrime_eq ((leastPrime_spec n).1.trans hle)
      refine ⟨steps + 1, fun fuel => ?_⟩
      rw [← Nat.add_assoc, wrappedPrimeFrom, hsteps, hprime]
  | case2 n hn hodd hprime ih =>
      intro hle
      have hsame := leastPrime_add_two hn hodd fun hp => hprime ((isPrime_iff hodd).mpr hp)
      have hbound := (leastPrime_spec n).1.trans hle
      obtain ⟨steps, hsteps⟩ := wrappedIsPrime_eq hbound
      obtain ⟨steps', hsteps'⟩ := ih (by rw [hsame]; exact hle)
      refine ⟨steps' + steps + 1, fun fuel => ?_⟩
      have hnext : Java.wrap ((n : Int) + 2) = (n + 2 : Nat) := wrap_natCast (n := n + 2) (by omega)
      rw [← Nat.add_assoc, wrappedPrimeFrom, ← Nat.add_assoc, hsteps,
        Bool.eq_false_of_not_eq_true hprime]
      dsimp only
      rw [hnext, Nat.add_right_comm, hsteps']

/-- The next prime of a number is exact if it is not too large. -/
theorem nextPrime_of_le {n : Nat} (h : nextPrime n ≤ 524287) :
  NextPrime n (nextPrime n)
  := by
  have hle := le_nextPrime n
  have hmod : (n : Int).tmod 2 = 0 ↔ (n : Int) % 2 = 0 := by
    rw [Int.tmod_eq_emod_of_nonneg (by omega)]
  simp only [NextPrime, wrappedNextPrime, nextPrime, hmod]
  split
  · exact ⟨0, rfl⟩
  · rename_i htwo
    split
    · rename_i heven
      have hnext : Java.wrap ((n : Int) + 1) = (n + 1 : Nat) :=
        wrap_natCast (n := n + 1) (by omega)
      have hbound : leastPrime (n + 1) ≤ 524287 := by
        rw [nextPrime, dif_neg htwo, dif_pos heven, oddPrimeFrom_eq] at h
        exact h
      obtain ⟨steps, hsteps⟩ := wrappedPrimeFrom_eq (n := n + 1) (by omega) (by omega) hbound
      refine ⟨0 + steps, ?_⟩
      rw [hnext, hsteps]
      rfl
    · have hbound : leastPrime n ≤ 524287 := by rwa [nextPrime_eq, Int.toNat_natCast] at h
      obtain ⟨steps, hsteps⟩ := wrappedPrimeFrom_eq (n := n) (by omega) (by omega) hbound
      exact ⟨0 + steps, hsteps 0⟩

/-- The next prime of a number that is not too large. -/
theorem nextPrime_le {n : Nat} (h : n ≤ 524287) :
  nextPrime n ≤ 524287
  := by
  rw [nextPrime_eq]
  exact leastPrime_le h (by norm_num)

end Hashing
