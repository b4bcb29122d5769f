import Mathlib.Data.Nat.Find
import Mathlib.Data.Nat.Prime.Basic
import Mathlib.Data.Nat.Prime.Infinite

/-!
# Lengths of tables

`isPrime` and `nextPrime` of `GTUHashMap`.  `isPrime` is only right for odd numbers, which are
those that it is called with.
-/

namespace Hashing

/-! ### Odd primes -/

/-- The loop of `isPrime`: divisors are tried from `i` on. -/
def hasNoDivisor (n i : Nat) : Bool :=
  if _h : i * i ≤ n then
    if n % i = 0 || n % (i + 2) = 0 then false else hasNoDivisor n (i + 6)
  else
    true
termination_by n + 6 - i
decreasing_by
  have hle := Nat.le_mul_self i
  omega

def isPrime (n : Nat) : Bool :=
  if n ≤ 1 then
    false
  else if n ≤ 3 then
    true
  else if n % 3 = 0 then
    false
  else
    hasNoDivisor n 5

variable {n i : Nat}

/-- No number from `i` on that is next to a multiple of 6 is a divisor. -/
theorem not_dvd_of_hasNoDivisor :
  hasNoDivisor n i = true → i % 6 = 5 →
    ∀ d, i ≤ d → d % 6 = 5 ∨ d % 6 = 1 → d * d ≤ n → ¬ d ∣ n
  := by
  fun_induction hasNoDivisor n i with
  | case1 i hle hdivisor => exact fun hfalse => absurd hfalse Bool.false_ne_true
  | case2 i hle hdivisor ih =>
      intro hrest hi d hid hd hdd
      rw [Bool.or_eq_true, decide_eq_true_iff, decide_eq_true_iff, not_or] at hdivisor
      have hcases : d = i ∨ d = i + 2 ∨ i + 6 ≤ d := by omega
      rcases hcases with rfl | rfl | hle'
      · exact fun hdvd => hdivisor.1 (Nat.mod_eq_zero_of_dvd hdvd)
      · exact fun hdvd => hdivisor.2 (Nat.mod_eq_zero_of_dvd hdvd)
      · exact ih hrest (by omega) d hle' hd hdd
  | case3 i hgt =>
      intro _ _ d hid _ hdd
      exact absurd ((Nat.mul_le_mul hid hid).trans hdd) hgt

/-- A divisor that is found is not the number itself. -/
theorem exists_dvd_of_hasNoDivisor :
  hasNoDivisor n i = false → 5 ≤ i → ∃ d, 1 < d ∧ d < n ∧ d ∣ n
  := by
  fun_induction hasNoDivisor n i with
  | case1 i hle hdivisor =>
      intro _ hi
      have hmul : 5 * i ≤ i * i := Nat.mul_le_mul_right i hi
      rw [Bool.or_eq_true, decide_eq_true_iff, decide_eq_true_iff] at hdivisor
      rcases hdivisor with hdivisor | hdivisor
      · exact ⟨i, by omega, by omega, Nat.dvd_of_mod_eq_zero hdivisor⟩
      · exact ⟨i + 2, by omega, by omega, Nat.dvd_of_mod_eq_zero hdivisor⟩
  | case2 i hle hdivisor ih => exact fun hrest hi => ih hrest (by omega)
  | case3 i hgt => exact fun htrue => absurd htrue.symm Bool.false_ne_true

/-- The loop decides whether a number without the factors 2 and 3 is prime. -/
theorem hasNoDivisor_iff (hn : 3 < n) (hodd : n % 2 = 1) (hthree : n % 3 ≠ 0) :
  hasNoDivisor n 5 = true ↔ n.Prime
  := by
  constructor
  · intro hloop
    by_contra hprime
    have hfactor : n.minFac.Prime := Nat.minFac_prime (by omega)
    have hdvd := n.minFac_dvd
    have hsq : n.minFac ^ 2 ≤ n := Nat.minFac_sq_le_self (by omega) hprime
    have htwo : n.minFac % 2 ≠ 0 := by
      intro heven
      have hmod := Nat.mod_eq_zero_of_dvd ((Nat.dvd_of_mod_eq_zero heven).trans hdvd)
      omega
    have hthree' : n.minFac % 3 ≠ 0 := by
      intro hmod
      exact hthree (Nat.mod_eq_zero_of_dvd ((Nat.dvd_of_mod_eq_zero hmod).trans hdvd))
    have hge := hfactor.two_le
    rw [Nat.pow_two] at hsq
    exact not_dvd_of_hasNoDivisor hloop rfl n.minFac (by omega) (by omega) hsq hdvd
  · intro hprime
    by_contra hloop
    obtain ⟨d, hd, hdn, hdvd⟩ :=
      exists_dvd_of_hasNoDivisor (Bool.eq_false_of_not_eq_true hloop) (Nat.le_refl 5)
    rcases hprime.eq_one_or_self_of_dvd d hdvd with rfl | rfl
    · exact Nat.lt_irrefl 1 hd
    · exact Nat.lt_irrefl d hdn

theorem isPrime_iff (hodd : n % 2 = 1) :
  isPrime n = true ↔ n.Prime
  := by
  rw [isPrime]
  split
  · rename_i hle
    exact ⟨fun hfalse => absurd hfalse Bool.false_ne_true,
      fun hprime => absurd hprime.one_lt (Nat.not_lt.mpr hle)⟩
  · split
    · obtain rfl : n = 3 := by omega
      exact ⟨fun _ => Nat.prime_three, fun _ => rfl⟩
    · split
      · rename_i hthree
        refine ⟨fun hfalse => absurd hfalse Bool.false_ne_true, fun hprime => ?_⟩
        have hdvd := Nat.dvd_of_mod_eq_zero hthree
        rcases hprime.eq_one_or_self_of_dvd 3 hdvd with heq | heq <;> omega
      · rename_i hthree
        exact hasNoDivisor_iff (by omega) hodd hthree

/-! ### The next prime -/

/-- The least prime that is at least a number. -/
def leastPrime (n : Nat) : Nat := Nat.find (Nat.exists_infinite_primes n)

theorem leastPrime_spec (n : Nat) :
  n ≤ leastPrime n ∧ (leastPrime n).Prime
  := Nat.find_spec (Nat.exists_infinite_primes n)

theorem leastPrime_le {p : Nat} (hle : n ≤ p) (hp : p.Prime) :
  leastPrime n ≤ p
  := Nat.find_min' (Nat.exists_infinite_primes n) ⟨hle, hp⟩

/-- After an odd number that is not prime the next odd number is tried. -/
theorem leastPrime_add_two (hn : 2 < n) (hodd : n % 2 = 1) (hprime : ¬ n.Prime) :
  leastPrime (n + 2) = leastPrime n
  := by
  obtain ⟨hle, hp⟩ := leastPrime_spec n
  obtain ⟨hle', hp'⟩ := leastPrime_spec (n + 2)
  have hne : leastPrime n ≠ n := fun heq => hprime (heq ▸ hp)
  have hodd' := Nat.Prime.eq_two_or_odd hp
  have hupper := leastPrime_le (show n + 2 ≤ leastPrime n by omega) hp
  have hlower := leastPrime_le (show n ≤ leastPrime (n + 2) by omega) hp'
  omega

/-- The loop of `nextPrime`. -/
def oddPrimeFrom (n : Nat) (hn : 2 < n) (hodd : n % 2 = 1) : Nat :=
  if _h : isPrime n then n else oddPrimeFrom (n + 2) (by omega) (by omega)
termination_by leastPrime n - n
decreasing_by
  have hprime : ¬ n.Prime := fun hprime => _h ((isPrime_iff hodd).mpr hprime)
  have hnext := leastPrime_add_two hn hodd hprime
  have hle := (leastPrime_spec (n + 2)).1
  omega

def nextPrime (n : Int) : Nat :=
  if h : n ≤ 2 then
    2
  else if heven : n % 2 = 0 then
    oddPrimeFrom (n.toNat + 1) (by omega) (by omega)
  else
    oddPrimeFrom n.toNat (by omega) (by omega)

theorem oddPrimeFrom_eq (hn : 2 < n) (hodd : n % 2 = 1) :
  oddPrimeFrom n hn hodd = leastPrime n
  := by
  fun_induction oddPrimeFrom n hn hodd with
  | case1 n hn hodd hprime =>
      have hle := leastPrime_le (Nat.le_refl n) ((isPrime_iff hodd).mp hprime)
      exact Nat.le_antisymm (leastPrime_spec n).1 hle
  | case2 n hn hodd hprime ih =>
      rw [ih, leastPrime_add_two hn hodd]
      exact fun hp => hprime ((isPrime_iff hodd).mpr hp)

theorem nextPrime_eq (n : Int) :
  nextPrime n = leastPrime n.toNat
  := by
  rw [nextPrime]
  split
  · have hle : n.toNat ≤ 2 := by omega
    exact Nat.le_antisymm (leastPrime_spec n.toNat).2.two_le (leastPrime_le hle Nat.prime_two)
  · split
    · rw [oddPrimeFrom_eq]
      obtain ⟨hle, hp⟩ := leastPrime_spec n.toNat
      obtain ⟨hle', hp'⟩ := leastPrime_spec (n.toNat + 1)
      have hodd := Nat.Prime.eq_two_or_odd hp
      have hupper := leastPrime_le (show n.toNat + 1 ≤ leastPrime n.toNat by omega) hp
      have hlower := leastPrime_le (show n.toNat ≤ leastPrime (n.toNat + 1) by omega) hp'
      omega
    · rw [oddPrimeFrom_eq]

theorem prime_nextPrime (n : Int) :
  (nextPrime n).Prime
  := by
  rw [nextPrime_eq]
  exact (leastPrime_spec n.toNat).2

theorem le_nextPrime (n : Int) :
  n ≤ nextPrime n
  := by
  have hle := (leastPrime_spec n.toNat).1
  rw [nextPrime_eq]
  omega

/-- The next prime is the least one that is large enough, and `isPrime` is right for the odd
numbers, the only ones that it is called with. -/
theorem nextPrime_isLeast :
  (∀ n : Int, IsLeast {p : Nat | p.Prime ∧ n ≤ p} (nextPrime n)) ∧
    ∀ n : Nat, isPrime (2 * n + 1) = true ↔ (2 * n + 1).Prime
  := by
  constructor
  · intro n
    constructor
    · exact ⟨prime_nextPrime n, le_nextPrime n⟩
    · intro p hp
      rw [nextPrime_eq]
      apply leastPrime_le _ hp.1
      have hle := hp.2
      omega
  · intro n
    apply isPrime_iff
    omega

end Hashing
