import Homeworks.Hashing.Probes
import Homeworks.Java.Text
import Mathlib.Data.Nat.Sqrt
import Mathlib.Tactic.Ring

/-!
# Probes that wrap around

The loop over the indices of a key, with the arithmetic of `int`.  It ends in the table if it
does before an index overflows; after that the index is negative, unless it is 0.
-/

namespace Hashing

namespace GTUHashMap

variable {K V : Type*} [BEq K]

/-- The loop of the operations; there is no result if an index is outside of the table, or if the
loop takes more steps than `fuel` says. -/
def wrappedLoop (m : GTUHashMap K V) (key : K) (startIndex : Fin m.length) :
    Nat → Int → Int → Option (Probe m.length)
  | 0, _, _ => none
  | fuel + 1, index, i =>
      if h : 0 ≤ index ∧ index < m.length then
        let place : Fin m.length := ⟨index.toNat, m.toNat_lt h⟩
        match getElem m.table place (m.index_lt place) with
        | none => some (.stopped place)
        | some entry =>
            if holdsKey entry key then
              some (.found place)
            else
              let index := (Java.wrap (startIndex + Java.wrap (i * i))).tmod m.length
              if index = startIndex then
                some (.stopped startIndex)
              else
                wrappedLoop m key startIndex fuel index (Java.wrap (i + 1))
      else
        none

/-- The loop for a key ends, and all its indices are in the table. -/
def Probes (hashCode : K → BitVec 32) (m : GTUHashMap K V) (key : K) (result : Probe m.length) :
    Prop :=
  ∃ fuel, m.wrappedLoop key (m.getIndex hashCode key) fuel (m.getIndex hashCode key) 1 = some result

/-! ### One step -/

variable {hashCode : K → BitVec 32} {m : GTUHashMap K V} {key : K} {startIndex place : Fin m.length}
  {fuel j : Nat} {i : Int}

theorem wrappedLoop_of_stops (h : m.stops key place = true) :
  ∃ result, m.wrappedLoop key startIndex (fuel + 1) place i = some result
  := by
  have hrange : (0 : Int) ≤ place.val ∧ (place.val : Int) < m.length := by omega
  rw [stops] at h
  rw [wrappedLoop, dif_pos hrange]
  simp only [Int.toNat_natCast, Fin.eta]
  cases hentry : m.table[place] with
  | none => exact ⟨_, rfl⟩
  | some entry =>
      rw [hentry, Option.all_some] at h
      dsimp only
      rw [if_pos h]
      exact ⟨_, rfl⟩

theorem wrappedLoop_of_not_stops (h : m.stops key place = false) :
  m.wrappedLoop key startIndex (fuel + 1) place i =
    if (Java.wrap (startIndex + Java.wrap (i * i))).tmod m.length = startIndex then
      some (.stopped startIndex)
    else
      m.wrappedLoop key startIndex fuel
        ((Java.wrap (startIndex + Java.wrap (i * i))).tmod m.length) (Java.wrap (i + 1))
  := by
  have hrange : (0 : Int) ≤ place.val ∧ (place.val : Int) < m.length := by omega
  obtain ⟨entry, hentry, hkey⟩ := stops_eq_false.mp h
  rw [wrappedLoop, dif_pos hrange]
  simp only [Int.toNat_natCast, Fin.eta, hentry, hkey, Bool.false_eq_true, if_false]

theorem wrappedLoop_of_neg {index : Int} (h : index < 0) :
  m.wrappedLoop key startIndex fuel index i = none
  := by
  cases fuel with
  | zero => rfl
  | succ fuel =>
      rw [wrappedLoop, dif_neg]
      omega

theorem probes_of_none
    (h : getElem m.table (m.getIndex hashCode key) (m.getIndex hashCode key).isLt = none) :
  m.Probes hashCode key (.stopped (m.getIndex hashCode key))
  := by
  have hrange : (0 : Int) ≤ (m.getIndex hashCode key).val
      ∧ ((m.getIndex hashCode key).val : Int) < m.length := by omega
  refine ⟨1, ?_⟩
  rw [wrappedLoop, dif_pos hrange]
  simp only [Int.toNat_natCast, Fin.eta, h]

theorem probes_of_holdsKey {entry : Entry K V}
    (h : getElem m.table (m.getIndex hashCode key) (m.getIndex hashCode key).isLt = some entry)
    (hkey : holdsKey entry key = true) :
  m.Probes hashCode key (.found (m.getIndex hashCode key))
  := by
  have hrange : (0 : Int) ≤ (m.getIndex hashCode key).val
      ∧ ((m.getIndex hashCode key).val : Int) < m.length := by omega
  refine ⟨1, ?_⟩
  rw [wrappedLoop, dif_pos hrange]
  simp only [Int.toNat_natCast, Fin.eta, h, hkey, if_true]

/-! ### The next index -/

omit [BEq K] in
/-- The index of a value of `i`, as long as it does not overflow. -/
theorem next_exact (h : startIndex.val + j * j ≤ 2147483647) :
  (Java.wrap (startIndex + Java.wrap (j * j))).tmod m.length
    = Probing.slot m.length startIndex j
  := by
  have hsum : (startIndex.val : Int) + (j : Int) * j = (startIndex.val + j * j : Nat) := by
    push_cast
    rfl
  rw [Java.wrap_add_wrap, hsum, Java.wrap_eq, Int.tmod_eq_emod_of_nonneg (by omega), Probing.slot]
  · rfl
  · rw [Java.isInt_iff]
    omega

omit [BEq K] in
/-- The index of a value of `i` that overflows. -/
theorem next_overflow (h : 2147483647 < startIndex.val + j * j)
    (h' : startIndex.val + j * j < 4294967296) :
  (Java.wrap (startIndex + Java.wrap (j * j))).tmod m.length
    = -((4294967296 - (startIndex.val + j * j)) % m.length : Nat)
  := by
  have hsum : (startIndex.val : Int) + (j : Int) * j = (startIndex.val + j * j : Nat) := by
    push_cast
    rfl
  have hneg : ((startIndex.val + j * j : Nat) : Int) - 4294967296
      = -((4294967296 - (startIndex.val + j * j) : Nat) : Int) := by omega
  rw [Java.wrap_add_wrap, hsum, Java.wrap_overflow (by omega) (by omega), hneg, Int.neg_tmod,
    Int.tmod_eq_emod_of_nonneg (by omega)]
  rfl

theorem wrap_add_one (h : j < 2147483647) :
  Java.wrap ((j : Int) + 1) = (j + 1 : Nat)
  := by
  rw [Java.wrap_eq]
  · rfl
  · rw [Java.isInt_iff]
    omega

/-! ### The end of the loop -/

/-- The loop ends at an index before one overflows: there is no entry or one with the key, or the
index is that of the start again. -/
def EndsBefore (hashCode : K → BitVec 32) (m : GTUHashMap K V) (key : K) : Prop :=
  ∃ i, (m.getIndex hashCode key).val + i * i ≤ 2147483647
    ∧ (m.stops key (m.indexOf hashCode key i) = true
      ∨ (0 < i ∧ m.indexOf hashCode key i = m.getIndex hashCode key))

/-- The first value of `i` that overflows. -/
def overflowAt (start : Nat) : Nat := Nat.sqrt (2147483647 - start) + 1

def firstPlace (m : GTUHashMap K V) : Fin m.length := ⟨0, m.length_pos⟩

/-- The first index that overflows is 0, and the loop ends there. -/
def EndsAtZero (hashCode : K → BitVec 32) (m : GTUHashMap K V) (key : K) : Prop :=
  let startIndex := (m.getIndex hashCode key).val
  m.length ∣ 4294967296 - (startIndex + overflowAt startIndex * overflowAt startIndex)
    ∧ (startIndex = 0 ∨ m.stops key m.firstPlace = true)

/-- The keys for which the loop ends in the table. -/
def Fits (hashCode : K → BitVec 32) (m : GTUHashMap K V) (key : K) : Prop :=
  m.EndsBefore hashCode key ∨ m.EndsAtZero hashCode key

theorem lt_overflowAt {start : Nat} (hstart : start ≤ 2147483647) :
  j < overflowAt start ↔ start + j * j ≤ 2147483647
  := by
  rw [overflowAt, Nat.lt_succ_iff, Nat.le_sqrt]
  omega

/-- The first values of `i` that overflow do not overflow more than once. -/
theorem overflowAt_bounds {start k : Nat} (hstart : start ≤ 2147483647) (hk : k ≤ 2) :
  2147483647 < start + (overflowAt start + k) * (overflowAt start + k)
    ∧ start + (overflowAt start + k) * (overflowAt start + k) < 4294967296
    ∧ overflowAt start ≤ 46341
  := by
  have hsqrt : Nat.sqrt (2147483647 - start) * Nat.sqrt (2147483647 - start) ≤ 2147483647 - start :=
    Nat.sqrt_le _
  have hle : Nat.sqrt (2147483647 - start) ≤ 46340 := by
    by_contra hgt
    have hmul : 46341 * 46341 ≤ Nat.sqrt (2147483647 - start) * Nat.sqrt (2147483647 - start) :=
      Nat.mul_le_mul (by omega) (by omega)
    omega
  refine ⟨?_, ?_, Nat.succ_le_succ hle⟩
  · rw [← Nat.not_le, ← lt_overflowAt hstart]
    omega
  · have hsquare : (overflowAt start + k) * (overflowAt start + k)
        ≤ (Nat.sqrt (2147483647 - start) + 3) * (Nat.sqrt (2147483647 - start) + 3) :=
      Nat.mul_le_mul (by rw [overflowAt]; omega) (by rw [overflowAt]; omega)
    have hexpand : (Nat.sqrt (2147483647 - start) + 3) * (Nat.sqrt (2147483647 - start) + 3)
        = Nat.sqrt (2147483647 - start) * Nat.sqrt (2147483647 - start)
          + 6 * Nat.sqrt (2147483647 - start) + 9 := by ring
    omega

variable (hlength : m.length ≤ 2147483647)
include hlength

omit [BEq K] in
theorem getIndex_le :
  (m.getIndex hashCode key).val ≤ 2147483647
  := (m.getIndex hashCode key).isLt.le.trans hlength

/-- The loop ends after `n` more steps, at an index that does not overflow. -/
theorem exists_of_endsBefore (n : Nat) :
  (m.getIndex hashCode key).val + (j + n) * (j + n) ≤ 2147483647 →
    (m.stops key (m.indexOf hashCode key (j + n)) = true
      ∨ (0 < n ∧ m.indexOf hashCode key (j + n) = m.getIndex hashCode key)) →
    ∃ fuel result, m.wrappedLoop key (m.getIndex hashCode key) fuel (m.indexOf hashCode key j)
      (j + 1 : Nat) = some result
  := by
  induction n generalizing j with
  | zero =>
      rintro - (hstops | ⟨hpos, -⟩)
      · exact ⟨1, wrappedLoop_of_stops hstops⟩
      · exact absurd hpos (Nat.lt_irrefl 0)
  | succ n ih =>
      intro hexact hend
      cases hstops : m.stops key (m.indexOf hashCode key j) with
      | true => exact ⟨1, wrappedLoop_of_stops hstops⟩
      | false =>
          have hstart : (m.getIndex hashCode key).val ≤ 2147483647 := getIndex_le hlength
          have hbound := (overflowAt_bounds hstart (Nat.zero_le 2)).2.2
          have hlt := (lt_overflowAt hstart).mpr hexact
          have hexact' : (m.getIndex hashCode key).val + (j + 1) * (j + 1) ≤ 2147483647 :=
            (lt_overflowAt hstart).mp (by omega)
          have hnext : (Java.wrap ((m.getIndex hashCode key).val
              + Java.wrap ((j + 1 : Nat) * (j + 1 : Nat)))).tmod m.length
                = (m.indexOf hashCode key (j + 1)).val := next_exact hexact'
          have hsame : (((m.indexOf hashCode key (j + 1)).val : Int)
            = (m.getIndex hashCode key).val)
              ↔ m.indexOf hashCode key (j + 1) = m.getIndex hashCode key := by
            rw [Int.ofNat_inj, Fin.ext_iff]
          by_cases hback : m.indexOf hashCode key (j + 1) = m.getIndex hashCode key
          · refine ⟨1, .stopped (m.getIndex hashCode key), ?_⟩
            rw [wrappedLoop_of_not_stops hstops, hnext, if_pos (hsame.mpr hback)]
          · have hend' : m.stops key (m.indexOf hashCode key (j + 1 + n)) = true
                ∨ (0 < n ∧ m.indexOf hashCode key (j + 1 + n) = m.getIndex hashCode key) := by
              rw [Nat.add_right_comm j 1 n]
              refine hend.imp_right fun h => ⟨?_, h.2⟩
              rw [Nat.pos_iff_ne_zero]
              rintro rfl
              exact hback h.2
            obtain ⟨fuel, result, hresult⟩ := ih (by rwa [Nat.add_right_comm j 1 n]) hend'
            refine ⟨fuel + 1, result, ?_⟩
            rw [wrappedLoop_of_not_stops hstops, hnext, if_neg fun h => hback (hsame.mp h),
              wrap_add_one (by omega)]
            exact hresult

/-- A loop that does not end before an index overflows gets there. -/
theorem skip_of_not_endsBefore (h : ¬ m.EndsBefore hashCode key) (n : Nat) :
  j + n < overflowAt (m.getIndex hashCode key).val →
    m.wrappedLoop key (m.getIndex hashCode key) (n + fuel) (m.indexOf hashCode key j) (j + 1 : Nat)
      = m.wrappedLoop key (m.getIndex hashCode key) fuel (m.indexOf hashCode key (j + n))
        (j + n + 1 : Nat)
  := by
  have hstart : (m.getIndex hashCode key).val ≤ 2147483647 := getIndex_le hlength
  induction n generalizing j with
  | zero =>
      intro _
      rw [Nat.zero_add]
      rfl
  | succ n ih =>
      intro hlt
      have hbound := (overflowAt_bounds hstart (Nat.zero_le 2)).2.2
      have hexact : (m.getIndex hashCode key).val + (j + 1) * (j + 1) ≤ 2147483647 :=
        (lt_overflowAt hstart).mp (by omega)
      have hstops : m.stops key (m.indexOf hashCode key j) = false := by
        rw [← Bool.not_eq_true]
        exact fun hstops => h ⟨j, (lt_overflowAt hstart).mp (by omega), .inl hstops⟩
      have hback : m.indexOf hashCode key (j + 1) ≠ m.getIndex hashCode key :=
        fun hback => h ⟨j + 1, hexact, .inr ⟨Nat.succ_pos j, hback⟩⟩
      have hnext : (Java.wrap ((m.getIndex hashCode key).val
          + Java.wrap ((j + 1 : Nat) * (j + 1 : Nat)))).tmod m.length
            = (m.indexOf hashCode key (j + 1)).val := next_exact hexact
      have hne : ¬ ((m.indexOf hashCode key (j + 1)).val : Int)
        = (m.getIndex hashCode key).val := by
        rwa [Int.ofNat_inj, ← Fin.ext_iff]
      rw [Nat.add_right_comm n 1 fuel, wrappedLoop_of_not_stops hstops, hnext, if_neg hne,
        wrap_add_one (by omega), ih (by omega), Nat.add_assoc j 1 n, Nat.add_comm 1 n]

/-- The step in which an index overflows, for the first time or once more. -/
theorem overflow_step {k : Nat} (hk : k ≤ 2) (hstops : m.stops key place = false) :
  m.wrappedLoop key startIndex (fuel + 1) place (overflowAt startIndex.val + k : Nat) =
    if m.length ∣ 4294967296
        - (startIndex.val + (overflowAt startIndex.val + k) * (overflowAt startIndex.val + k)) then
      if startIndex.val = 0 then
        some (.stopped startIndex)
      else
        m.wrappedLoop key startIndex fuel m.firstPlace (overflowAt startIndex.val + (k + 1) : Nat)
    else
      none
  := by
  have hstart : startIndex.val ≤ 2147483647 := startIndex.isLt.le.trans hlength
  obtain ⟨hover, hunder, hbound⟩ := overflowAt_bounds hstart hk
  rw [wrappedLoop_of_not_stops hstops, next_overflow hover hunder, wrap_add_one (by omega)]
  by_cases hdvd : m.length ∣ 4294967296
      - (startIndex.val + (overflowAt startIndex.val + k) * (overflowAt startIndex.val + k))
  · rw [if_pos hdvd, Nat.mod_eq_zero_of_dvd hdvd]
    by_cases hzero : startIndex.val = 0
    · rw [if_pos hzero, if_pos]
      rw [hzero]
      rfl
    · rw [if_neg hzero, if_neg]
      · rfl
      · intro heq
        apply hzero
        rw [← Int.ofNat_inj, ← heq]
        rfl
  · have hpos : 0 < (4294967296
        - (startIndex.val + (overflowAt startIndex.val + k) * (overflowAt startIndex.val + k)))
          % m.length := by
      rw [Nat.pos_iff_ne_zero]
      exact fun hzero => hdvd (Nat.dvd_of_mod_eq_zero hzero)
    rw [if_neg hdvd, if_neg (by omega), wrappedLoop_of_neg (by omega)]

omit [BEq K] hlength in
/-- A number that divides the distances of three squares in a row divides 2. -/
theorem dvd_two {p n s r : Nat} (hle : s + (r + 2) * (r + 2) ≤ n) (h₀ : p ∣ n - (s + r * r))
    (h₁ : p ∣ n - (s + (r + 1) * (r + 1))) (h₂ : p ∣ n - (s + (r + 2) * (r + 2))) :
  p ∣ 2
  := by
  have hone : (r + 1) * (r + 1) = r * r + 2 * r + 1 := by ring
  have htwo : (r + 2) * (r + 2) = r * r + 4 * r + 4 := by ring
  have hsum : (n - (s + (r + 1) * (r + 1))) * 2
      = (n - (s + r * r)) + (n - (s + (r + 2) * (r + 2))) + 2 := by omega
  rw [← Nat.dvd_add_right (Nat.dvd_add h₀ h₂), ← hsum]
  exact Nat.dvd_mul_right_of_dvd h₁ 2

omit hlength in
/-- A table of one or two places is left soon. -/
theorem endsBefore_of_dvd_two (h : m.length ∣ 2) :
  m.EndsBefore hashCode key
  := by
  have hle := Nat.le_of_dvd (by decide) h
  have hlt := (m.getIndex hashCode key).isLt
  refine ⟨2, by omega, .inr ⟨by decide, ?_⟩⟩
  obtain ⟨c, hc⟩ := h
  apply Fin.ext
  change ((m.getIndex hashCode key).val + 2 * 2) % m.length = _
  have hfour : 2 * 2 = m.length * (c * 2) := by rw [← Nat.mul_assoc, ← hc]
  rw [hfour, Nat.add_mul_mod_self_left, Nat.mod_eq_of_lt hlt]

/-- The loop from the step in which the first index overflows. -/
theorem overflow_iff (hbefore : ¬ m.EndsBefore hashCode key) (hstops : m.stops key place = false) :
  (∃ fuel result, m.wrappedLoop key (m.getIndex hashCode key) fuel place
      (overflowAt (m.getIndex hashCode key).val : Nat) = some result)
    ↔ m.EndsAtZero hashCode key
  := by
  have hzero : ∀ fuel, m.wrappedLoop key (m.getIndex hashCode key) (fuel + 1) place
      (overflowAt (m.getIndex hashCode key).val + 0 : Nat) = _ :=
    fun fuel => overflow_step hlength (Nat.zero_le 2) hstops
  simp only [Nat.add_zero] at hzero
  constructor
  · rintro ⟨fuel, result, hresult⟩
    cases fuel with
    | zero => cases hresult
    | succ fuel =>
        rw [hzero] at hresult
        split at hresult
        · rename_i hdvd
          refine ⟨hdvd, ?_⟩
          split at hresult
          · rename_i hstart
            exact .inl hstart
          · rename_i hstart
            right
            rw [← Bool.not_eq_false]
            intro hfirst
            cases fuel with
            | zero => cases hresult
            | succ fuel =>
                rw [overflow_step hlength (by decide) hfirst, if_neg hstart] at hresult
                split at hresult
                · rename_i hdvd₁
                  cases fuel with
                  | zero => cases hresult
                  | succ fuel =>
                      rw [overflow_step hlength (Nat.le_refl 2) hfirst, if_neg hstart] at hresult
                      split at hresult
                      · rename_i hdvd₂
                        apply hbefore
                        apply endsBefore_of_dvd_two
                        have hstart : (m.getIndex hashCode key).val ≤ 2147483647 :=
                          getIndex_le hlength
                        exact dvd_two (overflowAt_bounds hstart (Nat.le_refl 2)).2.1.le hdvd hdvd₁
                          hdvd₂
                      · cases hresult
                · cases hresult
        · cases hresult
  · rintro ⟨hdvd, hend⟩
    rcases hend with hstart | hfirst
    · refine ⟨1, .stopped (m.getIndex hashCode key), ?_⟩
      rw [hzero, if_pos hdvd, if_pos hstart]
    · have hnext : ∃ result, m.wrappedLoop key (m.getIndex hashCode key) (0 + 1) m.firstPlace
          (overflowAt (m.getIndex hashCode key).val + (0 + 1) : Nat) = some result :=
        wrappedLoop_of_stops hfirst
      obtain ⟨result, hresult⟩ := hnext
      by_cases hstart : (m.getIndex hashCode key).val = 0
      · refine ⟨1, .stopped (m.getIndex hashCode key), ?_⟩
        rw [hzero, if_pos hdvd, if_pos hstart]
      · refine ⟨2, result, ?_⟩
        rw [hzero, if_pos hdvd, if_neg hstart]
        exact hresult

/-- The loop for a key ends in the table if and only if the key fits. -/
theorem exists_probes_iff :
  (∃ result, m.Probes hashCode key result) ↔ m.Fits hashCode key
  := by
  have hstart : (m.getIndex hashCode key).val ≤ 2147483647 := getIndex_le hlength
  have hfirst : ∀ fuel, m.wrappedLoop key (m.getIndex hashCode key) fuel (m.getIndex hashCode key) 1
      = m.wrappedLoop key (m.getIndex hashCode key) fuel (m.indexOf hashCode key 0)
      (0 + 1 : Nat) := by
    intro fuel
    rw [indexOf_zero]
    rfl
  by_cases hbefore : m.EndsBefore hashCode key
  · refine iff_of_true ?_ (.inl hbefore)
    obtain ⟨i, hexact, hend⟩ := hbefore
    rw [← Nat.zero_add i] at hexact hend
    replace hend := hend.imp_right fun h => And.intro (Nat.zero_add i ▸ h.1) h.2
    obtain ⟨fuel, result, hresult⟩ := exists_of_endsBefore hlength i hexact hend
    exact ⟨result, fuel, (hfirst fuel).trans hresult⟩
  · have hpos : 0 < overflowAt (m.getIndex hashCode key).val := Nat.succ_pos _
    have hstops : m.stops key
        (m.indexOf hashCode key (0 + (overflowAt (m.getIndex hashCode key).val - 1))) = false := by
      rw [← Bool.not_eq_true]
      exact fun hstops => hbefore ⟨_, (lt_overflowAt hstart).mp (by omega), .inl hstops⟩
    have hskip : ∀ fuel, m.wrappedLoop key (m.getIndex hashCode key)
        (overflowAt (m.getIndex hashCode key).val - 1 + fuel) (m.getIndex hashCode key) 1
          = m.wrappedLoop key (m.getIndex hashCode key) fuel
            (m.indexOf hashCode key (0 + (overflowAt (m.getIndex hashCode key).val - 1)))
            (overflowAt (m.getIndex hashCode key).val : Nat) := by
      intro fuel
      rw [hfirst, skip_of_not_endsBefore hlength hbefore _ (by omega),
        show 0 + (overflowAt (m.getIndex hashCode key).val - 1) + 1
          = overflowAt (m.getIndex hashCode key).val by omega]
    rw [Fits, or_iff_right hbefore, ← overflow_iff hlength hbefore hstops]
    constructor
    · rintro ⟨result, fuel, hresult⟩
      by_cases hfuel : fuel < overflowAt (m.getIndex hashCode key).val
      · rw [hfirst, ← Nat.add_zero fuel, skip_of_not_endsBefore hlength hbefore fuel (by omega)]
          at hresult
        cases hresult
      · refine ⟨fuel - (overflowAt (m.getIndex hashCode key).val - 1), result, ?_⟩
        rw [← hskip, Nat.add_sub_cancel' (by omega)]
        exact hresult
    · rintro ⟨fuel, result, hresult⟩
      exact ⟨result, _, (hskip fuel).trans hresult⟩

end GTUHashMap

end Hashing
