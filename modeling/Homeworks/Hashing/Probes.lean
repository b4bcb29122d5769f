import Homeworks.Hashing.GTUHashMap
import Homeworks.Probing.Quadratic
import Mathlib.Data.Fintype.Card

/-!
# Probes

Where the loop over the indices of a key ends.  In a valid table it ends at the entry with the
key, if there is one.
-/

namespace Hashing

namespace GTUHashMap

variable {K V : Type*} [BEq K] (hashCode : K → BitVec 32)

/-- The indices of a key, in the order of the loop. -/
def indexOf (m : GTUHashMap K V) (key : K) (i : Nat) : Fin m.length :=
  ⟨Probing.slot m.length (m.getIndex hashCode key) i, Probing.slot_lt m.length_pos⟩

/-- Whether the loop ends at an index: there is no entry, or one with the key. -/
def stops (m : GTUHashMap K V) (key : K) (index : Fin m.length) : Bool :=
  (getElem m.table index (m.index_lt index)).all fun entry => holdsKey entry key

variable {hashCode} {m : GTUHashMap K V} {key key' : K} {value : V} {i n : Nat}

omit [BEq K] in
theorem indexOf_zero :
  m.indexOf hashCode key 0 = m.getIndex hashCode key
  := Fin.ext (Probing.slot_zero (m.getIndex hashCode key).isLt)

omit [BEq K] in
/-- Keys with the same hash code have the same indices. -/
theorem indexOf_congr (h : hashCode key = hashCode key') :
  m.indexOf hashCode key i = m.indexOf hashCode key' i
  := by
  simp only [indexOf, getIndex, h]

theorem stops_eq_false {index : Fin m.length} :
  m.stops key index = false
    ↔ ∃ entry, getElem m.table index index.isLt = some entry ∧ holdsKey entry key = false
  := by
  rw [stops]
  cases m.table[index] with
  | none => simp
  | some entry => simp

/-- How the loop ends: at the first index where it stops, or back at the start. -/
inductive Ends (hashCode : K → BitVec 32) (m : GTUHashMap K V) (key : K) : Probe m.length → Prop
  | empty (i : Nat) (hi : i < m.length)
      (hbefore : ∀ j < i, m.stops key (m.indexOf hashCode key j) = false)
      (hnone : m.table[m.indexOf hashCode key i] = none) :
      Ends hashCode m key (.stopped (m.indexOf hashCode key i))
  | found (i : Nat) (hi : i < m.length) (entry : Entry K V)
      (hbefore : ∀ j < i, m.stops key (m.indexOf hashCode key j) = false)
      (hsome : m.table[m.indexOf hashCode key i] = some entry) (hkey : holdsKey entry key = true) :
      Ends hashCode m key (.found (m.indexOf hashCode key i))
  | start (hall : ∀ j < m.length, m.stops key (m.indexOf hashCode key j) = false) :
      Ends hashCode m key (.stopped (m.getIndex hashCode key))

theorem probeLoop_ends (hp : m.length.Prime) :
  i + n = m.length → 0 < n → (∀ j < i, m.stops key (m.indexOf hashCode key j) = false) →
    Ends hashCode m key (m.probeLoop key (m.getIndex hashCode key) (m.indexOf hashCode key i)
      (List.range' (i + 1) n))
  := by
  induction n generalizing i with
  | zero => exact fun _ hpos => absurd hpos (Nat.lt_irrefl 0)
  | succ n ih =>
      intro hlength _ hbefore
      rw [List.range'_succ, probeLoop]
      cases hentry : m.table[m.indexOf hashCode key i] with
      | none => exact .empty i (by omega) hbefore hentry
      | some entry =>
          dsimp only
          split
          · rename_i hkey
            exact .found i (by omega) entry hbefore hentry hkey
          · rename_i hkey
            have hnot : m.stops key (m.indexOf hashCode key i) = false :=
              stops_eq_false.mpr ⟨entry, hentry, Bool.eq_false_of_not_eq_true hkey⟩
            have hall : ∀ j < i + 1, m.stops key (m.indexOf hashCode key j) = false := by
              intro j hj
              rcases Nat.lt_succ_iff_lt_or_eq.mp hj with hj | rfl
              · exact hbefore j hj
              · exact hnot
            have hback : m.indexOf hashCode key (i + 1) = m.getIndex hashCode key
                ↔ m.length ∣ i + 1 := by
              rw [Fin.ext_iff]
              exact Probing.slot_eq_start hp (m.getIndex hashCode key).isLt
            change Ends hashCode m key
              (if m.indexOf hashCode key (i + 1) = m.getIndex hashCode key then
                .stopped (m.indexOf hashCode key (i + 1))
              else m.probeLoop key (m.getIndex hashCode key) (m.indexOf hashCode key (i + 1))
                (List.range' (i + 1 + 1) n))
            split
            · rename_i heq
              have hle := Nat.le_of_dvd (Nat.succ_pos i) (hback.mp heq)
              rw [heq]
              apply Ends.start
              intro j hj
              exact hall j (by omega)
            · rename_i hne
              apply ih (by omega) _ hall
              rcases Nat.eq_zero_or_pos n with rfl | hpos
              · exact absurd (hback.mpr (by rw [← hlength])) hne
              · exact hpos

theorem probe_ends (hp : m.length.Prime) (key : K) :
  Ends hashCode m key (m.probe hashCode key)
  := by
  have hends : Ends hashCode m key (m.probeLoop key (m.getIndex hashCode key)
      (m.indexOf hashCode key 0) (List.range' (0 + 1) m.length)) :=
    probeLoop_ends hp (Nat.zero_add _) hp.pos fun j hj => absurd hj (Nat.not_lt_zero j)
  rwa [indexOf_zero] at hends

/-! ### Valid tables -/

/-- A key is in the table with a value. -/
def Holds (m : GTUHashMap K V) (key : K) (value : V) : Prop :=
  ∃ i : Fin m.length, ∃ entry,
    getElem m.table i (m.index_lt i) = some entry ∧ holdsKey entry key = true
    ∧ entry.value = value

/-- The length is a prime; no two entries have the same key, and between the start of a key and
its entry every place is taken. -/
structure Valid (hashCode : K → BitVec 32) (m : GTUHashMap K V) : Prop where
  prime : m.length.Prime
  unique : ∀ (i j : Fin m.length) entry entry', getElem m.table i i.isLt = some entry →
    getElem m.table j j.isLt = some entry' → ∀ key, holdsKey entry key = true →
      holdsKey entry' key = true → i = j
  reached : ∀ (i : Fin m.length) entry, getElem m.table i i.isLt = some entry → ∀ key,
    holdsKey entry key = true → ∃ n < m.length, m.indexOf hashCode key n = i
      ∧ ∀ k < n, m.table[m.indexOf hashCode key k] ≠ none

theorem valid_ofLength {length : Nat} (hp : length.Prime) :
  (ofLength length hp.pos : GTUHashMap K V).Valid hashCode
  := by
  have hnone : ∀ i : Fin length, (ofLength length hp.pos : GTUHashMap K V).table[i] = none :=
    fun i => Vector.getElem_replicate i.isLt
  constructor
  · exact hp
  · intro i j entry entry' hentry
    cases (hnone i).symm.trans hentry
  · intro i entry hentry
    cases (hnone i).symm.trans hentry

theorem Valid.probe_ends (hm : m.Valid hashCode) (key : K) :
  Ends hashCode m key (m.probe hashCode key)
  := GTUHashMap.probe_ends hm.prime key

/-- The loop ends at the entry with the key. -/
theorem Valid.probe_eq_found (hm : m.Valid hashCode) {index : Fin m.length} {entry : Entry K V}
    (hentry : getElem m.table index index.isLt = some entry) (hkey : holdsKey entry key = true) :
  m.probe hashCode key = .found index
  := by
  obtain ⟨n, hn, rfl, htaken⟩ := hm.reached index entry hentry key hkey
  have hstops : m.stops key (m.indexOf hashCode key n) ≠ false := by
    intro hfalse
    obtain ⟨entry', hentry', hkey'⟩ := stops_eq_false.mp hfalse
    obtain rfl : entry = entry' := Option.some.inj (hentry.symm.trans hentry')
    rw [hkey] at hkey'
    cases hkey'
  have hends := hm.probe_ends key
  generalize m.probe hashCode key = result at hends
  cases hends with
  | empty i hi hbefore hnone =>
      rcases Nat.lt_trichotomy i n with hlt | rfl | hgt
      · exact absurd hnone (htaken i hlt)
      · rw [hentry] at hnone
        cases hnone
      · exact absurd (hbefore n hgt) hstops
  | found i hi entry' hbefore hsome hkey' =>
      rw [hm.unique _ _ _ _ hsome hentry key hkey' hkey]
  | start hall => exact absurd (hall n hn) hstops

/-- The loop ends elsewhere only if there is no entry with the key. -/
theorem Valid.not_holds (hm : m.Valid hashCode) {index : Fin m.length}
    (hstopped : m.probe hashCode key = .stopped index) :
  ¬ m.Holds key value
  := by
  rintro ⟨i, entry, hentry, hkey, -⟩
  rw [hm.probe_eq_found hentry hkey] at hstopped
  cases hstopped

theorem Valid.of_found (hm : m.Valid hashCode) {index : Fin m.length}
    (hfound : m.probe hashCode key = .found index) :
  ∃ entry, getElem m.table index index.isLt = some entry ∧ holdsKey entry key = true
  := by
  have hends := hm.probe_ends key
  rw [hfound] at hends
  cases hends with
  | found i hi entry hbefore hsome hkey => exact ⟨entry, hsome, hkey⟩

theorem Valid.holds_iff (hm : m.Valid hashCode) {index : Fin m.length} {entry : Entry K V}
    (hentry : getElem m.table index index.isLt = some entry) (hkey : holdsKey entry key = true) :
  m.Holds key value ↔ entry.value = value
  := by
  constructor
  · rintro ⟨i, entry', hentry', hkey', rfl⟩
    obtain rfl := hm.unique i index entry' entry hentry' hentry key hkey' hkey
    rw [Option.some.inj (hentry.symm.trans hentry')]
  · exact fun hvalue => ⟨index, entry, hentry, hkey, hvalue⟩

/-! ### Queries -/

theorem get_eq_some_iff (hm : m.Valid hashCode) :
  m.get hashCode key = some value ↔ m.Holds key value
  := by
  rw [get]
  cases hprobe : m.probe hashCode key with
  | found index =>
      obtain ⟨entry, hentry, hkey⟩ := hm.of_found hprobe
      rw [hm.holds_iff hentry hkey]
      dsimp only
      rw [hentry, Option.map_some, Option.some.injEq]
  | stopped index =>
      exact ⟨fun hnone => absurd hnone (by simp), fun hholds => absurd hholds (hm.not_holds hprobe)⟩

theorem containsKey_eq (hm : m.Valid hashCode) :
  m.containsKey hashCode key = (m.get hashCode key).isSome
  := by
  rw [containsKey, get]
  cases hprobe : m.probe hashCode key with
  | found index =>
      obtain ⟨entry, hentry, -⟩ := hm.of_found hprobe
      dsimp only
      rw [hentry]
      rfl
  | stopped index => rfl

end GTUHashMap

end Hashing
