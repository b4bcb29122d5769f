import Homeworks.FiniteMap.Basic
import Homeworks.Hashing.Probes

/-!
# The map as a finite map

A table refines a finite map if it is valid and has the same keys, values and size.  The
operations keep this, as long as a key that is put finds a place.
-/

namespace Hashing

namespace GTUHashMap

variable {K V : Type*} [BEq K] {hashCode : K → BitVec 32} {m : GTUHashMap K V} {key k : K}
  {value v : V}

/-! ### Changing an entry -/

/-- An entry is set. -/
def setEntry (m : GTUHashMap K V) (index : Fin m.length) (entry : Entry K V) (size : Int) :
    GTUHashMap K V :=
  { m with table := m.table.set index (some entry) (m.index_lt index), size := size }

omit [BEq K] in
theorem getElem_setEntry {index : Fin m.length} {entry : Entry K V} {size : Int}
    (i : Fin m.length) :
  getElem (m.setEntry index entry size).table i ((m.setEntry index entry size).index_lt i)
    = if i = index then some entry else getElem m.table i i.isLt
  := by
  rw [Fin.getElem_fin]
  simp only [setEntry, Vector.getElem_set, Fin.ext_iff, eq_comm]
  rfl

theorem Valid.setEntry (hm : m.Valid hashCode) {index : Fin m.length} {entry : Entry K V}
    {size : Int}
    (hunique : ∀ (i : Fin m.length) entry',
    i ≠ index → getElem m.table i i.isLt = some entry' → ∀ key,
      holdsKey entry' key = true → holdsKey entry key = false)
    (hreached : ∀ key, holdsKey entry key = true → ∃ n < m.length, m.indexOf hashCode key n = index
      ∧ ∀ k < n, getElem m.table (m.indexOf hashCode key k) (m.indexOf hashCode key k).isLt
      ≠ none) :
  (m.setEntry index entry size).Valid hashCode
  := by
  have htaken : ∀ i : Fin m.length, m.table[i] ≠ none →
      (m.setEntry index entry size).table[i] ≠ none := by
    intro i hi
    rw [getElem_setEntry]
    split
    · exact Option.some_ne_none entry
    · exact hi
  constructor
  · exact hm.prime
  · intro (i : Fin m.length) (j : Fin m.length) entry₁ entry₂ h₁ h₂ key hkey₁ hkey₂
    replace h₁ := (getElem_setEntry i).symm.trans h₁
    replace h₂ := (getElem_setEntry j).symm.trans h₂
    by_cases hi : i = index
    · by_cases hj : j = index
      · rw [hi, hj]
      · rw [if_pos hi] at h₁
        rw [if_neg hj] at h₂
        cases h₁
        rw [hunique j entry₂ hj h₂ key hkey₂] at hkey₁
        cases hkey₁
    · rw [if_neg hi] at h₁
      by_cases hj : j = index
      · rw [if_pos hj] at h₂
        cases h₂
        rw [hunique i entry₁ hi h₁ key hkey₁] at hkey₂
        cases hkey₂
      · rw [if_neg hj] at h₂
        exact hm.unique i j entry₁ entry₂ h₁ h₂ key hkey₁ hkey₂
  · intro (i : Fin m.length) entry₁ h₁ key hkey₁
    have hpath : ∃ n < m.length, m.indexOf hashCode key n = i
        ∧ ∀ k < n, m.table[m.indexOf hashCode key k] ≠ none := by
      replace h₁ := (getElem_setEntry i).symm.trans h₁
      by_cases hi : i = index
      · rw [if_pos hi] at h₁
        cases h₁
        rw [hi]
        exact hreached key hkey₁
      · rw [if_neg hi] at h₁
        exact hm.reached i entry₁ h₁ key hkey₁
    obtain ⟨n, hn, hindex, hbefore⟩ := hpath
    exact ⟨n, hn, hindex, fun k hk => htaken _ (hbefore k hk)⟩

/-- An entry other than the one at an index has a key. -/
def Others (m : GTUHashMap K V) (index : Fin m.length) (key : K) (value : V) : Prop :=
  ∃ i : Fin m.length, ∃ entry,
    i ≠ index ∧ getElem m.table i (m.index_lt i) = some entry ∧ holdsKey entry key = true
    ∧ entry.value = value

theorem holds_setEntry {index : Fin m.length} {entry : Entry K V} {size : Int} :
  (m.setEntry index entry size).Holds k v
    ↔ (holdsKey entry k = true ∧ entry.value = v) ∨ m.Others index k v
  := by
  constructor
  · rintro ⟨(i : Fin m.length), entry', hentry, hkey, hvalue⟩
    replace hentry := (getElem_setEntry i).symm.trans hentry
    by_cases hi : i = index
    · rw [if_pos hi] at hentry
      cases hentry
      exact .inl ⟨hkey, hvalue⟩
    · rw [if_neg hi] at hentry
      exact .inr ⟨i, entry', hi, hentry, hkey, hvalue⟩
  · rintro (⟨hkey, hvalue⟩ | ⟨i, entry', hi, hentry, hkey, hvalue⟩)
    · exact ⟨index, entry, (getElem_setEntry index).trans (if_pos rfl), hkey, hvalue⟩
    · exact ⟨i, entry', (getElem_setEntry i).trans ((if_neg hi).trans hentry), hkey, hvalue⟩

theorem holds_iff_others (index : Fin m.length)
    (h : ∀ entry, getElem m.table index index.isLt = some entry → holdsKey entry k = false) :
  m.Holds k v ↔ m.Others index k v
  := by
  constructor
  · rintro ⟨i, entry, hentry, hkey, hvalue⟩
    refine ⟨i, entry, ?_, hentry, hkey, hvalue⟩
    rintro rfl
    rw [h entry hentry] at hkey
    cases hkey
  · rintro ⟨i, entry, -, hentry, hkey, hvalue⟩
    exact ⟨i, entry, hentry, hkey, hvalue⟩

/-- No other entry has the key of an entry. -/
theorem Valid.not_others (hm : m.Valid hashCode) {index : Fin m.length} {entry : Entry K V}
    (hentry : getElem m.table index index.isLt = some entry) (hkey : holdsKey entry k = true) :
  ¬ m.Others index k v
  := by
  rintro ⟨i, entry', hi, hentry', hkey', -⟩
  exact hi (hm.unique i index entry' entry hentry' hentry k hkey' hkey)

/-! ### Refinement -/

structure Refines (hashCode : K → BitVec 32) (m : GTUHashMap K V) (a : FiniteMap K V) : Prop where
  valid : m.Valid hashCode
  holds : ∀ key value, m.Holds key value ↔ a.get key = some value
  size : m.size = a.size

/-- A key that is put finds a place: its loop stops, or no entry is at its start. -/
def hasPlace (hashCode : K → BitVec 32) (m : GTUHashMap K V) (key : K) : Bool :=
  (List.range m.length).any (fun i => m.stops key (m.indexOf hashCode key i))
    || m.table[m.getIndex hashCode key].all fun entry => entry.isDeleted

variable {a : FiniteMap K V} {entry : Entry K V}

theorem Refines.get_eq (h : m.Refines hashCode a) (key : K) :
  m.get hashCode key = a.get key
  := by
  apply Option.ext
  intro value
  rw [get_eq_some_iff h.valid, h.holds]

theorem Refines.containsKey_eq (h : m.Refines hashCode a) (key : K) :
  m.containsKey hashCode key = a.contains key
  := by
  rw [GTUHashMap.containsKey_eq h.valid, h.get_eq, FiniteMap.contains]

theorem Refines.contains_of_found (h : m.Refines hashCode a) {index : Fin m.length}
    (hentry : getElem m.table index index.isLt = some entry) (hkey : holdsKey entry key = true) :
  a.contains key = true
  := by
  rw [FiniteMap.contains, (h.holds key entry.value).mp ⟨index, entry, hentry, hkey, rfl⟩]
  rfl

theorem Refines.contains_of_stopped (h : m.Refines hashCode a) {index : Fin m.length}
    (hstopped : m.probe hashCode key = .stopped index) :
  a.contains key = false
  := by
  have hnone : a.get key = none := by
    rw [Option.eq_none_iff_forall_not_mem]
    intro value hvalue
    exact h.valid.not_holds hstopped ((h.holds key value).mpr hvalue)
  rw [FiniteMap.contains, hnone]
  rfl

/-- An entry with the key of another one replaces it. -/
theorem Valid.replace (hm : m.Valid hashCode) {index : Fin m.length} {entry' : Entry K V}
    {size : Int} (hentry : getElem m.table index index.isLt = some entry)
    (hnew : ∀ k, holdsKey entry' k = true → holdsKey entry k = true) :
  (m.setEntry index entry' size).Valid hashCode
  := by
  apply hm.setEntry
  · intro i entry'' hi hentry'' k hkey''
    rw [← Bool.not_eq_true]
    exact fun hk => hi (hm.unique i index entry'' entry hentry'' hentry k hkey'' (hnew k hk))
  · exact fun k hk => hm.reached index entry hentry k (hnew k hk)

/-- Where a new entry is put. -/
theorem Valid.stopped_place (hm : m.Valid hashCode) (hplace : m.hasPlace hashCode key = true)
    {index : Fin m.length} (hstopped : m.probe hashCode key = .stopped index) :
  (∀ entry, getElem m.table index index.isLt = some entry → entry.isDeleted = true)
    ∧ ∃ n < m.length, m.indexOf hashCode key n = index
      ∧ ∀ k < n, getElem m.table (m.indexOf hashCode key k) (m.indexOf hashCode key k).isLt ≠ none
  := by
  have hends := hm.probe_ends key
  rw [hstopped] at hends
  cases hends with
  | empty i hi hbefore hnone =>
      constructor
      · intro entry hentry
        rw [hnone] at hentry
        cases hentry
      · refine ⟨i, hi, rfl, ?_⟩
        intro k hk hnone'
        obtain ⟨entry, hentry, -⟩ := stops_eq_false.mp (hbefore k hk)
        rw [hnone'] at hentry
        cases hentry
  | start hall =>
      have hany : ((List.range m.length).any fun i =>
          m.stops key (m.indexOf hashCode key i)) = false := by
        rw [List.any_eq_false]
        intro i hi
        rw [hall i (List.mem_range.mp hi)]
        exact Bool.false_ne_true
      rw [hasPlace, hany, Bool.false_or] at hplace
      refine ⟨?_, 0, hm.prime.pos, indexOf_zero, fun k hk => absurd hk (Nat.not_lt_zero k)⟩
      intro entry hentry
      rw [hentry] at hplace
      exact hplace

variable [EquivBEq K]

theorem holdsKey_eq (h : holdsKey entry key = true) :
  holdsKey entry k = (key == k)
  := by
  rw [holdsKey, Bool.and_eq_true] at h
  rw [holdsKey, h.1, Bool.true_and]
  exact BEq.congr_left h.2

/-- The keys that are not equal to the one at an index are in the other entries. -/
theorem Valid.holds_iff_others (hm : m.Valid hashCode) {index : Fin m.length}
    (hentry : getElem m.table index index.isLt = some entry) (hkey : holdsKey entry key = true) :
  m.Others index k v ↔ (key == k) = false ∧ m.Holds k v
  := by
  cases hk : key == k with
  | true =>
      have hnot := hm.not_others (v := v) hentry ((holdsKey_eq hkey).trans hk)
      exact ⟨fun h => absurd h hnot, fun h => absurd h.1.symm Bool.false_ne_true⟩
  | false =>
      rw [GTUHashMap.holds_iff_others index]
      · exact ⟨fun h => ⟨rfl, h⟩, And.right⟩
      · intro entry' hentry'
        obtain rfl := Option.some.inj (hentry.symm.trans hentry')
        rw [holdsKey_eq hkey, hk]

/-! ### Removing -/

theorem Refines.remove (h : m.Refines hashCode a) (key : K) :
  (m.remove hashCode key).Refines hashCode (a.erase key)
  := by
  rw [GTUHashMap.remove]
  cases hprobe : m.probe hashCode key with
  | found index =>
      obtain ⟨entry, hentry, hkey⟩ := h.valid.of_found hprobe
      have hcontains := h.contains_of_found hentry hkey
      have hsize := a.size_erase key
      dsimp only
      rw [hentry, Option.map_some]
      change (m.setEntry index { entry with isDeleted := true } (m.size - 1)).Refines _ _
      constructor
      · apply h.valid.replace hentry
        intro k hk
        cases hk
      · intro k v
        rw [holds_setEntry, h.valid.holds_iff_others hentry hkey, h.holds, FiniteMap.get_erase]
        have hdeleted : holdsKey { entry with isDeleted := true } k = false := rfl
        rw [hdeleted]
        cases key == k with
        | true => simp
        | false => simp
      · have hsize' := h.size
        rw [hcontains, if_pos rfl] at hsize
        change m.size - 1 = _
        omega
  | stopped index =>
      have hcontains := h.contains_of_stopped hprobe
      have hsize := a.size_erase key
      constructor
      · exact h.valid
      · intro k v
        rw [h.holds, FiniteMap.get_erase]
        split
        · rename_i hk
          rw [FiniteMap.contains, FiniteMap.get_congr hk, Option.isSome_eq_false_iff,
            Option.isNone_iff_eq_none] at hcontains
          rw [hcontains]
        · exact Iff.rfl
      · have hsize' := h.size
        rw [hcontains, if_neg Bool.false_ne_true] at hsize
        dsimp only
        omega

/-! ### Storing -/

/-- An entry with a key that is not in the table is put on the way of the key. -/
theorem Valid.add (hhash : ∀ a b, (a == b) = true → hashCode a = hashCode b)
    (hm : m.Valid hashCode) {index index' : Fin m.length} {size : Int} {n : Nat}
    (hstopped : m.probe hashCode key = .stopped index') (hn : n < m.length)
    (hindex : m.indexOf hashCode key n = index)
    (hbefore : ∀ k < n, m.table[m.indexOf hashCode key k] ≠ none) :
  (m.setEntry index ⟨key, value, false⟩ size).Valid hashCode
  := by
  apply hm.setEntry
  · intro i entry hi hentry k hk
    rw [← Bool.not_eq_true]
    intro hbeq
    have hkey : holdsKey entry key = true := (holdsKey_eq hk).trans (BEq.symm hbeq)
    exact hm.not_holds hstopped ⟨i, entry, hentry, hkey, rfl⟩
  · intro k hk
    have hcode : hashCode k = hashCode key := (hhash key k hk).symm
    refine ⟨n, hn, (indexOf_congr hcode).trans hindex, ?_⟩
    intro j hj
    simpa only [indexOf_congr hcode] using hbefore j hj

theorem Refines.store (hhash : ∀ a b, (a == b) = true → hashCode a = hashCode b)
    (h : m.Refines hashCode a) (hplace : m.hasPlace hashCode key = true) (value : V) :
  (m.store hashCode key value).Refines hashCode (a.insert key value)
  := by
  rw [GTUHashMap.store]
  cases hprobe : m.probe hashCode key with
  | found index =>
      obtain ⟨entry, hentry, hkey⟩ := h.valid.of_found hprobe
      have hcontains := h.contains_of_found hentry hkey
      have hsize := a.size_erase key
      dsimp only
      rw [hentry, Option.map_some]
      change (m.setEntry index { entry with value := value } m.size).Refines _ _
      constructor
      · exact h.valid.replace hentry fun k hk => hk
      · intro k v
        rw [holds_setEntry, h.valid.holds_iff_others hentry hkey, h.holds, FiniteMap.get_insert]
        have hsame : holdsKey { entry with value := value } k = (key == k) := holdsKey_eq hkey
        rw [hsame]
        cases key == k with
        | true => simp
        | false => simp
      · have hsize' := h.size
        rw [hcontains, if_pos rfl] at hsize
        rw [FiniteMap.size_insert, hsize]
        exact hsize'
  | stopped index =>
      obtain ⟨hdeleted, n, hn, hindex, hbefore⟩ := h.valid.stopped_place hplace hprobe
      have hcontains := h.contains_of_stopped hprobe
      have hsize := a.size_erase key
      have hnew : ∀ k, holdsKey ⟨key, value, false⟩ k = (key == k) := fun k => rfl
      dsimp only
      change (m.setEntry index ⟨key, value, false⟩ (m.size + 1)).Refines _ _
      constructor
      · exact h.valid.add hhash hprobe hn hindex hbefore
      · intro k v
        rw [holds_setEntry, hnew, ← GTUHashMap.holds_iff_others index, h.holds,
          FiniteMap.get_insert]
        · cases hk : key == k with
          | true =>
              have hnone : a.get k = none := by
                rwa [FiniteMap.contains, FiniteMap.get_congr hk, Option.isSome_eq_false_iff,
                  Option.isNone_iff_eq_none] at hcontains
              rw [hnone]
              simp
          | false => simp
        · intro entry hentry
          rw [holdsKey, hdeleted entry hentry]
          rfl
      · have hsize' := h.size
        rw [hcontains, if_neg Bool.false_ne_true] at hsize
        rw [FiniteMap.size_insert]
        change m.size + 1 = _
        omega

end GTUHashMap

end Hashing
