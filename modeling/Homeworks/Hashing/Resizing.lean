import Homeworks.Hashing.Refinement

/-!
# Resizing

A table that is resized refines the same finite map.  The new table is more than twice as long,
so every key finds a place in it, and it is not resized itself.
-/

namespace Hashing

namespace GTUHashMap

variable {K V : Type*} [BEq K] {hashCode : K → BitVec 32} {m : GTUHashMap K V} {key k : K}
  {value v : V}

/-! ### Occupied places -/

/-- The places that are not free. -/
def occupied (m : GTUHashMap K V) : Finset Nat :=
  (Finset.univ.filter fun i : Fin m.length =>
    (getElem m.table i (m.index_lt i)).isSome = true).image Fin.val

omit [BEq K] in
theorem occupied_ofLength {length : Nat} (h : 0 < length) :
  (ofLength length h : GTUHashMap K V).occupied = ∅
  := by
  rw [occupied, Finset.image_eq_empty, Finset.filter_eq_empty_iff]
  intro (i : Fin length) _
  have hnone : (ofLength length h : GTUHashMap K V).table[i] = none :=
    Vector.getElem_replicate i.isLt
  change ¬ (ofLength length h : GTUHashMap K V).table[i].isSome = true
  rw [hnone]
  exact Bool.false_ne_true

omit [BEq K] in
theorem occupied_setEntry {index : Fin m.length} {entry : Entry K V} {size : Int} :
  (m.setEntry index entry size).occupied ⊆ insert index.val m.occupied
  := by
  intro x hx
  obtain ⟨(i : Fin m.length), hi, rfl⟩ := Finset.mem_image.mp hx
  replace hi := (Finset.mem_filter.mp hi).2
  rw [Finset.mem_insert]
  by_cases hindex : i = index
  · exact .inl (congrArg Fin.val hindex)
  · right
    have heq : (m.setEntry index entry size).table[i] = m.table[i] :=
      (getElem_setEntry i).trans (if_neg hindex)
    replace hi := (congrArg Option.isSome heq).symm.trans hi
    exact Finset.mem_image.mpr ⟨i, Finset.mem_filter.mpr ⟨Finset.mem_univ i, hi⟩, rfl⟩

/-- A key finds a place if less than the half of the places is occupied. -/
theorem hasPlace_of_occupied (hp : m.length.Prime) (h : 2 * m.occupied.card < m.length)
    (key : K) :
  m.hasPlace hashCode key = true
  := by
  obtain ⟨i, hi, hfree⟩ := Probing.exists_free hp (m.getIndex hashCode key) h
  have hstops : m.stops key (m.indexOf hashCode key i) = true := by
    rw [← Bool.not_eq_false, stops_eq_false]
    rintro ⟨entry, hentry, -⟩
    apply hfree
    refine Finset.mem_image.mpr ⟨m.indexOf hashCode key i, ?_, rfl⟩
    rw [Finset.mem_filter, hentry]
    exact ⟨Finset.mem_univ _, rfl⟩
  rw [hasPlace, Bool.or_eq_true]
  exact .inl (List.any_eq_true.mpr ⟨i, List.mem_range.mpr hi, hstops⟩)

/-- What is stored is one entry. -/
theorem Valid.store_eq (hm : m.Valid hashCode) (key : K) (value : V) :
  ∃ index entry, ∃ size ≤ m.size + 1, m.store hashCode key value = m.setEntry index entry size
  := by
  rw [store]
  cases hprobe : m.probe hashCode key with
  | found index =>
      obtain ⟨entry, hentry, -⟩ := hm.of_found hprobe
      refine ⟨index, { entry with value := value }, m.size, by omega, ?_⟩
      dsimp only
      rw [hentry]
      rfl
  | stopped index => exact ⟨index, ⟨key, value, false⟩, m.size + 1, Int.le_refl _, rfl⟩

/-! ### Rehashing -/

/-- A table that is being filled refines a finite map, and has not been given more than a number
of entries. -/
structure Filled (hashCode : K → BitVec 32) (length count : Nat) (m : GTUHashMap K V)
    (a : FiniteMap K V) : Prop where
  refines : m.Refines hashCode a
  length_eq : m.length = length
  occupied_le : m.occupied.card ≤ count
  size_le : m.size ≤ count

variable [EquivBEq K] {a : FiniteMap K V} {length count depth : Nat}

/-- An entry is put into a table that has room. -/
theorem Filled.store (hhash : ∀ a b, (a == b) = true → hashCode a = hashCode b)
    (h : m.Filled hashCode length count a) (hcount : 2 * count < length) (key : K) (value : V) :
  (m.store hashCode key value).Filled hashCode length (count + 1) (a.insert key value)
  := by
  have hlength := h.length_eq
  have hoccupied := h.occupied_le
  have hplace : m.hasPlace hashCode key = true :=
    hasPlace_of_occupied h.refines.valid.prime (by omega) key
  have hrefines := h.refines.store hhash hplace value
  obtain ⟨index, entry, size, hsize, heq⟩ := h.refines.valid.store_eq key value
  have hsize' := h.size_le
  rw [heq] at hrefines ⊢
  constructor
  · exact hrefines
  · exact hlength
  · calc
      (m.setEntry index entry size).occupied.card ≤ (insert index.val m.occupied).card :=
        Finset.card_le_card occupied_setEntry
      _ ≤ m.occupied.card + 1 := Finset.card_insert_le _ _
      _ ≤ count + 1 := Nat.succ_le_succ hoccupied
  · change size ≤ _
    omega

omit [EquivBEq K] in
theorem put_of_not_full (h : m.isFull = false) :
  m.put hashCode depth key value = some (m.store hashCode key value)
  := by
  cases depth with
  | zero => rw [put, h, if_neg Bool.false_ne_true]
  | succ depth => rw [put, h, if_neg Bool.false_ne_true]

/-- What an entry of the old table means for a finite map. -/
def absorb (a : FiniteMap K V) : Option (Entry K V) → FiniteMap K V
  | none => a
  | some entry => if entry.isDeleted then a else a.insert entry.key entry.value

theorem Filled.step (hhash : ∀ a b, (a == b) = true → hashCode a = hashCode b)
    (h : m.Filled hashCode length count a) (hcount : 2 * count < length)
    (slot : Option (Entry K V)) :
  ∃ m', rehash (put hashCode depth) m slot = some m'
    ∧ m'.Filled hashCode length (count + 1) (absorb a slot)
  := by
  have hsame : m.Filled hashCode length (count + 1) a := by
    have hoccupied := h.occupied_le
    have hsize := h.size_le
    exact ⟨h.refines, h.length_eq, by omega, by omega⟩
  cases slot with
  | none => exact ⟨m, rfl, hsame⟩
  | some entry =>
      rw [GTUHashMap.rehash, absorb]
      cases entry.isDeleted with
      | true => exact ⟨m, rfl, hsame⟩
      | false =>
          have hfull : m.isFull = false := by
            have hlength := h.length_eq
            have hsize := h.size_le
            rw [isFull, decide_eq_false_iff_not]
            omega
          exact ⟨_, put_of_not_full hfull, h.store hhash hcount entry.key entry.value⟩

/-- The entries of a part of the old table are put into the new one. -/
theorem Filled.foldlM (hhash : ∀ a b, (a == b) = true → hashCode a = hashCode b)
    (h : m.Filled hashCode length count a) (depth : Nat) (entries : List (Option (Entry K V)))
    (hcount : 2 * (count + entries.length) ≤ length) :
  ∃ m', entries.foldlM (rehash (put hashCode depth)) m = some m'
    ∧ m'.Filled hashCode length (count + entries.length) (entries.foldl absorb a)
  := by
  induction entries generalizing m a count with
  | nil => exact ⟨m, rfl, h⟩
  | cons slot entries ih =>
      rw [List.length_cons] at hcount
      have hstep : ∃ m₁, rehash (put hashCode depth) m slot = some m₁
          ∧ m₁.Filled hashCode length (count + 1) (absorb a slot) :=
        h.step hhash (by omega) slot
      obtain ⟨m₁, hm₁, hfilled⟩ := hstep
      obtain ⟨m', hm', hfilled'⟩ := ih hfilled (by omega)
      refine ⟨m', ?_, ?_⟩
      · rw [List.foldlM_cons, hm₁]
        exact hm'
      · rw [List.length_cons, Nat.add_comm entries.length, ← Nat.add_assoc]
        exact hfilled'

theorem get_absorb {entry : Entry K V} (h : holdsKey entry k = true) :
  (absorb a (some entry)).get k = some entry.value
  := by
  rw [holdsKey, Bool.and_eq_true, Bool.not_eq_true'] at h
  rw [absorb, h.1, if_neg Bool.false_ne_true, FiniteMap.get_insert, if_pos h.2]

theorem get_absorb_of_not {slot : Option (Entry K V)}
    (h : ∀ entry, slot = some entry → holdsKey entry k = false) :
  (absorb a slot).get k = a.get k
  := by
  cases slot with
  | none => rfl
  | some entry =>
      have hkey := h entry rfl
      rw [holdsKey] at hkey
      rw [absorb]
      cases hdeleted : entry.isDeleted with
      | true => rfl
      | false =>
          rw [hdeleted, Bool.not_false, Bool.true_and] at hkey
          rw [if_neg Bool.false_ne_true, FiniteMap.get_insert, hkey, if_neg Bool.false_ne_true]

/-- The value of a key among some entries, if all entries with the key have it. -/
theorem get_foldl_absorb {entries : List (Option (Entry K V))}
    (hall : ∀ entry, some entry ∈ entries → holdsKey entry k = true → entry.value = v)
    (h : a.get k = some v ∨ ∃ entry, some entry ∈ entries ∧ holdsKey entry k = true) :
  (entries.foldl absorb a).get k = some v
  := by
  induction entries generalizing a with
  | nil =>
      rcases h with h | ⟨entry, hentry, -⟩
      · exact h
      · cases hentry
  | cons slot entries ih =>
      apply ih fun entry hentry => hall entry (List.mem_cons_of_mem _ hentry)
      by_cases hslot : ∃ entry, slot = some entry ∧ holdsKey entry k = true
      · obtain ⟨entry, rfl, hkey⟩ := hslot
        left
        rw [get_absorb hkey, hall entry List.mem_cons_self hkey]
      · rw [get_absorb_of_not]
        · refine h.imp_right ?_
          rintro ⟨entry, hentry, hkey⟩
          rcases List.mem_cons.mp hentry with rfl | hentry
          · exact absurd ⟨entry, rfl, hkey⟩ hslot
          · exact ⟨entry, hentry, hkey⟩
        · intro entry heq
          exact Bool.eq_false_of_not_eq_true fun hkey => hslot ⟨entry, heq, hkey⟩

theorem get_foldl_absorb_of_not {entries : List (Option (Entry K V))}
    (hall : ∀ entry, some entry ∈ entries → holdsKey entry k = false) :
  (entries.foldl absorb a).get k = a.get k
  := by
  induction entries generalizing a with
  | nil => rfl
  | cons slot entries ih =>
      rw [List.foldl_cons, ih fun entry hentry => hall entry (List.mem_cons_of_mem _ hentry)]
      apply get_absorb_of_not
      rintro entry rfl
      exact hall entry List.mem_cons_self

/-! ### Resizing -/

/-- The values of a table are those of its entries, one after the other. -/
theorem Refines.get_entries (h : m.Refines hashCode a) (k : K) :
  (m.table.toList.foldl absorb FiniteMap.empty).get k = a.get k
  := by
  have hmem : ∀ entry, some entry ∈ m.table.toList ↔ ∃ i : Fin m.length,
    m.table[i] = some entry := by
    intro entry
    rw [Vector.mem_toList_iff, Vector.mem_iff_getElem]
    constructor
    · rintro ⟨i, hi, hentry⟩
      exact ⟨⟨i, hi⟩, hentry⟩
    · rintro ⟨i, hentry⟩
      exact ⟨i.val, i.isLt, hentry⟩
  cases hget : a.get k with
  | none =>
      apply get_foldl_absorb_of_not
      intro entry hentry
      obtain ⟨i, hi⟩ := (hmem entry).mp hentry
      rw [← Bool.not_eq_true]
      intro hkey
      have hvalue := (h.holds k entry.value).mp ⟨i, entry, hi, hkey, rfl⟩
      rw [hget] at hvalue
      cases hvalue
  | some v =>
      obtain ⟨i, entry, hi, hkey, rfl⟩ := (h.holds k v).mpr hget
      apply get_foldl_absorb
      · intro entry' hentry' hkey'
        obtain ⟨j, hj⟩ := (hmem entry').mp hentry'
        obtain rfl := h.valid.unique i j entry entry' hi hj k hkey hkey'
        rw [Option.some.inj (hi.symm.trans hj)]
      · exact .inr ⟨entry, (hmem entry).mpr ⟨i, hi⟩, hkey⟩

omit [EquivBEq K] in
theorem refines_ofLength {length : Nat} (hp : length.Prime) :
  (ofLength length hp.pos : GTUHashMap K V).Refines hashCode FiniteMap.empty
  := by
  refine ⟨valid_ofLength hp, ?_, rfl⟩
  intro key value
  constructor
  · rintro ⟨(i : Fin length), entry, hentry, -⟩
    have hnone : (ofLength length hp.pos : GTUHashMap K V).table[i] = none :=
      Vector.getElem_replicate i.isLt
    cases hnone.symm.trans hentry
  · intro hvalue
    cases hvalue

/-- A table that is resized refines the same finite map, and is less than half full. -/
theorem Refines.resize (hhash : ∀ a b, (a == b) = true → hashCode a = hashCode b)
    (h : m.Refines hashCode a) (depth : Nat) :
  ∃ m', GTUHashMap.resize (put hashCode depth) m = some m' ∧ m'.Refines hashCode a
    ∧ 2 * m'.occupied.card < m'.length
  := by
  have hp := prime_nextPrime (m.length * 2)
  have hlt : 2 * m.length < nextPrime (m.length * 2) := by
    have hle := le_nextPrime (m.length * 2)
    have htwo := h.valid.prime.two_le
    have hodd := Nat.Prime.eq_two_or_odd hp
    omega
  have hempty : (ofLength _ hp.pos : GTUHashMap K V).Filled hashCode (nextPrime (m.length * 2)) 0
      FiniteMap.empty := by
    refine ⟨refines_ofLength hp, rfl, ?_, Int.le_refl 0⟩
    rw [occupied_ofLength, Finset.card_empty]
  obtain ⟨m', hresize, hfilled⟩ := hempty.foldlM hhash depth m.table.toList
    (by rw [Vector.length_toList]; omega)
  have hlength := hfilled.length_eq
  have hoccupied := hfilled.occupied_le
  rw [Vector.length_toList] at hoccupied
  refine ⟨m', hresize, ⟨hfilled.refines.valid, ?_, ?_⟩, by omega⟩
  · intro key value
    rw [hfilled.refines.holds, h.get_entries]
  · rw [hfilled.refines.size, FiniteMap.size_eq_of_get_eq h.get_entries]

/-- What is put is in the finite map, if a key finds a place. -/
theorem Refines.put (hhash : ∀ a b, (a == b) = true → hashCode a = hashCode b)
    (h : m.Refines hashCode a) (hplace : (m.isFull || m.hasPlace hashCode key) = true)
    (depth : Nat) (value : V) :
  ∃ m', m.put hashCode (depth + 1) key value = some m' ∧ m'.Refines hashCode (a.insert key value)
  := by
  cases hfull : m.isFull with
  | false =>
      rw [hfull, Bool.false_or] at hplace
      exact ⟨_, put_of_not_full hfull, h.store hhash hplace value⟩
  | true =>
      obtain ⟨m', hresize, hrefines, hoccupied⟩ := h.resize hhash depth
      have hplace' : m'.hasPlace hashCode key = true :=
        hasPlace_of_occupied hrefines.valid.prime hoccupied key
      refine ⟨m'.store hashCode key value, ?_, hrefines.store hhash hplace' value⟩
      rw [GTUHashMap.put, hfull, if_pos rfl, hresize]
      rfl

/-- A key that finds no place takes the place of another key, which is lost. -/
theorem Refines.put_loses (hhash : ∀ a b, (a == b) = true → hashCode a = hashCode b)
    (h : m.Refines hashCode a) (hplace : (m.isFull || m.hasPlace hashCode key) = false)
    (depth : Nat) (value : V) :
  ∃ m', m.put hashCode depth key value = some m'
    ∧ ∃ k, a.contains k = true ∧ m'.containsKey hashCode k = false
  := by
  rw [Bool.or_eq_false_iff, hasPlace, Bool.or_eq_false_iff] at hplace
  obtain ⟨hfull, hstops, hlive⟩ := hplace
  have hnot : ∀ j < m.length, m.stops key (m.indexOf hashCode key j) = false := by
    intro j hj
    exact Bool.eq_false_of_not_eq_true (List.any_eq_false.mp hstops j (List.mem_range.mpr hj))
  have hstopped : m.probe hashCode key = .stopped (m.getIndex hashCode key) := by
    have hends := h.valid.probe_ends key
    generalize m.probe hashCode key = result at hends
    cases hends with
    | empty i hi hbefore hnone =>
        obtain ⟨entry, hentry, -⟩ := stops_eq_false.mp (hnot i hi)
        cases hnone.symm.trans hentry
    | found i hi entry hbefore hsome hkey =>
        obtain ⟨entry', hentry', hkey'⟩ := stops_eq_false.mp (hnot i hi)
        cases hsome.symm.trans hentry'
        cases hkey.symm.trans hkey'
    | start hall => rfl
  obtain ⟨entry, hentry, hkey⟩ := stops_eq_false.mp (hnot 0 h.valid.prime.pos)
  simp only [indexOf_zero] at hentry
  rw [hentry] at hlive
  have hdeleted : entry.isDeleted = false := hlive
  rw [holdsKey, hdeleted, Bool.not_false, Bool.true_and] at hkey
  have hself : holdsKey entry entry.key = true := by
    rw [holdsKey, hdeleted, BEq.rfl]
    rfl
  have hstore : m.store hashCode key value
      = m.setEntry (m.getIndex hashCode key) ⟨key, value, false⟩ (m.size + 1) := by
    rw [GTUHashMap.store, hstopped]
    rfl
  have hvalid : (m.store hashCode key value).Valid hashCode := by
    rw [hstore]
    exact h.valid.add hhash hstopped h.valid.prime.pos indexOf_zero
      fun k hk => absurd hk (Nat.not_lt_zero k)
  refine ⟨m.store hashCode key value, put_of_not_full hfull, entry.key, ?_, ?_⟩
  · exact h.contains_of_found hentry hself
  · rw [GTUHashMap.containsKey_eq hvalid, Option.isSome_eq_false_iff, Option.isNone_iff_eq_none,
      Option.eq_none_iff_forall_not_mem]
    intro v hv
    have hholds := (get_eq_some_iff hvalid).mp hv
    rw [hstore] at hholds
    rcases holds_setEntry.mp hholds with ⟨hnew, -⟩ | hothers
    · rw [BEq.comm, show (key == entry.key) = true from hnew] at hkey
      cases hkey
    · exact h.valid.not_others hentry hself hothers

end GTUHashMap

end Hashing
