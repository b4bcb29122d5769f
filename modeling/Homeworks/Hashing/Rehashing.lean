import Homeworks.Hashing.Resizing

/-!
# Rehashing

What `resize` makes of any table of prime length whose live entries have different keys, wherever
they are: every live entry finds a free place in the new table.
-/

namespace Hashing

namespace GTUHashMap

variable {K V : Type*} [BEq K] {hashCode : K → BitVec 32} {m : GTUHashMap K V} {key k : K}
  {value v : V}

/-! ### Live entries -/

/-- The place has an entry that has not been deleted. -/
def isLive (slot : Option (Entry K V)) : Bool := slot.any fun entry => !entry.isDeleted

/-- The live entries of a table have different keys. -/
def LiveDistinct (m : GTUHashMap K V) : Prop :=
  ∀ (i j : Fin m.length) entry entry', getElem m.table i (m.index_lt i) = some entry →
    getElem m.table j (m.index_lt j) = some entry' →
    entry.isDeleted = false → entry'.isDeleted = false → i ≠ j → (entry.key == entry'.key) = false

/-- Two places do not have live entries with the same key. -/
def Apart (slot slot' : Option (Entry K V)) : Prop :=
  ∀ entry ∈ slot, ∀ entry' ∈ slot', entry.isDeleted = false → entry'.isDeleted = false →
    (entry.key == entry'.key) = false

instance (slot slot' : Option (Entry K V)) : Decidable (Apart slot slot') :=
  inferInstanceAs (Decidable (∀ entry ∈ slot, ∀ entry' ∈ slot', entry.isDeleted = false →
    entry'.isDeleted = false → (entry.key == entry'.key) = false))

theorem LiveDistinct.pairwise (h : m.LiveDistinct) :
  m.table.toList.Pairwise Apart
  := by
  rw [List.pairwise_iff_getElem]
  intro i j hi hj hij entry hentry entry' hentry' hlive hlive'
  rw [Vector.length_toList] at hi hj
  rw [Vector.getElem_toList] at hentry hentry'
  exact h ⟨i, hi⟩ ⟨j, hj⟩ entry entry' hentry hentry' hlive hlive'
    fun heq => hij.ne (congrArg Fin.val heq)

theorem LiveDistinct.of_pairwise [EquivBEq K] (h : m.table.toList.Pairwise Apart) :
  m.LiveDistinct
  := by
  rw [List.pairwise_iff_getElem] at h
  intro i j entry entry' hentry hentry' hlive hlive' hne
  have hi : i.val < m.table.toList.length := by rw [Vector.length_toList]; exact i.isLt
  have hj : j.val < m.table.toList.length := by rw [Vector.length_toList]; exact j.isLt
  have hi' : m.table.toList[i.val] = some entry := Vector.getElem_toList hi ▸ hentry
  have hj' : m.table.toList[j.val] = some entry' := Vector.getElem_toList hj ▸ hentry'
  rcases Nat.lt_or_gt_of_ne (Fin.val_ne_of_ne hne) with hlt | hgt
  · exact h i j hi hj hlt entry hi' entry' hj' hlive hlive'
  · rw [BEq.comm]
    exact h j i hj hi hgt entry' hj' entry hi' hlive' hlive

theorem holds_iff_mem :
  m.Holds k v
    ↔ ∃ entry, some entry ∈ m.table.toList ∧ holdsKey entry k = true ∧ entry.value = v
  := by
  constructor
  · rintro ⟨i, entry, hi, hkey, hvalue⟩
    refine ⟨entry, ?_, hkey, hvalue⟩
    rw [Vector.mem_toList_iff, ← hi]
    exact Vector.getElem_mem i.isLt
  · rintro ⟨entry, hentry, hkey, hvalue⟩
    rw [Vector.mem_toList_iff, Vector.mem_iff_getElem] at hentry
    obtain ⟨i, hi, hentry⟩ := hentry
    exact ⟨⟨i, hi⟩, entry, hentry, hkey, hvalue⟩

/-! ### The new table -/

variable [EquivBEq K] {a : FiniteMap K V} {slots : List (Option (Entry K V))}

/-- No live entry of some places has a key of a finite map. -/
def New (a : FiniteMap K V) (slots : List (Option (Entry K V))) : Prop :=
  ∀ entry, some entry ∈ slots → entry.isDeleted = false → a.contains entry.key = false

theorem New.absorb {slot : Option (Entry K V)} (h : New a (slot :: slots))
    (hapart : ∀ slot' ∈ slots, Apart slot slot') :
  New (absorb a slot) slots
  := by
  intro entry hentry hlive
  have hnew := h entry (List.mem_cons_of_mem slot hentry) hlive
  rw [FiniteMap.contains, get_absorb_of_not]
  · exact hnew
  · rintro entry' rfl
    rw [holdsKey]
    cases hlive' : entry'.isDeleted with
    | true => rfl
    | false => exact hapart _ hentry entry' rfl entry rfl hlive' hlive

theorem New.get_eq_none {entry : Entry K V} (h : New a (some entry :: slots))
    (hkey : holdsKey entry k = true) :
  a.get k = none
  := by
  rw [holdsKey, Bool.and_eq_true, Bool.not_eq_true'] at hkey
  have hcontains := h entry List.mem_cons_self hkey.1
  rw [FiniteMap.contains, FiniteMap.get_congr hkey.2] at hcontains
  exact Option.not_isSome_iff_eq_none.mp (Bool.eq_false_iff.mp hcontains)

/-- Two places that are apart do not hold the same key. -/
theorem not_holdsKey {entry entry' : Entry K V} (h : Apart (some entry) (some entry'))
    (hkey : holdsKey entry k = true) :
  ¬ holdsKey entry' k = true
  := by
  intro hkey'
  rw [holdsKey, Bool.and_eq_true, Bool.not_eq_true'] at hkey hkey'
  have hne := h entry rfl entry' rfl hkey.1 hkey'.1
  rw [BEq.congr_left hkey.2, BEq.symm hkey'.2] at hne
  cases hne

/-- The value of a key among entries with different keys. -/
theorem get_foldl_absorb_iff (hslots : slots.Pairwise Apart) (hnew : New a slots) :
  (slots.foldl absorb a).get k = some v
    ↔ a.get k = some v ∨ ∃ entry, some entry ∈ slots ∧ holdsKey entry k = true ∧ entry.value = v
  := by
  induction slots generalizing a with
  | nil => simp
  | cons slot slots ih =>
      obtain ⟨hapart, hslots⟩ := List.pairwise_cons.mp hslots
      rw [List.foldl_cons, ih hslots (hnew.absorb hapart)]
      by_cases hslot : ∃ entry, slot = some entry ∧ holdsKey entry k = true
      · obtain ⟨entry, rfl, hkey⟩ := hslot
        have hnone := hnew.get_eq_none hkey
        have hothers : ∀ entry', some entry' ∈ slots → holdsKey entry' k = false := by
          intro entry' hentry'
          rw [← Bool.not_eq_true]
          intro hkey'
          exact not_holdsKey (hapart _ hentry') hkey hkey'
        rw [get_absorb hkey, hnone]
        constructor
        · rintro (hvalue | ⟨entry', hentry', hkey', -⟩)
          · exact .inr ⟨entry, List.mem_cons_self, hkey, Option.some.inj hvalue⟩
          · cases hkey'.symm.trans (hothers entry' hentry')
        · rintro (hvalue | ⟨entry', hentry', hkey', hvalue⟩)
          · cases hvalue
          · rcases List.mem_cons.mp hentry' with heq | hentry'
            · cases heq
              exact .inl (congrArg some hvalue)
            · cases hkey'.symm.trans (hothers entry' hentry')
      · have hnot : ∀ entry, slot = some entry → holdsKey entry k = false := by
          intro entry heq
          exact Bool.eq_false_of_not_eq_true fun hkey => hslot ⟨entry, heq, hkey⟩
        rw [get_absorb_of_not hnot]
        apply or_congr_right
        apply exists_congr
        intro entry
        rw [List.mem_cons]
        constructor
        · exact fun h => ⟨.inr h.1, h.2⟩
        · rintro ⟨rfl | hentry, hkey, hvalue⟩
          · cases hkey.symm.trans (hnot entry rfl)
          · exact ⟨hentry, hkey, hvalue⟩

/-- Entries with different keys are all counted. -/
theorem size_foldl_absorb (hslots : slots.Pairwise Apart) (hnew : New a slots) :
  (slots.foldl absorb a).size = a.size + slots.countP isLive
  := by
  induction slots generalizing a with
  | nil => rfl
  | cons slot slots ih =>
      obtain ⟨hapart, hslots⟩ := List.pairwise_cons.mp hslots
      rw [List.foldl_cons, ih hslots (hnew.absorb hapart), List.countP_cons]
      have hsize : (absorb a slot).size = a.size + if isLive slot = true then 1 else 0 := by
        cases slot with
        | none => rfl
        | some entry =>
            rw [GTUHashMap.absorb]
            cases hlive : entry.isDeleted with
            | true => simp [isLive, hlive]
            | false =>
                have hcontains := hnew entry List.mem_cons_self hlive
                have herase := a.size_erase entry.key
                rw [hcontains, if_neg Bool.false_ne_true] at herase
                have hslot : isLive (some entry) = true := by
                  rw [isLive, Option.any_some, hlive]; rfl
                rw [if_neg Bool.false_ne_true, FiniteMap.size_insert, hslot, if_pos rfl]
                omega
      rw [hsize]
      omega

omit [EquivBEq K] in
/-- A new key finds a free place if less than the half of the places is occupied. -/
theorem Refines.probe_new (h : m.Refines hashCode a) (hoccupied : 2 * m.occupied.card < m.length)
    (hnew : a.contains key = false) :
  ∃ index, m.probe hashCode key = .stopped index ∧ getElem m.table index index.isLt = none
  := by
  have hends := h.valid.probe_ends key
  generalize m.probe hashCode key = result at hends
  cases hends with
  | empty i hi hbefore hnone => exact ⟨_, rfl, hnone⟩
  | found i hi entry hbefore hsome hkey =>
      rw [h.contains_of_found hsome hkey] at hnew
      cases hnew
  | start hall =>
      obtain ⟨i, hi, hfree⟩ := Probing.exists_free h.valid.prime (m.getIndex hashCode key) hoccupied
      obtain ⟨entry, hentry, -⟩ := stops_eq_false.mp (hall i hi)
      refine absurd (Finset.mem_image.mpr ⟨m.indexOf hashCode key i, ?_, rfl⟩) hfree
      rw [Finset.mem_filter, hentry]
      exact ⟨Finset.mem_univ _, rfl⟩

omit [EquivBEq K] in
/-- If no table is resized within another one, then this is allowed any number of times. -/
theorem foldlM_rehash_depth {m' : GTUHashMap K V} {entries : List (Option (Entry K V))}
    (h : entries.foldlM (rehash (put hashCode 0)) m = some m') (depth : Nat) :
  entries.foldlM (rehash (put hashCode depth)) m = some m'
  := by
  induction entries generalizing m with
  | nil => exact h
  | cons slot entries ih =>
      rw [List.foldlM_cons, Option.bind_eq_bind, Option.bind_eq_some_iff] at h
      obtain ⟨m₁, hstep, h⟩ := h
      have hstep' : rehash (put hashCode depth) m slot = some m₁ := by
        cases slot with
        | none => exact hstep
        | some entry =>
            rw [rehash] at hstep ⊢
            cases hdeleted : entry.isDeleted with
            | true =>
                rw [hdeleted] at hstep
                exact hstep
            | false =>
                rw [hdeleted, if_neg Bool.false_ne_true, put,
                  Option.ite_none_left_eq_some] at hstep
                rw [if_neg Bool.false_ne_true,
                  put_of_not_full (Bool.eq_false_of_not_eq_true hstep.1)]
                exact hstep.2
      rw [List.foldlM_cons, hstep']
      exact ih h

omit [BEq K] [EquivBEq K] in
theorem nextPrime_length_pos (m : GTUHashMap K V) :
  0 < nextPrime (m.length * 2)
  := (prime_nextPrime _).pos

/-- The table that the entries are put into. -/
def emptied (m : GTUHashMap K V) : GTUHashMap K V :=
  ofLength (nextPrime (m.length * 2)) m.nextPrime_length_pos

omit [BEq K] [EquivBEq K] in
theorem lt_nextPrime_two_mul (hp : m.length.Prime) :
  2 * m.length < nextPrime (m.length * 2)
  := by
  have hle := le_nextPrime (m.length * 2)
  have htwo := hp.two_le
  have hodd := (prime_nextPrime (m.length * 2)).eq_two_or_odd
  omega

omit [EquivBEq K] in
theorem filled_emptied (m : GTUHashMap K V) :
  m.emptied.Filled hashCode (nextPrime (m.length * 2)) 0 FiniteMap.empty
  := by
  refine ⟨refines_ofLength (prime_nextPrime _), rfl, ?_, Int.le_refl 0⟩
  rw [emptied, occupied_ofLength, Finset.card_empty]

/-- An entry that is put into the new table takes a free place. -/
theorem probe_rehash (hhash : ∀ a b, (a == b) = true → hashCode a = hashCode b)
    (hp : m.length.Prime) (hm : m.LiveDistinct) {before after : List (Option (Entry K V))}
    {entry : Entry K V} (hsplit : m.table.toList = before ++ some entry :: after)
    (hlive : entry.isDeleted = false) :
  ∃ m₁ index, before.foldlM (rehash (put hashCode 0)) m.emptied = some m₁
    ∧ m₁.probe hashCode entry.key = .stopped index ∧ getElem m₁.table index index.isLt = none
  := by
  have hlt := lt_nextPrime_two_mul hp
  have hlength : before.length < m.length := by
    have heq := congrArg List.length hsplit
    rw [Vector.length_toList, List.length_append, List.length_cons] at heq
    omega
  obtain ⟨m₁, hm₁, hfilled⟩ := (filled_emptied m).foldlM hhash 0 before (by omega)
  have hpairwise := hm.pairwise
  rw [hsplit, List.pairwise_append] at hpairwise
  obtain ⟨hbefore, -, hcross⟩ := hpairwise
  have hnew : (before.foldl absorb FiniteMap.empty).contains entry.key = false := by
    rw [FiniteMap.contains, get_foldl_absorb_of_not]
    · rfl
    · intro entry' hentry'
      rw [holdsKey]
      cases hlive' : entry'.isDeleted with
      | true => rfl
      | false => exact hcross _ hentry' _ List.mem_cons_self entry' rfl entry rfl hlive' hlive
  have hoccupied := hfilled.occupied_le
  have hlength₁ := hfilled.length_eq
  obtain ⟨index, hprobe, hnone⟩ := hfilled.refines.probe_new (by omega) hnew
  exact ⟨m₁, index, hm₁, hprobe, hnone⟩

/-- A table is resized without another one being resized, and nothing is lost. -/
theorem resize_keeps (hhash : ∀ a b, (a == b) = true → hashCode a = hashCode b)
    (hp : m.length.Prime) (hm : m.LiveDistinct) :
  ∃ m', (∀ depth, resize (put hashCode depth) m = some m')
    ∧ m'.length.Prime ∧ 2 * m.length ≤ m'.length
    ∧ (∀ k v, m'.get hashCode k = some v ↔ m.Holds k v)
    ∧ m'.size = m.table.toList.countP isLive
    ∧ ∀ before entry after, m.table.toList = before ++ some entry :: after →
      entry.isDeleted = false →
        ∃ m₁ index, before.foldlM (rehash (put hashCode 0)) m.emptied = some m₁
          ∧ m₁.probe hashCode entry.key = .stopped index ∧ getElem m₁.table index index.isLt = none
  := by
  have hlt := lt_nextPrime_two_mul hp
  obtain ⟨m', hm', hfilled⟩ := (filled_emptied m).foldlM hhash 0 m.table.toList
    (by rw [Vector.length_toList]; omega)
  have hlength := hfilled.length_eq
  have hnew : New FiniteMap.empty m.table.toList := fun _ _ _ => rfl
  refine ⟨m', foldlM_rehash_depth hm', hfilled.refines.valid.prime, by omega, ?_, ?_, ?_⟩
  · intro k v
    rw [hfilled.refines.get_eq, get_foldl_absorb_iff hm.pairwise hnew, holds_iff_mem]
    constructor
    · rintro (hvalue | hentry)
      · cases hvalue
      · exact hentry
    · exact .inr
  · rw [hfilled.refines.size, size_foldl_absorb hm.pairwise hnew]
    exact congrArg Nat.cast (Nat.zero_add _)
  · intro before entry after hsplit hlive
    exact probe_rehash hhash hp hm hsplit hlive

/-- A table of length 17 with two entries that are not on the way of their keys and a deleted
one. -/
def scattered : GTUHashMap Nat Nat where
  length := 17
  length_pos := by decide
  table := (((Vector.replicate 17 none).set 5 (some ⟨1, 10, false⟩)).set 9
    (some ⟨18, 20, false⟩)).set 1 (some ⟨1, 30, true⟩)
  size := 2

theorem resize_keeps_scattered :
  ∃ m', (∀ depth, resize (put (BitVec.ofNat 32) depth) scattered = some m')
    ∧ m'.length.Prime ∧ 2 * scattered.length ≤ m'.length
    ∧ (∀ k v, m'.get (BitVec.ofNat 32) k = some v ↔ scattered.Holds k v)
    ∧ m'.size = scattered.table.toList.countP isLive
    ∧ ∀ before entry after, scattered.table.toList = before ++ some entry :: after →
      entry.isDeleted = false →
        ∃ m₁ index,
          before.foldlM (rehash (put (BitVec.ofNat 32) 0)) scattered.emptied = some m₁
            ∧ m₁.probe (BitVec.ofNat 32) entry.key = .stopped index ∧ m₁.table[index] = none
  := by
  apply resize_keeps
  · intro a b h
    rw [beq_iff_eq.mp h]
  · exact show Nat.Prime 17 by decide
  · apply LiveDistinct.of_pairwise
    decide

end GTUHashMap

end Hashing
