import Homeworks.Hashing.WrappedRuns

/-!
# A crowded table

Numbers whose hash codes spread them over the table take the places of their own.  When the table
is large, it is filled with keys that are put and removed; then no place stops the loop of a new
key, and its index overflows.
-/

namespace Hashing

namespace GTUHashMap

/-- A hash code that `getIndex` turns back into the number. -/
def spread (k : Nat) : BitVec 32 := BitVec.ofNat 32 k ^^^ (BitVec.ofNat 32 k >>> 16)

theorem getIndex_spread {V : Type*} (m : GTUHashMap Nat V) {k : Nat} (hk : k < 2147483648) :
  (m.getIndex spread k).val = k % m.length
  := by
  have hzero : BitVec.ofNat 32 k >>> 16 >>> 16 = 0#32 := by
    rw [← BitVec.shiftRight_add]
    apply BitVec.ushiftRight_eq_zero
    decide
  have hback : spread k ^^^ (spread k >>> 16) = BitVec.ofNat 32 k := by
    rw [spread, BitVec.ushiftRight_xor_distrib, hzero, BitVec.xor_zero, BitVec.xor_assoc,
      BitVec.xor_self, BitVec.xor_zero]
  change ((spread k ^^^ (spread k >>> 16)) &&& 0x7FFFFFFF#32).toNat % m.length = _
  have hmask : (BitVec.ofNat 32 k &&& 0x7FFFFFFF#32).toNat = k := by
    have hlt : k < 2 ^ 32 := by omega
    rw [BitVec.toNat_and, BitVec.toNat_ofNat, Nat.mod_eq_of_lt hlt]
    exact (Nat.and_two_pow_sub_one_eq_mod k 31).trans (Nat.mod_eq_of_lt hk)
  rw [hback, hmask]

/-- The keys below `k` are at their own places; some of them are deleted. -/
structure Packed (deleted : Nat → Bool) (k : Nat) (size : Nat)
    (m : GTUHashMap Nat Unit) : Prop where
  prime : m.length.Prime
  length_le : m.length ≤ 524287
  le_length : k ≤ m.length
  size_eq : m.size = size
  size_le : size ≤ m.length
  entry_eq : ∀ i : Fin m.length,
    m.table[i] = if i.val < k then some ⟨i.val, (), deleted i.val⟩ else none

/-- No key is deleted. -/
def live : Nat → Bool := fun _ => false

/-- The keys from 111878 on are deleted. -/
def buried : Nat → Bool := fun i => decide (111878 ≤ i)

variable {m : GTUHashMap Nat Unit} {deleted deleted' : Nat → Bool} {n k size length : Nat}
  {tasks : List (Task Nat Unit)}

theorem packed_ofLength (hp : length.Prime) (hle : length ≤ 524287) :
  (ofLength length hp.pos).Packed deleted 0 0
  := by
  refine ⟨hp, hle, Nat.zero_le length, rfl, Nat.zero_le length, ?_⟩
  intro (i : Fin length)
  rw [if_neg (Nat.not_lt_zero i.val)]
  exact Vector.getElem_replicate i.isLt

namespace Packed

theorem getIndex_val (hm : m.Packed deleted n size) (h : k < m.length) :
  (m.getIndex spread k).val = k
  := by
  have hle := hm.length_le
  rw [getIndex_spread m (by omega), Nat.mod_eq_of_lt h]

theorem entry_getIndex (hm : m.Packed deleted n size) (h : k < m.length) :
  m.table[m.getIndex spread k] = if k < n then some ⟨k, (), deleted k⟩ else none
  := by
  rw [hm.entry_eq, hm.getIndex_val h]

/-- The next key is put at its own place. -/
theorem store (hm : m.Packed deleted k size) (h : k < m.length) (hsize : size < m.length)
    (hsame : ∀ i < k, deleted' i = deleted i) (hnew : deleted' k = false) :
  ∃ m', m'.Packed deleted' (k + 1) (size + 1) ∧ m'.length = m.length
    ∧ ∀ tasks, Step spread ⟨m, .store k () :: tasks⟩ ⟨m', tasks⟩
  := by
  have hle := hm.length_le
  have hprobe : m.Probes spread k (.stopped (m.getIndex spread k)) := by
    apply probes_of_none
    rw [hm.entry_getIndex h, if_neg (Nat.lt_irrefl k)]
  refine ⟨_, ?_, ?_, fun tasks => .store m k () tasks _ hprobe⟩
  · refine ⟨hm.prime, hle, h, ?_, hsize, ?_⟩
    · change Java.wrap (m.size + 1) = _
      rw [hm.size_eq]
      exact wrap_natCast (n := size + 1) (by omega)
    · intro (i : Fin m.length)
      have hset : (m.storeAt k () (.stopped (m.getIndex spread k))).table[i]
          = if (m.getIndex spread k).val = i.val then some ⟨k, (), false⟩ else m.table[i] :=
        Vector.getElem_set (m.getIndex spread k).isLt i.isLt
      refine hset.trans ?_
      rw [hm.getIndex_val h, hm.entry_eq]
      rcases Nat.lt_trichotomy i.val k with hlt | heq | hgt
      · rw [if_neg hlt.ne', if_pos hlt, if_pos (Nat.lt_succ_of_lt hlt), hsame _ hlt]
      · rw [if_pos heq.symm, if_pos (Nat.lt_succ_of_le heq.le), heq, hnew]
      · rw [if_neg hgt.ne, if_neg hgt.not_gt, if_neg (Nat.not_lt.mpr hgt)]
  · rfl

/-- The last key is removed. -/
theorem remove (hm : m.Packed deleted (k + 1) (size + 1)) (hlive : deleted k = false)
    (hsame : ∀ i < k, deleted' i = deleted i) (hnew : deleted' k = true) :
  ∃ m', m'.Packed deleted' (k + 1) size ∧ m'.length = m.length
    ∧ ∀ tasks, Step spread ⟨m, .remove k :: tasks⟩ ⟨m', tasks⟩
  := by
  have hle := hm.length_le
  have hsize := hm.size_le
  have h : k < m.length := hm.le_length
  have hentry := hm.entry_getIndex h
  rw [if_pos (Nat.lt_succ_self k), hlive] at hentry
  have hprobe : m.Probes spread k (.found (m.getIndex spread k)) := by
    apply probes_of_holdsKey hentry
    exact beq_self_eq_true k
  refine ⟨_, ?_, ?_, fun tasks => .remove m k tasks _ hprobe⟩
  · refine ⟨hm.prime, hle, h, ?_, Nat.le_of_succ_le hsize, ?_⟩
    · change Java.wrap (m.size - 1) = _
      have heq : m.size - 1 = size := by
        rw [hm.size_eq]
        omega
      rw [heq]
      exact wrap_natCast (n := size) (by omega)
    · intro (i : Fin m.length)
      have hset : (m.removeAt (.found (m.getIndex spread k))).table[i]
          = if (m.getIndex spread k).val = i.val then
              m.table[m.getIndex spread k].map fun entry => { entry with isDeleted := true }
            else
              m.table[i] :=
        Vector.getElem_set (m.getIndex spread k).isLt i.isLt
      refine hset.trans ?_
      rw [hentry, hm.getIndex_val h, hm.entry_eq]
      rcases Nat.lt_trichotomy i.val k with hlt | heq | hgt
      · rw [if_neg hlt.ne', if_pos (Nat.lt_succ_of_lt hlt), if_pos (Nat.lt_succ_of_lt hlt),
          hsame _ hlt]
      · rw [if_pos heq.symm, if_pos (Nat.lt_succ_of_le heq.le), heq, hnew]
        rfl
      · rw [if_neg hgt.ne, if_neg (Nat.not_lt.mpr hgt), if_neg (Nat.not_lt.mpr hgt)]
  · rfl

theorem isFull_eq_false (hm : m.Packed deleted k size) (h : 4 * size < 3 * m.length) :
  m.isFull = false
  := by
  rw [isFull, hm.size_eq, decide_eq_false_iff_not]
  omega

/-- The next key is put without resizing the table. -/
theorem put (hm : m.Packed deleted k size) (h : k < m.length) (hsize : 4 * size < 3 * m.length)
    (hsame : ∀ i < k, deleted' i = deleted i) (hnew : deleted' k = false) :
  ∃ m', m'.Packed deleted' (k + 1) (size + 1) ∧ m'.length = m.length
    ∧ ∀ tasks, Relation.ReflTransGen (Step spread) ⟨m, .put k () :: tasks⟩ ⟨m', tasks⟩
  := by
  obtain ⟨m', hm', hlength, hstore⟩ := hm.store h (by omega) hsame hnew
  refine ⟨m', hm', hlength, fun tasks => .trans (.single ?_) (.single (hstore tasks))⟩
  exact .keep m k () tasks (hm.isFull_eq_false hsize)

/-- Keys are put one after the other. -/
theorem puts (hm : m.Packed live k k) (n : Nat) (hn : 4 * (k + n) ≤ 3 * m.length) :
  ∃ m', m'.Packed live (k + n) (k + n) ∧ m'.length = m.length
    ∧ ∀ tasks, Relation.ReflTransGen (Step spread)
      ⟨m, (List.range' k n).map (.put · ()) ++ tasks⟩ ⟨m', tasks⟩
  := by
  induction n generalizing m k with
  | zero => exact ⟨m, hm, rfl, fun tasks => .refl⟩
  | succ n ih =>
      have hsame : ∀ i < k, live i = live i := fun _ _ => rfl
      obtain ⟨m₁, hm₁, hlength₁, hput⟩ := hm.put (by omega) (by omega) hsame rfl
      obtain ⟨m', hm', hlength, hputs⟩ := ih hm₁ (by omega)
      rw [Nat.add_right_comm k 1 n] at hm'
      refine ⟨m', hm', hlength.trans hlength₁, fun tasks => ?_⟩
      exact (hput _).trans (hputs tasks)

theorem puts_eq (hm : m.Packed live n size) :
  m.puts = (List.range' 0 n).map (.put · ())
  := by
  have htable : m.table.toList
      = (List.range m.length).map fun i => if i < n then some ⟨i, (), false⟩ else none := by
    apply List.ext_getElem
    · simp
    · intro i hi _
      rw [Vector.length_toList] at hi
      rw [Vector.getElem_toList, List.getElem_map, List.getElem_range]
      exact hm.entry_eq ⟨i, hi⟩
  obtain ⟨c, hc⟩ := Nat.exists_eq_add_of_le hm.le_length
  rw [GTUHashMap.puts, htable, List.filterMap_map, hc, List.range_add, List.filterMap_append,
    ← List.range_eq_range', List.filterMap_map]
  have hlow : (List.range n).filterMap
    ((fun slot : Option (Entry Nat Unit) => slot.bind fun entry =>
      if entry.isDeleted then none else some (Task.put entry.key entry.value))
        ∘ fun i => if i < n then some ⟨i, (), false⟩ else none)
        = (List.range n).map (.put · ()) := by
    rw [List.filterMap_eq_map_iff_forall_eq_some]
    intro i hi
    rw [Function.comp_apply, if_pos (List.mem_range.mp hi)]
    rfl
  rw [hlow, List.filterMap_eq_nil_iff.mpr, List.append_nil]
  intro i _
  rw [Function.comp_apply, Function.comp_apply, if_neg (by omega)]
  rfl

/-- The next key is put, if there are not too many of them. -/
theorem next (hm : m.Packed live n n) (hn : n ≤ 111878) (hreach : Reachable spread ⟨m, []⟩) :
  ∃ m', m'.Packed live (n + 1) (n + 1) ∧ 4 * n < 3 * m'.length ∧ Reachable spread ⟨m', []⟩
  := by
  obtain ⟨length, hpos, hfirst, hsteps⟩ := hreach
  have hsame : ∀ i < n, live i = live i := fun _ _ => rfl
  have hcall : Step spread ⟨m, []⟩ ⟨m, [.put n ()]⟩ := .call m (.put n ()) rfl
  have hle := hm.le_length
  by_cases hsize : 4 * n < 3 * m.length
  · obtain ⟨m', hm', hlength, hput⟩ := hm.put (by omega) hsize hsame rfl
    refine ⟨m', hm', by omega, length, hpos, hfirst, ?_⟩
    exact (hsteps.tail hcall).trans (hput [])
  · have hfull : m.isFull = true := by
      rw [isFull, hm.size_eq, decide_eq_true_iff]
      omega
    have hbound : nextPrime (m.length * 2 : Nat) ≤ 524287 := nextPrime_le (by omega)
    have hdouble := le_nextPrime (m.length * 2 : Nat)
    have hprime := prime_nextPrime (m.length * 2 : Nat)
    have hwrap : Java.wrap (m.length * 2) = (m.length * 2 : Nat) :=
      wrap_natCast (n := m.length * 2) (by omega)
    have hresize : Step spread ⟨m, [.put n ()]⟩
        ⟨ofLength (nextPrime (m.length * 2 : Nat)) hprime.pos, m.puts ++ [.store n ()]⟩ := by
      apply Step.resize m n () [] _ hprime.pos hfull
      rw [hwrap]
      exact nextPrime_of_le hbound
    have hlength₀ : (ofLength (nextPrime (m.length * 2 : Nat)) hprime.pos :
      GTUHashMap Nat Unit).length = nextPrime (m.length * 2 : Nat) := rfl
    obtain ⟨m₁, hm₁, hlength₁, hputs⟩ := (packed_ofLength hprime hbound).puts n (by omega)
    rw [Nat.zero_add] at hm₁
    have hpos₀ := hm.prime.pos
    obtain ⟨m', hm', hlength', hstore⟩ := hm₁.store (by omega) (by omega) hsame rfl
    refine ⟨m', hm', by omega, length, hpos, hfirst, ?_⟩
    rw [hm.puts_eq] at hresize
    exact (((hsteps.tail hcall).tail hresize).trans (hputs _)).tail (hstore [])

/-- The next key is put and removed again. -/
theorem bury (hm : m.Packed deleted k size) (h : k < m.length) (hsize : 4 * size < 3 * m.length)
    (hdeleted : deleted k = true) (hreach : Reachable spread ⟨m, []⟩) :
  ∃ m', m'.Packed deleted (k + 1) size ∧ m'.length = m.length ∧ Reachable spread ⟨m', []⟩
  := by
  obtain ⟨length, hpos, hfirst, hsteps⟩ := hreach
  have hbefore : ∀ i < k, Function.update deleted k false i = deleted i :=
    fun i hi => Function.update_of_ne hi.ne _ _
  obtain ⟨m₁, hm₁, hlength₁, hput⟩ := hm.put h hsize hbefore (Function.update_self k false deleted)
  obtain ⟨m', hm', hlength', hremove⟩ := hm₁.remove (Function.update_self k false deleted)
    (fun i hi => (hbefore i hi).symm) hdeleted
  refine ⟨m', hm', hlength'.trans hlength₁, length, hpos, hfirst, ?_⟩
  have hcall : Step spread ⟨m, []⟩ ⟨m, [.put k ()]⟩ := .call m (.put k ()) rfl
  have hcall' : Step spread ⟨m₁, []⟩ ⟨m₁, [.remove k]⟩ := .call m₁ (.remove k) rfl
  exact (((hsteps.tail hcall).trans (hput [])).tail hcall').tail (hremove [])

end Packed

theorem exists_live (n : Nat) :
  n ≤ 111878 → ∃ m : GTUHashMap Nat Unit, m.Packed live n n ∧ Reachable spread ⟨m, []⟩
  := by
  induction n with
  | zero =>
      intro _
      have hp : Nat.Prime 17 := by decide
      exact ⟨_, packed_ofLength hp (by decide), reachable_ofLength⟩
  | succ n ih =>
      intro hn
      obtain ⟨m, hm, hreach⟩ := ih (by omega)
      obtain ⟨m', hm', -, hreach'⟩ := hm.next (by omega) hreach
      exact ⟨m', hm', hreach'⟩

/-- The places that are left are filled with deleted keys. -/
theorem exists_full (c : Nat) (hm : m.Packed buried k 111878) (hk : 111878 ≤ k)
    (hc : k + c = m.length) (hsize : 4 * 111878 < 3 * m.length)
    (hreach : Reachable spread ⟨m, []⟩) :
  ∃ m' : GTUHashMap Nat Unit, m'.Packed buried m'.length 111878 ∧ m'.length = m.length
    ∧ Reachable spread ⟨m', []⟩
  := by
  induction c generalizing m k with
  | zero =>
      obtain rfl : k = m.length := hc
      exact ⟨m, hm, rfl, hreach⟩
  | succ c ih =>
      obtain ⟨m₁, hm₁, hlength₁, hreach₁⟩ := hm.bury (by omega) hsize (decide_eq_true hk) hreach
      obtain ⟨m', hm', hlength', hreach'⟩ := ih hm₁ (by omega) (by omega) (by omega) hreach₁
      exact ⟨m', hm', hlength'.trans hlength₁, hreach'⟩

/-- A large table without a free place is reached. -/
theorem exists_crowded :
  ∃ m : GTUHashMap Nat Unit, m.Packed buried m.length 111878 ∧ 111877 < m.length
    ∧ Reachable spread ⟨m, []⟩
  := by
  obtain ⟨m, hm, hreach⟩ := exists_live 111878 (Nat.le_refl _)
  obtain ⟨m₁, hm₁, hsize, length, hpos, hfirst, hsteps⟩ := hm.next (Nat.le_refl _) hreach
  have hlow : ∀ i < 111878, buried i = live i :=
    fun i hi => decide_eq_false (Nat.not_le.mpr hi)
  obtain ⟨m₂, hm₂, hlength₂, hremove⟩ := hm₁.remove rfl hlow (decide_eq_true (Nat.le_refl _))
  have hcall : Step spread ⟨m₁, []⟩ ⟨m₁, [.remove 111878]⟩ := .call m₁ (.remove 111878) rfl
  have hle := hm₂.le_length
  obtain ⟨m', hm', hlength', hreach'⟩ := exists_full (m₂.length - 111879) hm₂ (by decide)
    (by omega) (by omega) ⟨length, hpos, hfirst, (hsteps.tail hcall).tail (hremove [])⟩
  exact ⟨m', hm', by omega, hreach'⟩

theorem overflowAt_zero :
  overflowAt 0 = 46341
  := by
  have hlow : 46340 < overflowAt 0 := (lt_overflowAt (by decide)).mpr (by decide)
  have hhigh : ¬ 46341 < overflowAt 0 :=
    fun h => absurd ((lt_overflowAt (by decide)).mp h) (by decide)
  omega

/-- In a full table of a large prime length, a new key that starts at the place 0 does not fit. -/
theorem Packed.not_fits (hm : m.Packed deleted m.length size) (hlength : 111877 < m.length) :
  ¬ m.Fits spread m.length
  := by
  have hzero : (m.getIndex spread m.length).val = 0 := by
    have hle := hm.length_le
    rw [getIndex_spread m (by omega), Nat.mod_self]
  rintro (⟨i, hexact, hend⟩ | ⟨hdvd, -⟩)
  · rcases hend with hstops | ⟨hpos, hback⟩
    · have hlt := (m.indexOf spread m.length i).isLt
      rw [stops, hm.entry_eq, if_pos hlt, Option.all_some, holdsKey, Bool.and_eq_true,
        beq_iff_eq] at hstops
      exact hlt.ne hstops.2
    · have hdvd : m.length ∣ i := (Probing.slot_eq_start hm.prime
        (m.getIndex spread m.length).isLt).mp (congrArg Fin.val hback)
      have hle := Nat.le_of_dvd hpos hdvd
      have hsquare : 111878 * 111878 ≤ i * i := Nat.mul_le_mul (by omega) (by omega)
      omega
  · rw [hzero, overflowAt_zero] at hdvd
    have hfactors : m.length ∣ 5 * 11 * 349 * 111877 := hdvd
    rw [hm.prime.dvd_mul, hm.prime.dvd_mul, hm.prime.dvd_mul] at hfactors
    rcases hfactors with ((h | h) | h) | h
    all_goals
      have hle := Nat.le_of_dvd (by decide) h
      omega

/-- A map is reached in which the loop for a key leaves the table. -/
theorem not_exists_probes :
  ¬ ∀ (K V : Type) [BEq K] [LawfulBEq K] (hashCode : K → BitVec 32) (s : State K V),
    Reachable hashCode s →
    ∀ key, ∃ result, s.map.Probes hashCode key result
  := by
  intro hall
  obtain ⟨m, hm, hlength, hreach⟩ := exists_crowded
  have hprobes := hall Nat Unit spread ⟨m, []⟩ hreach m.length
  exact hm.not_fits hlength ((exists_probes_iff hreach.length_le).mp hprobes)

end GTUHashMap

end Hashing
