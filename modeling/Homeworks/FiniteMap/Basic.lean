import Mathlib.Data.List.Basic

/-!
# Finite maps

A finite map is a list of keys with their values; no two keys are equal.  Keys are compared by
an equivalence, which need not be the equality.
-/

structure FiniteMap (K V : Type*) [BEq K] where
  entries : List (K × V)
  distinct : entries.Pairwise fun a b => (a.1 == b.1) = false

namespace FiniteMap

variable {K V : Type*} [BEq K]

def empty : FiniteMap K V := ⟨[], .nil⟩

def get (m : FiniteMap K V) (key : K) : Option V :=
  (m.entries.find? fun e => e.1 == key).map Prod.snd

def contains (m : FiniteMap K V) (key : K) : Bool := (m.get key).isSome

def size (m : FiniteMap K V) : Nat := m.entries.length

def erase (m : FiniteMap K V) (key : K) : FiniteMap K V :=
  ⟨m.entries.filter fun e => !(e.1 == key), m.distinct.filter _⟩

theorem not_beq_of_mem_erase {m : FiniteMap K V} {key : K} {e : K × V}
    (he : e ∈ (m.erase key).entries) :
  (e.1 == key) = false
  := by
  rw [erase, List.mem_filter, Bool.not_eq_true'] at he
  exact he.2

variable [EquivBEq K]

theorem distinct_insert (m : FiniteMap K V) (key : K) (value : V) :
  ((key, value) :: (m.erase key).entries).Pairwise fun a b => (a.1 == b.1) = false
  := by
  rw [List.pairwise_cons]
  refine ⟨?_, (m.erase key).distinct⟩
  intro e he
  rw [BEq.comm]
  exact not_beq_of_mem_erase he

def insert (m : FiniteMap K V) (key : K) (value : V) : FiniteMap K V :=
  ⟨(key, value) :: (m.erase key).entries, distinct_insert m key value⟩

variable {m : FiniteMap K V} {key key' : K} {value : V}

theorem get_congr (h : (key == key') = true) :
  m.get key = m.get key'
  := by
  have hkey : (fun e : K × V => e.1 == key) = fun e => e.1 == key' := by
    funext e
    exact BEq.congr_right h
  rw [get, get, hkey]

theorem get_erase :
  (m.erase key).get key' = if key == key' then none else m.get key'
  := by
  rw [get, erase, List.find?_filter]
  split
  · rename_i hkey
    rw [List.find?_eq_none.mpr]
    · rfl
    · intro e _
      have hnot : ¬ ((!(e.1 == key)) = true ∧ (e.1 == key') = true) := by
        rintro ⟨hne, heq⟩
        rw [BEq.trans heq (BEq.symm hkey)] at hne
        cases hne
      simpa using hnot
  · rename_i hkey
    rw [get]
    congr 2
    funext e
    rw [Bool.eq_iff_iff, decide_eq_true_iff]
    refine ⟨And.right, fun heq => ⟨?_, heq⟩⟩
    rw [Bool.not_eq_true', ← Bool.not_eq_true]
    exact fun hkey' => hkey (BEq.trans (BEq.symm hkey') heq)

theorem get_insert :
  (m.insert key value).get key' = if key == key' then some value else m.get key'
  := by
  rw [get, insert, List.find?_cons]
  split
  · rename_i hkey
    rw [if_pos hkey]
    rfl
  · rename_i hkey
    have herase : (m.erase key).get key' = if key == key' then none else m.get key' := get_erase
    rw [if_neg (ne_true_of_eq_false hkey)] at herase ⊢
    exact herase

theorem size_insert :
  (m.insert key value).size = (m.erase key).size + 1
  := rfl

/-- A key that is erased was there once, or not at all. -/
theorem size_erase (m : FiniteMap K V) (key : K) :
  (m.erase key).size + (if m.contains key then 1 else 0) = m.size
  := by
  obtain ⟨entries, hdistinct⟩ := m
  have hcontains : (FiniteMap.mk entries hdistinct).contains key
      = (entries.find? fun e => e.1 == key).isSome := Option.isSome_map
  rw [hcontains]
  change (entries.filter fun e => !(e.1 == key)).length + _ = entries.length
  clear hcontains
  induction entries with
  | nil => rfl
  | cons e entries ih =>
      obtain ⟨he, hdistinct⟩ := List.pairwise_cons.mp hdistinct
      have hlength := ih hdistinct
      rw [List.filter_cons, List.find?_cons]
      cases hkey : e.1 == key with
      | true =>
          have hnone : entries.find? (fun e => e.1 == key) = none := by
            rw [List.find?_eq_none]
            intro e' he' heq
            exact Bool.false_ne_true ((he e' he').symm.trans (BEq.trans hkey (BEq.symm heq)))
          rw [hnone] at hlength
          exact congrArg (· + 1) hlength
      | false =>
          rw [Bool.not_false, if_pos rfl, List.length_cons, List.length_cons, ← hlength]
          exact Nat.add_right_comm _ 1 _

/-- Maps with the same values have the same size. -/
theorem size_eq_of_get_eq {m' : FiniteMap K V} (h : ∀ key, m.get key = m'.get key) :
  m.size = m'.size
  := by
  obtain ⟨entries, hdistinct⟩ := m
  induction entries generalizing m' with
  | nil =>
      obtain ⟨entries', hdistinct'⟩ := m'
      cases entries' with
      | nil => rfl
      | cons e entries' =>
          have hget := h e.1
          simp [get] at hget
  | cons e entries ih =>
      obtain ⟨he, hrest⟩ := List.pairwise_cons.mp hdistinct
      have hfirst : (FiniteMap.mk (e :: entries) hdistinct).get e.1 = some e.2 := by
        rw [get, List.find?_cons, BEq.rfl]
        rfl
      have hcontains : m'.contains e.1 = true := by
        rw [contains, ← h, hfirst]
        rfl
      have herase : (FiniteMap.mk (e :: entries) hdistinct).erase e.1 = ⟨entries, hrest⟩ := by
        rw [erase, mk.injEq, List.filter_cons_of_neg]
        · rw [List.filter_eq_self]
          intro e' he'
          rw [BEq.comm, he e' he', Bool.not_false]
        · rw [BEq.rfl, Bool.not_true]
          exact Bool.false_ne_true
      have hsize : (FiniteMap.mk entries hrest).size = (m'.erase e.1).size := by
        apply ih
        intro key
        rw [← herase, get_erase, get_erase, h]
      have hsize' := size_erase m' e.1
      rw [hcontains, if_pos rfl] at hsize'
      rw [← hsize', ← hsize]
      rfl

end FiniteMap
