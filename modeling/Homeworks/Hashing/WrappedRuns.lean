import Homeworks.Hashing.WrappedPrimes
import Homeworks.Hashing.WrappedProbes
import Mathlib.Logic.Relation

/-!
# Runs of a map that wrap around

A map with what is left of the call that is being served: `resize` puts the entries of the old
table before the key of the call is stored.
-/

namespace Hashing

namespace GTUHashMap

variable {K V : Type*} [BEq K]

/-! ### Steps -/

/-- What is to be done: a call, or the part of `put` after the table has been resized. -/
inductive Task (K V : Type*) where
  | put (key : K) (value : V)
  | store (key : K) (value : V)
  | get (key : K)
  | remove (key : K)
  | containsKey (key : K)

def Task.isCall : Task K V → Bool
  | .store _ _ => false
  | _ => true

def Task.isPut : Task K V → Bool
  | .put _ _ => true
  | _ => false

def Task.key : Task K V → K
  | .put key _ => key
  | .store key _ => key
  | .get key => key
  | .remove key => key
  | .containsKey key => key

structure State (K V : Type*) where
  map : GTUHashMap K V
  tasks : List (Task K V)

/-- The entries that `resize` puts into the new table. -/
def puts (m : GTUHashMap K V) : List (Task K V) :=
  m.table.toList.filterMap fun slot => slot.bind fun entry =>
    if entry.isDeleted then none else some (.put entry.key entry.value)

def storeAt (m : GTUHashMap K V) (key : K) (value : V) : Probe m.length → GTUHashMap K V
  | .found index =>
      { m with
        table := m.table.set index
          ((getElem m.table index (m.index_lt index)).map fun entry =>
            { entry with value := value })
          (m.index_lt index) }
  | .stopped index =>
      { m with
        table := m.table.set index (some ⟨key, value, false⟩) (m.index_lt index)
        size := Java.wrap (m.size + 1) }

def removeAt (m : GTUHashMap K V) : Probe m.length → GTUHashMap K V
  | .found index =>
      { m with
        table := m.table.set index
          ((getElem m.table index (m.index_lt index)).map fun entry =>
            { entry with isDeleted := true })
          (m.index_lt index)
        size := Java.wrap (m.size - 1) }
  | .stopped _ => m

/-- A loop that leaves the table ends the call with an exception. -/
inductive Step (hashCode : K → BitVec 32) : State K V → State K V → Prop
  | call (m : GTUHashMap K V) (task : Task K V) (hcall : task.isCall = true) :
      Step hashCode ⟨m, []⟩ ⟨m, [task]⟩
  | resize (m : GTUHashMap K V) (key : K) (value : V) (tasks : List (Task K V)) (length : Nat)
      (hpos : 0 < length) (hfull : m.isFull = true)
      (hlength : NextPrime (Java.wrap (m.length * 2)) length) :
      Step hashCode ⟨m, .put key value :: tasks⟩
        ⟨ofLength length hpos, m.puts ++ .store key value :: tasks⟩
  | keep (m : GTUHashMap K V) (key : K) (value : V) (tasks : List (Task K V))
      (hfull : m.isFull = false) :
      Step hashCode ⟨m, .put key value :: tasks⟩ ⟨m, .store key value :: tasks⟩
  | store (m : GTUHashMap K V) (key : K) (value : V) (tasks : List (Task K V))
      (result : Probe m.length) (hprobe : m.Probes hashCode key result) :
      Step hashCode ⟨m, .store key value :: tasks⟩ ⟨m.storeAt key value result, tasks⟩
  | get (m : GTUHashMap K V) (key : K) (tasks : List (Task K V)) (result : Probe m.length)
      (hprobe : m.Probes hashCode key result) :
      Step hashCode ⟨m, .get key :: tasks⟩ ⟨m, tasks⟩
  | remove (m : GTUHashMap K V) (key : K) (tasks : List (Task K V)) (result : Probe m.length)
      (hprobe : m.Probes hashCode key result) :
      Step hashCode ⟨m, .remove key :: tasks⟩ ⟨m.removeAt result, tasks⟩
  | containsKey (m : GTUHashMap K V) (key : K) (tasks : List (Task K V)) (result : Probe m.length)
      (hprobe : m.Probes hashCode key result) :
      Step hashCode ⟨m, .containsKey key :: tasks⟩ ⟨m, tasks⟩
  | throw (m : GTUHashMap K V) (task : Task K V) (tasks : List (Task K V))
      (hprobes : task.isPut = false) (hnone : ∀ result, ¬ m.Probes hashCode task.key result) :
      Step hashCode ⟨m, task :: tasks⟩ ⟨m, []⟩

/-- The states of the runs of a map that is new. -/
def Reachable (hashCode : K → BitVec 32) (s : State K V) : Prop :=
  ∃ length : Nat, ∃ hpos : 0 < length, NextPrime CAPACITY length
    ∧ Relation.ReflTransGen (Step hashCode) ⟨ofLength length hpos, []⟩ s

variable {hashCode : K → BitVec 32} {s t : State K V}

/-- The length of a table is an `int`. -/
theorem Step.length_le (h : Step hashCode s t) (hs : s.map.length ≤ 2147483647) :
  t.map.length ≤ 2147483647
  := by
  cases h with
  | resize m key value tasks length hpos hfull hlength =>
      have hint := Java.isInt_iff.mp (hlength.isInt (Java.isInt_wrap _))
      change length ≤ _
      omega
  | store m key value tasks result hprobe =>
      cases result with
      | found index => exact hs
      | stopped index => exact hs
  | remove m key tasks result hprobe =>
      cases result with
      | found index => exact hs
      | stopped index => exact hs
  | call m task hcall => exact hs
  | keep m key value tasks hfull => exact hs
  | get m key tasks result hprobe => exact hs
  | containsKey m key tasks result hprobe => exact hs
  | throw m task tasks hprobes hnone => exact hs

theorem Reachable.length_le (h : Reachable hashCode s) :
  s.map.length ≤ 2147483647
  := by
  obtain ⟨length, hpos, hlength, hsteps⟩ := h
  induction hsteps with
  | refl =>
      have hint := Java.isInt_iff.mp (hlength.isInt (by decide))
      change length ≤ _
      omega
  | tail _ hstep ih => exact hstep.length_le ih

theorem reachable_ofLength :
  Reachable hashCode (⟨ofLength 17 (by decide), []⟩ : State K V)
  := ⟨17, by decide, ⟨2, by decide⟩, .refl⟩

/-- In every state of a run, the loop for a key ends in the table if and only if the key fits. -/
theorem Reachable.ends_iff_fits (h : Reachable hashCode s) (key : K) :
  (∃ result, s.map.Probes hashCode key result) ↔ s.map.Fits hashCode key
  := exists_probes_iff h.length_le

theorem seventeen_pos :
  0 < 17
  := by decide

/-- The index 3 of a new table. -/
def third : Fin (ofLength 17 seventeen_pos : GTUHashMap Nat Nat).length := ⟨3, by decide⟩

/-- A map after `put` of the key 3. -/
def single : GTUHashMap Nat Nat := storeAt (ofLength 17 seventeen_pos) 3 7 (.stopped third)

theorem reachable_single :
  Reachable (BitVec.ofNat 32) ⟨single, []⟩
  := by
  have hprobes : (ofLength 17 seventeen_pos : GTUHashMap Nat Nat).Probes (BitVec.ofNat 32) 3
      (.stopped third) := ⟨1, rfl⟩
  have hcall : Step (BitVec.ofNat 32) (⟨ofLength 17 seventeen_pos, []⟩ : State Nat Nat) _ :=
    .call _ (.put 3 7) rfl
  have hkeep := (Relation.ReflTransGen.single hcall).tail (.keep _ 3 7 [] rfl)
  exact ⟨17, by decide, ⟨2, by decide⟩, hkeep.tail (.store _ 3 7 [] _ hprobes)⟩

/-- A key whose first index is taken. -/
theorem ends_iff_fits_single :
  (∃ result, single.Probes (BitVec.ofNat 32) 20 result) ↔ single.Fits (BitVec.ofNat 32) 20
  := Reachable.ends_iff_fits reachable_single 20

end GTUHashMap

end Hashing
