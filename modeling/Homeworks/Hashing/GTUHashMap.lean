import Homeworks.Hashing.Primes
import Mathlib.Data.List.Range

/-!
# GTUHashMap

The hash map with its operations on keys that are not null.  A function `hashCode` is given
with the keys, and integers do not overflow.
-/

namespace Hashing

structure Entry (K V : Type*) where
  key : K
  value : V
  isDeleted : Bool
  deriving DecidableEq

structure GTUHashMap (K V : Type*) where
  length : Nat
  length_pos : 0 < length
  table : Vector (Option (Entry K V)) length
  size : Int
  deriving DecidableEq

/-- The initial capacity of a table. -/
def CAPACITY : Nat := 16

/-- Where the loop over the indices of a key ends: at an entry with the key, or elsewhere. -/
inductive Probe (length : Nat) where
  | found (index : Fin length)
  | stopped (index : Fin length)

namespace GTUHashMap

variable {K V : Type*}

theorem index_lt (m : GTUHashMap K V) (index : Fin m.length) :
  index.val < m.length
  := index.isLt

theorem toNat_lt (m : GTUHashMap K V) {index : Int} (h : 0 ≤ index ∧ index < m.length) :
  index.toNat < m.length
  := (Int.toNat_lt h.1).mpr h.2

/-- A map with an empty table. -/
def ofLength (length : Nat) (h : 0 < length) : GTUHashMap K V :=
  ⟨length, h, .replicate length none, 0⟩

def new : GTUHashMap K V := ofLength (nextPrime CAPACITY) (prime_nextPrime _).pos

/-- Whether the load factor of 0.75 is reached. -/
def isFull (m : GTUHashMap K V) : Bool := 4 * m.size ≥ 3 * m.length

variable [BEq K] (hashCode : K → BitVec 32)

def getIndex (m : GTUHashMap K V) (key : K) : Fin m.length :=
  let hash := hashCode key
  let hash := hash ^^^ (hash >>> 16)
  ⟨(hash &&& 0x7FFFFFFF#32).toNat % m.length, Nat.mod_lt _ m.length_pos⟩

/-- Whether an entry is there and has a key. -/
def holdsKey (entry : Entry K V) (key : K) : Bool := !entry.isDeleted && entry.key == key

/-- The loop over the indices of a key, for the values that `i` takes. -/
def probeLoop (m : GTUHashMap K V) (key : K) (startIndex index : Fin m.length) :
    List Nat → Probe m.length
  | [] => .stopped index
  | i :: is =>
      match m.table[index] with
      | none => .stopped index
      | some entry =>
          if holdsKey entry key then
            .found index
          else
            let index : Fin m.length := ⟨(startIndex + i * i) % m.length, Nat.mod_lt _ m.length_pos⟩
            if index = startIndex then .stopped index else probeLoop m key startIndex index is

/-- The loop of the operations; when `i` is the length the index is that of the start. -/
def probe (m : GTUHashMap K V) (key : K) : Probe m.length :=
  probeLoop m key (m.getIndex hashCode key) (m.getIndex hashCode key) (List.range' 1 m.length)

def get (m : GTUHashMap K V) (key : K) : Option V :=
  match m.probe hashCode key with
  | .found index => m.table[index].map Entry.value
  | .stopped _ => none

def containsKey (m : GTUHashMap K V) (key : K) : Bool :=
  match m.probe hashCode key with
  | .found _ => true
  | .stopped _ => false

/-- The entry is marked as deleted. -/
def remove (m : GTUHashMap K V) (key : K) : GTUHashMap K V :=
  match m.probe hashCode key with
  | .found index =>
      { m with
        table := m.table.set index (m.table[index].map fun entry =>
          { entry with isDeleted := true })
        size := m.size - 1 }
  | .stopped _ => m

/-- What `put` does after the table has been resized. -/
def store (m : GTUHashMap K V) (key : K) (value : V) : GTUHashMap K V :=
  match m.probe hashCode key with
  | .found index =>
      { m with
        table := m.table.set index (m.table[index].map fun entry => { entry with value := value }) }
  | .stopped index =>
      { m with table := m.table.set index (some ⟨key, value, false⟩), size := m.size + 1 }

/-- An entry of the old table is put into the new one, unless it has been deleted. -/
def rehash (put : GTUHashMap K V → K → V → Option (GTUHashMap K V)) (table : GTUHashMap K V) :
    Option (Entry K V) → Option (GTUHashMap K V)
  | none => some table
  | some entry => if entry.isDeleted then some table else put table entry.key entry.value

def resize (put : GTUHashMap K V → K → V → Option (GTUHashMap K V)) (m : GTUHashMap K V) :
    Option (GTUHashMap K V) :=
  m.table.toList.foldlM (rehash put)
    (ofLength (nextPrime (m.length * 2)) (prime_nextPrime _).pos)

/-- There is no result if tables are resized within each other more often than `depth` says. -/
def put : Nat → GTUHashMap K V → K → V → Option (GTUHashMap K V)
  | 0, m, key, value => if m.isFull then none else some (m.store hashCode key value)
  | depth + 1, m, key, value =>
      if m.isFull then
        (resize (put depth) m).map fun m => m.store hashCode key value
      else
        some (m.store hashCode key value)

end GTUHashMap

end Hashing
