import Homeworks.Hashing.Resizing

/-!
# Calls of the map

The results of calls, with keys that may be null.  They are those of a finite map, as long as
every key that is put finds a place.
-/

namespace Hashing

/-- A call of an operation; a key that is null is `none`. -/
inductive Call (K V : Type*) where
  | put (key : Option K) (value : V)
  | get (key : Option K)
  | remove (key : Option K)
  | containsKey (key : Option K)
  | size

inductive Result (V : Type*) where
  | done
  | exception (message : String)
  | value (v : Option V)
  | bool (b : Bool)
  | int (n : Int)
  deriving DecidableEq

variable {K V : Type*} [BEq K]

/-! ### The map -/

namespace GTUHashMap

variable (hashCode : K → BitVec 32)

/-- The result of a call, and the map after it. -/
def call (depth : Nat) (m : GTUHashMap K V) : Call K V → Option (Result V × GTUHashMap K V)
  | .put none _ => some (.exception "Key cannot be null", m)
  | .put (some key) value => (m.put hashCode depth key value).map fun m => (.done, m)
  | .get none => some (.value none, m)
  | .get (some key) => some (.value (m.get hashCode key), m)
  | .remove none => some (.done, m)
  | .remove (some key) => some (.done, m.remove hashCode key)
  | .containsKey none => some (.bool false, m)
  | .containsKey (some key) => some (.bool (m.containsKey hashCode key), m)
  | .size => some (.int m.size, m)

/-- The results of some calls. -/
def results (depth : Nat) (m : GTUHashMap K V) : List (Call K V) → Option (List (Result V))
  | [] => some []
  | c :: calls =>
      match m.call hashCode depth c with
      | none => none
      | some (result, m) => (m.results depth calls).map fun results => result :: results

/-- A call does not put a key without a place for it; if the table is resized there is one. -/
def admits (m : GTUHashMap K V) : Call K V → Bool
  | .put (some key) _ => m.isFull || m.hasPlace hashCode key
  | _ => true

/-- No call of some puts a key without a place for it. -/
def admitsAll (depth : Nat) (m : GTUHashMap K V) : List (Call K V) → Bool
  | [] => true
  | c :: calls =>
      m.admits hashCode c && match m.call hashCode depth c with
        | none => true
        | some (_, m) => m.admitsAll depth calls

end GTUHashMap

/-! ### The finite map -/

/-- The result of a call of a finite map, and the map after it. -/
def specCall [EquivBEq K] (a : FiniteMap K V) : Call K V → Result V × FiniteMap K V
  | .put none _ => (.exception "Key cannot be null", a)
  | .put (some key) value => (.done, a.insert key value)
  | .get none => (.value none, a)
  | .get (some key) => (.value (a.get key), a)
  | .remove none => (.done, a)
  | .remove (some key) => (.done, a.erase key)
  | .containsKey none => (.bool false, a)
  | .containsKey (some key) => (.bool (a.contains key), a)
  | .size => (.int a.size, a)

def specResults [EquivBEq K] (a : FiniteMap K V) : List (Call K V) → List (Result V)
  | [] => []
  | c :: calls => (specCall a c).1 :: specResults (specCall a c).2 calls

/-! ### Refinement -/

namespace GTUHashMap

variable [EquivBEq K] {hashCode : K → BitVec 32} {m : GTUHashMap K V} {a : FiniteMap K V}

/-- A call keeps the refinement, and has the result of the finite map. -/
theorem Refines.call (hhash : ∀ a b, (a == b) = true → hashCode a = hashCode b)
    (h : m.Refines hashCode a) (depth : Nat) (c : Call K V) (hadmits : m.admits hashCode c = true) :
  ∃ m', m.call hashCode (depth + 1) c = some ((specCall a c).1, m')
    ∧ m'.Refines hashCode (specCall a c).2
  := by
  cases c with
  | put key value =>
      cases key with
      | none => exact ⟨m, rfl, h⟩
      | some key =>
          obtain ⟨m', hput, hrefines⟩ := h.put hhash hadmits depth value
          refine ⟨m', ?_, hrefines⟩
          rw [GTUHashMap.call, hput]
          rfl
  | get key =>
      cases key with
      | none => exact ⟨m, rfl, h⟩
      | some key =>
          refine ⟨m, ?_, h⟩
          rw [GTUHashMap.call, h.get_eq]
          rfl
  | remove key =>
      cases key with
      | none => exact ⟨m, rfl, h⟩
      | some key => exact ⟨m.remove hashCode key, rfl, h.remove key⟩
  | containsKey key =>
      cases key with
      | none => exact ⟨m, rfl, h⟩
      | some key =>
          refine ⟨m, ?_, h⟩
          rw [GTUHashMap.call, h.containsKey_eq]
          rfl
  | size =>
      refine ⟨m, ?_, h⟩
      rw [GTUHashMap.call, h.size]
      rfl

theorem Refines.results (hhash : ∀ a b, (a == b) = true → hashCode a = hashCode b)
    (h : m.Refines hashCode a) (depth : Nat) (calls : List (Call K V))
    (hadmits : m.admitsAll hashCode (depth + 1) calls = true) :
  m.results hashCode (depth + 1) calls = some (specResults a calls)
  := by
  induction calls generalizing m a with
  | nil => rfl
  | cons c calls ih =>
      rw [admitsAll, Bool.and_eq_true] at hadmits
      obtain ⟨m', hcall, hrefines⟩ := h.call hhash depth c hadmits.1
      have hrest := hadmits.2
      rw [hcall] at hrest
      rw [GTUHashMap.results, hcall]
      dsimp only
      rw [ih hrefines hrest]
      rfl

omit [EquivBEq K] in
theorem refines_new :
  (new : GTUHashMap K V).Refines hashCode FiniteMap.empty
  := refines_ofLength (prime_nextPrime _)

/-- The results are those of a finite map if every key that is put finds a place. -/
theorem results_eq (hashCode : K → BitVec 32)
    (hhash : ∀ a b, (a == b) = true → hashCode a = hashCode b) (depth : Nat)
    (calls : List (Call K V))
    (hadmits : (new : GTUHashMap K V).admitsAll hashCode (depth + 1) calls = true) :
  (new : GTUHashMap K V).results hashCode (depth + 1) calls
    = some (specResults FiniteMap.empty calls)
  := refines_new.results hhash depth calls hadmits

/-! ### A collision of ten keys -/

omit [BEq K] in
theorem ofLength_congr {l l' : Nat} (h : l = l') (hl : 0 < l) (hl' : 0 < l') :
  (ofLength l hl : GTUHashMap K V) = ofLength l' hl'
  := by
  cases h
  rfl

/-- The length of the first table. -/
theorem nextPrime_capacity :
  nextPrime CAPACITY = 17
  := by
  have hle : leastPrime 16 ≤ 17 := leastPrime_le (by decide) (by decide)
  obtain ⟨hge, hp⟩ := leastPrime_spec 16
  have hne : leastPrime 16 ≠ 16 := by
    intro heq
    rw [heq] at hp
    revert hp
    decide
  rw [nextPrime_eq]
  change leastPrime 16 = 17
  omega

omit [BEq K] in
theorem new_eq :
  (new : GTUHashMap K V) = ofLength 17 (by decide)
  := ofLength_congr nextPrime_capacity _ _

theorem results_eq_two :
  (new : GTUHashMap Nat Nat).results (fun _ => 0#32) 1
      [.put (some 1) 10, .put (some 2) 20, .remove (some 1), .get (some 1), .get (some 2), .size]
    = some (specResults FiniteMap.empty
      [.put (some 1) 10, .put (some 2) 20, .remove (some 1), .get (some 1), .get (some 2), .size])
  := by
  apply results_eq
  · exact fun _ _ _ => rfl
  · rw [new_eq]
    decide

/-- Ten keys that have the same hash code: the tenth one takes the place of the first one. -/
theorem results_ne_ten :
  ¬ ∀ (K V : Type) [BEq K] [EquivBEq K] (hashCode : K → BitVec 32),
    (∀ a b, (a == b) = true → hashCode a = hashCode b) → ∀ (depth : Nat) (calls : List (Call K V)),
      (new : GTUHashMap K V).results hashCode (depth + 1) calls
        = some (specResults FiniteMap.empty calls)
  := by
  intro hall
  have hresults := hall Nat Nat (fun _ => 0#32) (fun _ _ _ => rfl) 0
    ((List.range 10).map (fun k => .put (some k) k) ++ [.containsKey (some 0)])
  rw [new_eq] at hresults
  revert hresults
  decide

end GTUHashMap

end Hashing
