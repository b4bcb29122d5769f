import Homeworks.CString.Memory

/-!
# The gates of a circuit file

The file is read twice: `main` counts the gates character by character, in order to allocate the
array for them, and `create_circuit` creates them line by line.
-/

namespace LogicCircuit

open CString

inductive GateType where
  | INPUT
  | OUTPUT
  | AND
  | OR
  | NOT
  | FLIPFLOP
  deriving DecidableEq, Repr

/-- `struct gate`, where what is not set is none.  A pointer to a gate is its index in the array. -/
structure Gate where
  type : Option GateType
  name : List Char
  inp1 : Option ℕ
  inp2 : Option ℕ
  output : Option ℤ
  formerOut : Option ℤ
  flag : Option ℤ
  deriving DecidableEq, Repr

/-- `gates`, for a gate with a name. -/
def gates (gateType name : List Char) : Gate :=
  let gate : Gate := ⟨none, name, none, none, none, none, none⟩
  if gateType = "INPUT".toList then { gate with type := some .INPUT }
  else if gateType = "OUTPUT".toList then { gate with type := some .OUTPUT }
  else if gateType = "AND".toList then { gate with type := some .AND, flag := some (-1) }
  else if gateType = "OR".toList then { gate with type := some .OR, flag := some (-1) }
  else if gateType = "NOT".toList then { gate with type := some .NOT }
  else if gateType = "FLIPFLOP".toList then
    { gate with type := some .FLIPFLOP, formerOut := some 0, flag := some (-1) }
  else gate

/-! ### Reading lines -/

/-- The lines that `fgets` reads into a buffer of a size, where the beginning of a line has been
read. -/
def fgets (size : ℕ) (line : List Char) : List Char → List (List Char)
  | [] => if line = [] then [] else [line]
  | c :: s =>
      if c = '\n' ∨ line.length + 2 = size then (line ++ [c]) :: fgets size [] s
      else fgets size (line ++ [c]) s

/-- `sscanf` with a `%s` for each of some buffers. -/
def sscanf (sizes : List ℕ) (line : List Char) : Checked (List (List Char)) :=
  let read := (words (string line)).take sizes.length
  if ∀ p ∈ read.zip sizes, p.1.length < p.2 then .ok read else .error .writeOutside

/-- The loop of `create_circuit` that creates gates, with the number of gates in the array. -/
def createGates : List (List Char) → ℕ → List (Option Gate) → Checked (List (Option Gate))
  | [], _, gateArr => .ok gateArr
  | line :: lines, count, gateArr =>
      match sscanf [15, 15, 20] line with
      | .error e => .error e
      | .ok [keyword, gateType, name] =>
          if keyword = "GATE".toList then
            match write gateArr count [some (gates gateType name)] with
            | .error e => .error e
            | .ok gateArr => createGates lines (count + 1) gateArr
          else createGates lines count gateArr
      | .ok _ => createGates lines count gateArr

/-! ### Counting -/

/-- The two loops of `main`: at the beginning of a line, or not.  The byte 255 is equal to `EOF`. -/
def countLoop : Bool → List Char → ℕ
  | _, [] => 0
  | true, ch :: s =>
      if ch = '\xff' then 0 else (if ch = 'G' then 1 else 0) + countLoop false s
  | false, ch :: s => countLoop (ch = '\n' || ch = '\xff') s

/-- `gate_count`. -/
def gateCount (file : List Char) : ℕ := countLoop true file

/-- The array is filled with the gates of the file. -/
def Filled (file : List Char) : Prop :=
  ∃ gateArr, createGates (fgets 100 [] file) 0 (List.replicate (gateCount file) none) = .ok gateArr
    ∧ ∀ gate ∈ gateArr, gate.isSome = true

end LogicCircuit
