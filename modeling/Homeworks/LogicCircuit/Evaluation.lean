import Homeworks.LogicCircuit.Gates

/-!
# The evaluation of a circuit

`create_circuit` connects the gates, and `operations` evaluates the circuit for every line of the
input file.  `evaluate` walks from a gate to the gates that it is connected to; a flip-flop stores
what it delivers.
-/

namespace LogicCircuit

open CString

/-! ### Connections -/

/-- The loop of `connection` that looks for the two gates, from the index `i` on. -/
def findGates (fromGate toGate : List Char) : List Gate → ℕ → Option ℕ × Option ℕ →
    Option ℕ × Option ℕ
  | [], _, found => found
  | gate :: gateArr, i, (fromGateptr, toGateptr) =>
      if gate.name = fromGate then
        findGates fromGate toGate gateArr (i + 1) (some i, toGateptr)
      else if gate.name = toGate then
        findGates fromGate toGate gateArr (i + 1) (fromGateptr, some i)
      else findGates fromGate toGate gateArr (i + 1) (fromGateptr, toGateptr)

/-- The gate `to_gateptr` after the connection. -/
def Gate.connect (gate : Gate) (fromGateptr : ℕ) : Gate :=
  if gate.type = some .AND ∨ gate.type = some .OR then
    if gate.flag = some (-1) then { gate with inp1 := some fromGateptr, flag := some 0 }
    else { gate with inp2 := some fromGateptr }
  else { gate with inp1 := some fromGateptr }

def connection (fromGate toGate : List Char) (gateArr : List Gate) : List Gate :=
  match findGates fromGate toGate gateArr 0 (none, none) with
  | (some fromGateptr, some toGateptr) => gateArr.modify toGateptr (·.connect fromGateptr)
  | _ => gateArr

/-- The loop of `create_circuit` that connects the gates. -/
def createConnections : List (List Char) → List Gate → Checked (List Gate)
  | [], gateArr => .ok gateArr
  | line :: lines, gateArr =>
      match sscanf [15, 15, 15] line with
      | .error e => .error e
      | .ok [keyword, fromGate, toGate] =>
          if keyword = "CONNECTION".toList then
            createConnections lines (connection fromGate toGate gateArr)
          else createConnections lines gateArr
      | .ok _ => createConnections lines gateArr

/-- `create_circuit`, on the array that `main` allocates.  An element that is not initialised is
past the end of what may be read. -/
def createCircuit (file : List Char) : Checked (List Gate) :=
  match createGates (fgets 100 [] file) 0 (List.replicate (gateCount file) none) with
  | .error e => .error e
  | .ok gateArr =>
      match gateArr.mapM id with
      | none => .error .readOutside
      | some gateArr => createConnections (fgets 100 [] file) gateArr

/-! ### Evaluation -/

/-- Why an evaluation has no result. -/
inductive Undefined where
  /-- a null pointer is used -/
  | nullPointer
  /-- a value is used that has not been set -/
  | uninitialised
  /-- the recursion has not come to an end -/
  | unfinished
  deriving DecidableEq

/-- The value of a member of a gate. -/
def get {α : Type} : Option α → Except Undefined α
  | some v => .ok v
  | none => .error .uninitialised

/-- `evaluate` with a bound on the depth of the recursion: what it returns, and the gates
afterwards. -/
def evaluate : ℕ → List Gate → Option ℕ → Except Undefined (ℤ × List Gate)
  | 0, _, _ => .error .unfinished
  | depth + 1, gateArr, ptr =>
      match ptr.bind fun i => gateArr[i]? with
      | none => .error .nullPointer
      | some gate => do
          match ← get gate.type with
          | .INPUT =>
              let output ← get gate.output
              .ok (output, gateArr)
          | .AND =>
              let first ← evaluate depth gateArr gate.inp1
              if first.1 = 0 then .ok (0, first.2)
              else
                let second ← evaluate depth first.2 gate.inp2
                .ok (if second.1 = 0 then 0 else 1, second.2)
          | .OR =>
              let first ← evaluate depth gateArr gate.inp1
              if first.1 ≠ 0 then .ok (1, first.2)
              else
                let second ← evaluate depth first.2 gate.inp2
                .ok (if second.1 = 0 then 0 else 1, second.2)
          | .NOT =>
              let first ← evaluate depth gateArr gate.inp1
              .ok (if first.1 = 0 then 1 else 0, first.2)
          | .FLIPFLOP =>
              let flag ← get gate.flag
              let formerOut ← get gate.formerOut
              if flag = -1 then
                let first ← evaluate depth gateArr gate.inp1
                -- the assignment to the flag is behind both returns
                let result := if formerOut = 0 then first.1 else if first.1 = 0 then 1 else 0
                .ok (result, first.2.modify (ptr.getD 0) ({ · with formerOut := some result }))
              else .ok (formerOut, gateArr)
          | .OUTPUT =>
              let formerOut ← get gate.formerOut
              .ok (formerOut, gateArr)

/-! ### Operations -/

/-- The index of the first output gate, from the index `i` on. -/
def findOutput : List Gate → ℕ → Except Undefined (Option ℕ)
  | [], _ => .ok none
  | gate :: gateArr, i => do
      let type ← get gate.type
      if type = .OUTPUT then .ok (some i) else findOutput gateArr (i + 1)

/-- The digits of a line. -/
def digits (line : List Char) : List ℤ :=
  ((string line).filter fun c => c = '0' ∨ c = '1').map fun c => if c = '1' then 1 else 0

/-- The bits are assigned to the input gates in turn. -/
def setInputs : List ℤ → List Gate → Except Undefined (List Gate)
  | _, [] => .ok []
  | digits, gate :: gateArr => do
      let type ← get gate.type
      if type = .INPUT then
        let rest ← setInputs digits.tail gateArr
        .ok ({ gate with output := digits.head? } :: rest)
      else
        let rest ← setInputs digits gateArr
        .ok (gate :: rest)

/-- The loop of `operations` over the lines of the input file: what it prints. -/
def operationsLoop (depth : ℕ) (outputptr : Option ℕ) : List (List Char) → List Gate →
    Except Undefined (List ℤ)
  | [], _ => .ok []
  | line :: lines, gateArr => do
      let gateArr ← setInputs (digits line) gateArr
      match outputptr.bind fun i => gateArr[i]? with
      | none => .error .nullPointer
      | some output =>
          let result ← evaluate depth gateArr output.inp1
          let results ← operationsLoop depth outputptr lines result.2
          .ok (result.1 :: results)

/-- `operations`, given the input file. -/
def operations (depth : ℕ) (input : List Char) (gateArr : List Gate) : Except Undefined
    (List ℤ) := do
  let outputptr ← findOutput gateArr 0
  operationsLoop depth outputptr (fgets 100 [] input) gateArr

end LogicCircuit
