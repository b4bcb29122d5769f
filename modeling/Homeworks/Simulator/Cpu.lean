import Mathlib.Algebra.Group.Int.Defs
import Mathlib.Algebra.Group.Nat.Defs
import Mathlib.Logic.Function.Basic
import Mathlib.Order.Lattice

/-!
# The simulated CPU

The memory, the instruction kinds, the state of the CPU, the handlers of its instructions, and
`execute`, which carries out one instruction.

A `long` is an `Int`: signed overflow has no defined result in C++, and the model computes
the exact value.  An `int` wraps around, as it does on the machine.  A `size_t` is an `Int` too; a
`long` passed where a `size_t` is expected is converted by `sizeT`.

A handler is an action on the state that returns, throws a C++ exception, or indexes the
operand vector past its end, which has no defined result.  A thrown exception keeps the
effects that came before it.  The two console streams are part of the state.  The
callback of debug mode 3 is left out: `setDebugCallback` is never called.
-/

namespace Simulator

/-- The conversion of a `long` to a `size_t`: a negative `long` wraps around to
`a + 2 ^ 64`.  Below the range of `long` the result is kept past the end of memory. -/
def sizeT (a : Int) : Int :=
  if 0 ≤ a then a else max (a + 2 ^ 64) (2 ^ 63)

/-- The `int` of a value: the conversion of a `long`, and the result of an operation on `int`s. -/
def toInt (a : Int) : Int := Int.bmod a (2 ^ 32)

/-- The memory: the contents of its cells. -/
structure Memory where
  data : Int → Int

namespace Memory

/-- The number of cells, `data.size()`. -/
def size : Int := 10000

/-- The first address of user space. -/
def USER_SPACE_START : Int := 1000

/-- The memory filled with zeros. -/
def zero : Memory := ⟨fun _ => 0⟩

/-- The text of the exception thrown by an access out of bounds. -/
def outOfBounds : String := "Memory access out of bounds"

/-- The contents of a cell, or the exception thrown. -/
def read (m : Memory) (address : Int) : Except String Int :=
  if address ≥ size then
    .error outOfBounds
  else
    .ok (m.data address)

/-- The memory after a store, or the exception thrown. -/
def write (m : Memory) (address : Int) (value : Int) : Except String Memory :=
  if address ≥ size then
    .error outOfBounds
  else
    .ok ⟨Function.update m.data address value⟩

/-- Whether an address may be accessed in the given mode. -/
def isAddressValid (address : Int) (kernelMode : Bool) : Bool :=
  if kernelMode then
    address < size
  else
    (address ≤ 20 || address ≥ USER_SPACE_START) && address < size

end Memory

/-! ### Addresses within memory -/

theorem sizeT_of_nonneg {a : Int} (h : 0 ≤ a) :
  sizeT a = a
  := if_pos h

theorem le_sizeT_of_neg {a : Int} (h : a < 0) :
  2 ^ 63 ≤ sizeT a
  := by
  have h' : ¬ 0 ≤ a := by omega
  simp only [sizeT, h', if_false]
  apply le_max_right

/-- The addresses within memory are those of the cells. -/
theorem sizeT_lt_iff {a : Int} :
  sizeT a < 10000 ↔ 0 ≤ a ∧ a < 10000
  := by
  rcases lt_or_ge a 0 with h | h
  · have := le_sizeT_of_neg h
    omega
  · rw [sizeT_of_nonneg h]
    omega

theorem toInt_of_small {x : Int} (h : -2 ^ 31 ≤ x) (h' : x < 2 ^ 31) :
  toInt x = x
  := by
  rw [toInt, Int.bmod_def]
  split <;> omega

/-- An address that is computed from an `int` is the exact sum, or both are outside of memory. -/
theorem toInt_add (x : Int) {k : Int} (hk : 0 ≤ k) (hk' : k < 10) :
  toInt (toInt x + k) = toInt x + k
    ∨ 10000 ≤ sizeT (toInt (toInt x + k)) ∧ 10000 ≤ sizeT (toInt x + k)
  := by
  have hlow : -2 ^ 31 ≤ toInt x := Int.le_bmod (by decide)
  have hhigh : toInt x < 2 ^ 31 := Int.bmod_lt (by decide)
  by_cases hsum : toInt x + k < 2 ^ 31
  · exact .inl (toInt_of_small (by omega) hsum)
  · right
    have hwrapped : toInt (toInt x + k) < 0 := by
      rw [toInt, Int.bmod_def]
      split <;> omega
    constructor
    · have hle := le_sizeT_of_neg hwrapped
      omega
    · rw [sizeT_of_nonneg (by omega)]
      omega

/-- The conversion identifies no other address with one within memory. -/
theorem sizeT_inj {a b : Int} (ha : 0 ≤ a) (ha' : a < 10000) :
  sizeT b = sizeT a ↔ b = a
  := by
  constructor
  · intro h
    have hb : sizeT b < 10000 := by
      rw [h]
      apply sizeT_lt_iff.mpr ⟨ha, ha'⟩
    rw [sizeT_of_nonneg ha, sizeT_of_nonneg (sizeT_lt_iff.mp hb).1] at h
    apply h
  · rintro rfl
    rfl

/-- In kernel mode every cell may be accessed. -/
theorem isAddressValid_kernel {a : Int} :
  Memory.isAddressValid (sizeT a) true = true ↔ 0 ≤ a ∧ a < 10000
  := by
  rw [← sizeT_lt_iff]
  simp only [Memory.isAddressValid, if_true, decide_eq_true_eq]
  rfl

/-- In user mode the registers and user space may be accessed. -/
theorem isAddressValid_user {a : Int} :
  Memory.isAddressValid (sizeT a) false = true
    ↔ 0 ≤ a ∧ (a ≤ 20 ∨ 1000 ≤ a) ∧ a < 10000
  := by
  have hv : Memory.isAddressValid (sizeT a) false = true
      ↔ (sizeT a ≤ 20 ∨ 1000 ≤ sizeT a) ∧ sizeT a < 10000 := by
    simp only [Memory.isAddressValid, Bool.false_eq_true, if_false, Bool.and_eq_true,
      Bool.or_eq_true, decide_eq_true_eq]
    rfl
  rw [hv, sizeT_lt_iff]
  rcases lt_or_ge a 0 with h | h
  · omega
  · rw [sizeT_of_nonneg h]
    omega

/-! ### The simulated CPU -/

/-! ### Instructions -/

inductive InstructionType where
  | SET | CPY | CPYI | CPYI2 | ADD | ADDI | SUBI | JIF | PUSH | POP | CALL | RET | HLT | USER
  | SYSCALL
  deriving DecidableEq, Repr

inductive SyscallType where
  | PRN | HLT | YIELD
  deriving DecidableEq, Repr

/-- An instruction.  `syscallType` is `none` where the constructor leaves it
uninitialized. -/
structure Instruction where
  type : InstructionType
  syscallType : Option SyscallType
  operands : List Int
  deriving DecidableEq, Repr

/-- The instruction of a kind other than `SYSCALL`. -/
def Instruction.of (t : InstructionType) (ops : List Int) : Instruction :=
  ⟨t, none, ops⟩

/-- The system call of a kind. -/
def Instruction.syscall (st : SyscallType) (ops : List Int) : Instruction :=
  ⟨.SYSCALL, some st, ops⟩

/-! ### The state -/

/-- What is inserted into a console stream. -/
inductive Output where
  | text (s : String)
  | number (n : Int)
  deriving DecidableEq, Repr

/-- `std::endl`. -/
def endl : Output := .text "\n"

/-- How an action ends other than by returning. -/
inductive Stop where
  /-- an exception with its `what()` -/
  | exception (what : String)
  /-- an element of the operand vector that does not exist is read -/
  | undefined
  deriving DecidableEq, Repr

structure CPU where
  memory : Memory
  instructions : Int → Option Instruction
  halted : Bool
  kernelMode : Bool
  /-- what went to `std::cout` -/
  cout : List Output
  /-- what went to `std::cerr` -/
  cerr : List Output

/-- Actions on the CPU. -/
abbrev Exec := EStateM Stop CPU

namespace CPU

/-! ### Registers -/

def PC : Int := 0

def SP : Int := 1

def SYSCALL_RESULT : Int := 2

def INSTR_COUNT : Int := 3

/-! ### Memory accesses and output -/

/-- `memory.read`, its argument converted to `size_t`. -/
def read (address : Int) : Exec Int := do
  match (← get).memory.read (sizeT address) with
  | .ok value => pure value
  | .error what => throw (.exception what)

/-- `memory.write`, its first argument converted to `size_t`. -/
def write (address value : Int) : Exec Unit := do
  match (← get).memory.write (sizeT address) value with
  | .ok memory => modify fun c => { c with memory := memory }
  | .error what => throw (.exception what)

/-- `memory.isAddressValid` in the current mode. -/
def isAddressValid (address : Int) : Exec Bool := do
  return Memory.isAddressValid (sizeT address) (← get).kernelMode

/-- `instr.operands[i]`. -/
def operand (instr : Instruction) (i : Nat) : Exec Int :=
  match instr.operands[i]? with
  | some value => pure value
  | none => throw .undefined

def toCout (items : List Output) : Exec Unit :=
  modify fun c => { c with cout := c.cout ++ items }

def toCerr (items : List Output) : Exec Unit :=
  modify fun c => { c with cerr := c.cerr ++ items }

def setHalted (b : Bool) : Exec Unit :=
  modify fun c => { c with halted := b }

def setKernelMode (b : Bool) : Exec Unit :=
  modify fun c => { c with kernelMode := b }

/-- A message on `std::cerr`, after which the CPU is halted. -/
def halt (message : List Output) : Exec Unit := do
  toCerr (message ++ [endl])
  setHalted true

/-! ### Instruction handlers -/

def executeSET (instr : Instruction) : Exec Unit := do
  if instr.operands.length ≠ 2 then
    throw (.exception "SET instruction requires 2 operands")
  let value ← operand instr 0
  let address ← operand instr 1
  if !(← isAddressValid address) then
    halt [.text "Access violation: Address ", .number address,
      .text " not accessible in current mode"]
  else
    write address value

def executeCPY (instr : Instruction) : Exec Unit := do
  if instr.operands.length ≠ 2 then
    throw (.exception "CPY instruction requires 2 operands")
  let srcAddr ← operand instr 0
  let destAddr ← operand instr 1
  if !(← isAddressValid srcAddr) || !(← isAddressValid destAddr) then
    halt [.text "Access violation: Memory address not accessible in current mode"]
  else
    let value ← read srcAddr
    write destAddr value

def executeCPYI (instr : Instruction) : Exec Unit := do
  if instr.operands.length ≠ 2 then
    throw (.exception "CPYI instruction requires 2 operands")
  let indirectAddr ← operand instr 0
  let destAddr ← operand instr 1
  if !(← isAddressValid indirectAddr) || !(← isAddressValid destAddr) then
    halt [.text "Access violation: Memory address not accessible in current mode"]
  else
    let srcAddr ← read indirectAddr
    if !(← isAddressValid srcAddr) then
      halt [.text "Access violation: Indirect memory address not accessible in current mode"]
    else
      let value ← read srcAddr
      write destAddr value

def executeCPYI2 (instr : Instruction) : Exec Unit := do
  if instr.operands.length ≠ 2 then
    throw (.exception "CPYI2 instruction requires 2 operands")
  let a1 ← operand instr 0
  let a2 ← operand instr 1
  if !(← isAddressValid a1) || !(← isAddressValid a2) then
    halt [.text "Access violation: Memory address not accessible in current mode"]
  else
    let srcAddr ← read a1
    let destAddr ← read a2
    if !(← isAddressValid srcAddr) || !(← isAddressValid destAddr) then
      halt [.text "Access violation: Indirect memory address not accessible in current mode"]
    else
      let value ← read srcAddr
      write destAddr value

def executeADD (instr : Instruction) : Exec Unit := do
  if instr.operands.length ≠ 2 then
    throw (.exception "ADD instruction requires 2 operands")
  let address ← operand instr 0
  let value ← operand instr 1
  if !(← isAddressValid address) then
    halt [.text "Access violation: Address not accessible in current mode"]
  else
    let current ← read address
    write address (current + value)

def executeADDI (instr : Instruction) : Exec Unit := do
  if instr.operands.length ≠ 2 then
    throw (.exception "ADDI instruction requires 2 operands")
  let destAddr ← operand instr 0
  let srcAddr ← operand instr 1
  if !(← isAddressValid destAddr) || !(← isAddressValid srcAddr) then
    halt [.text "Access violation: Address not accessible in current mode"]
  else
    let value ← read srcAddr
    let current ← read destAddr
    write destAddr (current + value)

def executeSUBI (instr : Instruction) : Exec Unit := do
  if instr.operands.length ≠ 2 then
    throw (.exception "SUBI instruction requires 2 operands")
  let srcAddr ← operand instr 0
  let destAddr ← operand instr 1
  if !(← isAddressValid srcAddr) || !(← isAddressValid destAddr) then
    halt [.text "Access violation: Address not accessible in current mode"]
  else
    let srcValue ← read srcAddr
    let destValue ← read destAddr
    write destAddr (srcValue - destValue)

def executeJIF (instr : Instruction) : Exec Unit := do
  if instr.operands.length ≠ 2 then
    throw (.exception "JIF instruction requires 2 operands")
  let memAddr ← operand instr 0
  let jumpAddr ← operand instr 1
  if !(← isAddressValid memAddr) then
    halt [.text "Access violation: Address not accessible in current mode"]
  else
    let value ← read memAddr
    if value ≤ 0 then
      write PC jumpAddr

def executePUSH (instr : Instruction) : Exec Unit := do
  if instr.operands.length ≠ 1 then
    throw (.exception "PUSH instruction requires 1 operand")
  let address ← operand instr 0
  if !(← isAddressValid address) then
    halt [.text "Access violation: Address not accessible in current mode"]
  else
    let value ← read address
    let sp ← read SP
    let sp := sp - 1
    if !(← isAddressValid sp) then
      halt [.text "Stack overflow"]
    else
      write sp value
      write SP sp

def executePOP (instr : Instruction) : Exec Unit := do
  if instr.operands.length ≠ 1 then
    throw (.exception "POP instruction requires 1 operand")
  let address ← operand instr 0
  if !(← isAddressValid address) then
    halt [.text "Access violation: Address not accessible in current mode"]
  else
    let sp ← read SP
    if !(← isAddressValid sp) then
      halt [.text "Stack underflow"]
    else
      let value ← read sp
      write address value
      write SP (sp + 1)

def executeCALL (instr : Instruction) : Exec Unit := do
  if instr.operands.length ≠ 1 then
    throw (.exception "CALL instruction requires 1 operand")
  let jumpAddr ← operand instr 0
  let pc ← read PC
  let returnAddr := pc + 1
  let sp ← read SP
  let sp := sp - 1
  if !(← isAddressValid sp) then
    halt [.text "Stack overflow"]
  else
    write sp returnAddr
    write SP sp
    write PC jumpAddr

def executeRET (_instr : Instruction) : Exec Unit := do
  let sp ← read SP
  if !(← isAddressValid sp) then
    halt [.text "Stack underflow"]
  else
    let returnAddr ← read sp
    write PC returnAddr
    write SP (sp + 1)

def executeHLT (_instr : Instruction) : Exec Unit :=
  setHalted true

def executeUSER (instr : Instruction) : Exec Unit := do
  if instr.operands.length = 1 then
    setKernelMode false
    let a ← operand instr 0
    if !Memory.isAddressValid (sizeT a) true then
      halt [.text "Access violation: USER operand address not accessible"]
    else
      let jumpAddr ← read a
      if !Memory.isAddressValid (sizeT jumpAddr) false then
        halt [.text "Access violation: USER jump address not accessible in user mode"]
      else
        write PC jumpAddr
  else
    setKernelMode false

def executeSYSCALL (instr : Instruction) : Exec Unit := do
  setKernelMode true
  match instr.syscallType with
  | some .PRN =>
      let currentThreadId := toInt (← read 22)
      let currentThreadTable := toInt (500 + currentThreadId * 10)
      let currentThreadBlockTime := toInt (currentThreadTable + 1)
      write (toInt (currentThreadTable + 3)) 2
      write currentThreadBlockTime (← read 3)
      write 0 ((← read PC) + 1)
      toCout [.text "Thread ", .number currentThreadId, .text ": Adress: "]
      toCout [.number (← operand instr 0), .text " :"]
      toCout [.number (← read (← operand instr 0)), endl]
      setKernelMode false
  | some .HLT =>
      write 4 ((← read PC) + 1)
      write 0 430
  | some .YIELD =>
      let pc ← read PC
      write 4 (pc + 1)
      write 0 400
  | none =>
      halt [.text "Error: Unknown syscall type."]

/-- The handler `initInstructionHandlers` installs for a kind of instruction. -/
def instructionHandlers : InstructionType → Instruction → Exec Unit
  | .SET => executeSET
  | .CPY => executeCPY
  | .CPYI => executeCPYI
  | .CPYI2 => executeCPYI2
  | .ADD => executeADD
  | .ADDI => executeADDI
  | .SUBI => executeSUBI
  | .JIF => executeJIF
  | .PUSH => executePUSH
  | .POP => executePOP
  | .CALL => executeCALL
  | .RET => executeRET
  | .HLT => executeHLT
  | .USER => executeUSER
  | .SYSCALL => executeSYSCALL

/-! ### Execution -/

/-- Executes one instruction. -/
def execute : Exec Unit := do
  let pc ← read PC
  let currentThread ← read 22
  let threadTableBegin := 500
  let threadTableSize := 10
  let offset := 2
  let start := currentThread * 1000
  let last := (currentThread + 1) * 1000 - 1
  if pc ≥ start ∧ pc ≤ last then
    let countAddr := threadTableBegin + currentThread * threadTableSize + offset
    write countAddr ((← read countAddr) + 1)
  if (← get).halted then
    return
  match (← get).instructions (sizeT pc) with
  | none =>
      halt [.text "Error: No instruction found at PC (", .number pc, .text ")."]
  | some instr =>
      let returned ← tryCatch
        (do
          instructionHandlers instr.type instr
          pure true)
        (fun
          | .exception what => do
              halt [.text "Error executing instruction: ", .text what]
              pure false
          | .undefined => throw .undefined)
      if returned then
        let count ← read INSTR_COUNT
        write INSTR_COUNT (count + 1)
        if pc = (← read PC) then
          write PC (pc + 1)

/-- Resets the state of the CPU. -/
def reset : Exec Unit := do
  setHalted false
  setKernelMode true
  write SYSCALL_RESULT 0
  write INSTR_COUNT 0
  write PC 0

/-- `memory.loadData`: stores the entries of the data segment. -/
def loadData (dataSegment : List (Int × Int)) : Exec Unit :=
  dataSegment.forM fun entry => write entry.1 entry.2

/-- Loads the instructions and the data, and resets the CPU. -/
def loadProgram (instructionMap : Int → Option Instruction) (data : List (Int × Int)) :
    Exec Unit := do
  modify fun c => { c with instructions := instructionMap }
  loadData data
  reset

/-- The CPU its constructor builds. -/
def new : CPU where
  memory := .zero
  instructions := fun _ => none
  halted := false
  kernelMode := true
  cout := []
  cerr := []

/-- The state after `execute()`, if it returns. -/
def step (c : CPU) : Option CPU :=
  match execute.run c with
  | .ok _ c' => some c'
  | .error _ _ => none

end CPU

end Simulator
