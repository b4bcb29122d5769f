import Homeworks.CString.Number
import Homeworks.Simulator.Cpu
import Mathlib.Data.List.Infix

/-!
# The parser

The parser reads a program line by line into a data segment and a map of instructions.
The vector of all instructions is left out: of it only the size is printed.
-/

open CString

namespace Simulator

structure Parser where
  parsingDataSection : Bool
  parsingInstructionSection : Bool
  dataSegment : List (Int × Int)
  instructionMap : Int → Option Instruction
  /-- what went to `std::cerr` -/
  cerr : List Output

namespace Parser

/-- The parser with its state cleared. -/
def cleared : Parser := ⟨false, false, [], fun _ => none, []⟩

def toCerr (p : Parser) (items : List Output) : Parser :=
  { p with cerr := p.cerr ++ items }

/-- The text inserted into a console stream. -/
def text (s : List Char) : Output := .text (String.ofList s)

/-! ### Lines -/

def removeComment (line : List Char) : List Char := line.takeWhile fun c => c ≠ '#'

def tokenize (line : List Char) : List (List Char) := words line

/-- The entry of the data segment that a line contains. -/
def dataEntry (address value : List Char) : Except String (Int × Int) := do
  return (← stoul address, ← stol value)

def processDataLine (p : Parser) (line : List Char) : Parser :=
  match tokenize (removeComment line) with
  | address :: value :: _ =>
      match dataEntry address value with
      | .ok entry => { p with dataSegment := p.dataSegment ++ [entry] }
      | .error _ => p.toCerr [.text "Error parsing data line: ", text line, endl]
  | _ => p

/-! ### Instructions -/

/-- The kind of instruction with a name. -/
def instructionType (name : List Char) : Option InstructionType :=
  if name = "SET".toList then some .SET
  else if name = "CPY".toList then some .CPY
  else if name = "CPYI".toList then some .CPYI
  else if name = "CPYI2".toList then some .CPYI2
  else if name = "ADD".toList then some .ADD
  else if name = "ADDI".toList then some .ADDI
  else if name = "SUBI".toList then some .SUBI
  else if name = "JIF".toList then some .JIF
  else if name = "PUSH".toList then some .PUSH
  else if name = "POP".toList then some .POP
  else if name = "CALL".toList then some .CALL
  else if name = "RET".toList then some .RET
  else if name = "HLT".toList then some .HLT
  else if name = "USER".toList then some .USER
  else if name = "SYSCALL".toList then some .SYSCALL
  else none

/-- The kind of system call with a name. -/
def syscallType (name : List Char) : Option SyscallType :=
  if name = "PRN".toList then some .PRN
  else if name = "HLT".toList then some .HLT
  else if name = "YIELD".toList then some .YIELD
  else none

/-- The number of operands that the parser reads for a kind of instruction. -/
def operandCount : InstructionType → Nat
  | .SET | .CPY | .CPYI | .CPYI2 | .ADD | .ADDI | .SUBI | .JIF => 2
  | .PUSH | .POP | .CALL | .USER => 1
  | .RET | .HLT | .SYSCALL => 0

/-- The operands, of which there are none unless all are given. -/
def parseOperands (n : Nat) (args : List (List Char)) : Except String (List Int) :=
  if n ≤ args.length then (args.take n).mapM stol else .ok []

/-- An instruction, or the message that its kind is unknown.  The kind of a system call that
is not given is uninitialized. -/
def parseInstruction (uninitialized : Option SyscallType) (name : List Char)
    (args : List (List Char)) : Except String (Except (List Output) Instruction) :=
  match instructionType name with
  | none => .ok (.error [.text "Unknown instruction type: ", text name, endl])
  | some .SYSCALL =>
      match args with
      | [] => .ok (.ok ⟨.SYSCALL, uninitialized, []⟩)
      | call :: args =>
          match syscallType call with
          | none => .ok (.error [.text "Unknown syscall type: ", text call, endl])
          | some .PRN => do return .ok (.syscall .PRN (← parseOperands 1 args))
          | some t => .ok (.ok (.syscall t []))
  | some t => do return .ok (.of t (← parseOperands (operandCount t) args))

/-- The address of an instruction and the instruction. -/
def parseEntry (uninitialized : Int → Option SyscallType) (address name : List Char)
    (args : List (List Char)) : Except String (Int × Except (List Output) Instruction) := do
  let instrAddr ← stoul address
  return (instrAddr, ← parseInstruction (uninitialized instrAddr) name args)

def processInstructionLine (uninitialized : Int → Option SyscallType) (p : Parser)
    (line : List Char) : Parser :=
  match tokenize (removeComment line) with
  | address :: name :: args =>
      match parseEntry uninitialized address name args with
      | .ok (instrAddr, .ok instr) =>
          { p with instructionMap := Function.update p.instructionMap instrAddr (some instr) }
      | .ok (_, .error message) => p.toCerr message
      | .error what => p.toCerr [.text "Error parsing instruction line: ", text line, endl,
          .text "Error: ", .text what, endl]
  | _ => p

/-! ### Files -/

/-- Whether a line contains a marker. -/
def contains (line : List Char) (marker : String) : Bool := decide (marker.toList <:+: line)

/-- The part of the loop of `parseFile` that processes a line. -/
def processLine (uninitialized : Int → Option SyscallType) (p : Parser) (line : List Char) :
    Parser :=
  if line.isEmpty then
    p
  else if contains line "Begin Data Section" then
    { p with parsingDataSection := true, parsingInstructionSection := false }
  else if contains line "End Data Section" then
    { p with parsingDataSection := false }
  else if contains line "Begin Instruction Section" then
    { p with parsingDataSection := false, parsingInstructionSection := true }
  else if contains line "End Instruction Section" then
    { p with parsingInstructionSection := false }
  else if p.parsingDataSection then
    p.processDataLine line
  else if p.parsingInstructionSection then
    p.processInstructionLine uninitialized line
  else
    p

/-- The parser after a file with the given contents is read.  What the uninitialized kind of
a system call at an address turns out to be is given. -/
def parseFile (uninitialized : Int → Option SyscallType) (contents : List Char) : Parser :=
  (lines contents).foldl (processLine uninitialized) cleared

/-! ### The addresses of the data -/

/-- The data lie at addresses of type `size_t`. -/
def DataInRange (p : Parser) : Prop := ∀ entry ∈ p.dataSegment, 0 ≤ entry.1 ∧ entry.1 < 2 ^ 64

theorem dataInRange_cleared : DataInRange cleared := by
  intro entry h
  cases h

theorem dataEntry_bounds {address value : List Char} {entry : Int × Int}
    (h : dataEntry address value = .ok entry) :
  0 ≤ entry.1 ∧ entry.1 < 2 ^ 64
  := by
  unfold dataEntry at h
  cases ha : stoul address with
  | error what =>
      rw [ha] at h
      cases h
  | ok a =>
      cases hv : stol value with
      | error what =>
          rw [ha, hv] at h
          cases h
      | ok v =>
          rw [ha, hv] at h
          cases h
          apply stoul_bounds ha

theorem DataInRange.processDataLine {p : Parser} (h : DataInRange p) (line : List Char) :
  DataInRange (p.processDataLine line)
  := by
  unfold Parser.processDataLine
  split
  · split
    · rename_i hentry
      intro entry hmem
      obtain hmem | hmem := List.mem_append.mp hmem
      · apply h entry hmem
      · rw [List.mem_singleton.mp hmem]
        apply dataEntry_bounds hentry
    · apply h
  · apply h

/-- Lines with instructions do not change the data. -/
theorem processInstructionLine_dataSegment (uninitialized : Int → Option SyscallType)
    (p : Parser) (line : List Char) :
  (p.processInstructionLine uninitialized line).dataSegment = p.dataSegment
  := by
  unfold processInstructionLine
  split
  · split <;> rfl
  · rfl

theorem DataInRange.processLine {p : Parser} (h : DataInRange p)
    (uninitialized : Int → Option SyscallType) (line : List Char) :
  DataInRange (p.processLine uninitialized line)
  := by
  unfold Parser.processLine
  split_ifs
  · apply h
  · apply h
  · apply h
  · apply h
  · apply h
  · apply h.processDataLine
  · intro entry hmem
    rw [processInstructionLine_dataSegment] at hmem
    apply h entry hmem
  · apply h

theorem dataInRange_parseFile (uninitialized : Int → Option SyscallType)
    (contents : List Char) :
  DataInRange (parseFile uninitialized contents)
  := by
  apply List.foldlRecOn (motive := DataInRange) _ _ dataInRange_cleared
  intro p hp line _
  apply hp.processLine

end Parser

end Simulator
