import Homeworks.OperatingSystem.UserMode
import Homeworks.Simulator.Effect
import Homeworks.Transition.Runs

/-!
# A thread on its own

A thread that stays within its segment computes on a memory of its own: its segment, the
program counter and the stack pointer.  Its system calls return at once; what is observed
at them are the contents of the segment and what is printed.
-/

open Simulator Transition

namespace OperatingSystem

/-! ### Segments -/

/-- The addresses of the segment of a thread. -/
def InSegment (k a : Int) : Prop := 1000 * k ≤ a ∧ a ≤ 1000 * k + 999

instance (k a : Int) : Decidable (InSegment k a) := by
  unfold InSegment
  infer_instance

instance (a : Int) : Decidable (UserAddress a) := by
  unfold UserAddress
  infer_instance

/-- The addresses of the memory of a thread: of its segment, of the program counter and of
the stack pointer. -/
def own (k a : Int) : Bool := a = CPU.PC ∨ a = CPU.SP ∨ InSegment k a

theorem own_iff {k a : Int} :
  own k a = true ↔ a = 0 ∨ a = 1 ∨ (1000 * k ≤ a ∧ a ≤ 1000 * k + 999)
  := by
  unfold own
  rw [decide_eq_true_iff]
  rfl

/-- The contents of the segment of a thread. -/
def segment (k : Int) (cell : Int → Int) : List Int :=
  (List.range 1000).map fun (i : Nat) => cell (1000 * k + (i : Int))

theorem segment_congr {k : Int} {cell cell' : Int → Int}
    (h : ∀ a, InSegment k a → cell a = cell' a) :
  segment k cell = segment k cell'
  := by
  unfold segment
  refine List.map_congr_left ?_
  intro i hi
  apply h
  have := List.mem_range.mp hi
  unfold InSegment
  omega

/-- What is observed at a system call of a thread. -/
structure Event where
  segment : List Int
  printed : List Output
  deriving DecidableEq

/-! ### The thread -/

namespace Solo

/-- The memory after the program counter is advanced. -/
def advance (pc : Int) (m : Int → Int) : Int → Int :=
  if pc = m CPU.PC then Function.update m CPU.PC (pc + 1) else m

def storeAll (m : Int → Int) (stores : List (Int × Int)) : Int → Int :=
  stores.foldl (fun m store => Function.update m store.1 store.2) m

/-- What the thread `k` does by a system call. -/
def syscall (k : Int) (instr : Instruction) (m : Int → Int) : List Event × Option (Int → Int) :=
  match instr.syscallType with
  | some .PRN =>
      match instr.operands[0]? with
      | some a =>
          ([⟨segment k m, [.text "Thread ", .number k, .text ": Adress: ", .number a, .text " :",
            .number (m a), endl]⟩], some (Function.update m CPU.PC (m CPU.PC + 1)))
      | none => ([], none)
  | some .YIELD => ([⟨segment k m, []⟩], some (Function.update m CPU.PC (m CPU.PC + 1)))
  | some .HLT | none => ([⟨segment k m, []⟩], none)

/-- What the thread `k` does by an instruction: the events observed, and its memory
afterwards unless it ends. -/
def result (k : Int) (instr : Instruction) (m : Int → Int) : List Event × Option (Int → Int) :=
  match instr.type with
  | .HLT => ([], none)
  | .SYSCALL => syscall k instr m
  | .USER =>
      match instr.operands with
      | [a] =>
          if UserAddress (m a) then
            ([], some (advance (m CPU.PC) (Function.update m CPU.PC (m a))))
          else
            ([], none)
      | _ => ([], some (advance (m CPU.PC) m))
  | _ =>
      match CPU.effect (own k) m instr with
      | .writes stores => ([], some (advance (m CPU.PC) (storeAll m stores)))
      | _ => ([], none)

theorem result_print {k a : Int} {instr : Instruction} (ht : instr.type = .SYSCALL)
    (hst : instr.syscallType = some .PRN) (ho : instr.operands[0]? = some a) (m : Int → Int) :
  result k instr m = ([⟨segment k m, [.text "Thread ", .number k, .text ": Adress: ", .number a,
    .text " :", .number (m a), endl]⟩], some (Function.update m CPU.PC (m CPU.PC + 1)))
  := by
  simp only [result, ht, syscall, hst, ho]

theorem result_yield {k : Int} {instr : Instruction} (ht : instr.type = .SYSCALL)
    (hst : instr.syscallType = some .YIELD) (m : Int → Int) :
  result k instr m
    = ([⟨segment k m, []⟩], some (Function.update m CPU.PC (m CPU.PC + 1)))
  := by
  simp only [result, ht, syscall, hst]

theorem result_halt {k : Int} {instr : Instruction} (ht : instr.type = .SYSCALL)
    (hst : instr.syscallType = some .HLT ∨ instr.syscallType = none) (m : Int → Int) :
  result k instr m = ([⟨segment k m, []⟩], none)
  := by
  obtain hst | hst := hst
  · simp only [result, ht, syscall, hst]
  · simp only [result, ht, syscall, hst]

/-- A step of the thread `k` with the given program; a thread that has ended does none. -/
inductive Step (k : Int) (program : Int → Option Instruction) :
    Option (Int → Int) → List Event → Option (Int → Int) → Prop where
  | of {m : Int → Int} {instr : Instruction} (current : program (m CPU.PC) = some instr) :
    Step k program (some m) (result k instr m).1 (result k instr m).2

theorem functional (k : Int) (program : Int → Option Instruction) :
  Functional (Step k program)
  := by
  intro a l b l' b' h h'
  cases h with
  | of current =>
      cases h' with
      | of current' =>
          cases current.symm.trans current'
          exact ⟨rfl, rfl⟩

end Solo

end OperatingSystem
