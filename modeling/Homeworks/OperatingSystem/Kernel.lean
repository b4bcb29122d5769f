import Homeworks.Simulator.Cpu
import Homeworks.Simulator.Step
import Homeworks.Transition.Runs

/-!
# The kernel as a machine

The instructions that `os.txt` puts below address 1000, and the contents it gives to the
registers, the variables of the system and the thread table.  A system has a number of threads,
and instructions and data for them above address 1000.

While the CPU executes the instructions of the kernel, its state amounts to the program
counter, the instruction count and the other cells; the update of the per-thread counter
reaches no cell but 502, which the kernel does not use.  The machine with this state is
simulated by the CPU, and has one rule for each kind of instruction that the kernel uses.
-/

open Simulator

namespace OperatingSystem

/-! ### Instructions -/

/-- `SYSCALL YIELD`: the running thread gives up the CPU. -/
def yieldCode : List (Int × Instruction) :=
  [ (400, .of .CPY [22, 50]), (401, .of .SET [10, 51]), (402, .of .SET [0, 52]),
    (403, .of .CPY [50, 53]),
    -- calculate thread table offset
    (404, .of .JIF [53, 408]), (405, .of .ADDI [52, 51]), (406, .of .ADD [53, -1]),
    (407, .of .JIF [24, 404]), (408, .of .ADD [52, 500]), (409, .of .ADD [52, 3]),
    (410, .of .CPYI [52, 60]),
    -- check if thread is blocked
    (411, .of .SET [2, 61]), (412, .of .SUBI [61, 60]), (413, .of .JIF [60, 420]),
    (414, .of .JIF [24, 417]),
    -- change state to ready if running
    (417, .of .SET [0, 54]), (418, .of .SET [54, 55]), (419, .of .CPYI2 [55, 52]),
    -- save thread registers
    (420, .of .CPY [4, 53]), (421, .of .ADD [52, 1]), (422, .of .SET [53, 55]),
    (423, .of .CPYI2 [55, 52]), (424, .of .CPY [1, 53]), (425, .of .ADD [52, 1]),
    (426, .of .SET [53, 55]), (427, .of .CPYI2 [55, 52]), (428, .of .JIF [24, 700]) ]

/-- `SYSCALL HLT`: the running thread is terminated. -/
def hltCode : List (Int × Instruction) :=
  [ (430, .of .CPY [22, 50]), (431, .of .SET [10, 51]), (432, .of .SET [0, 52]),
    (433, .of .CPY [50, 53]),
    -- calculate thread table offset
    (434, .of .JIF [53, 438]), (435, .of .ADDI [52, 51]), (436, .of .ADD [53, -1]),
    (437, .of .JIF [24, 434]),
    -- mark thread as terminated
    (438, .of .ADD [52, 500]), (439, .of .ADD [52, 3]), (440, .of .SET [3, 54]),
    (441, .of .SET [54, 55]), (442, .of .CPYI2 [55, 52]), (443, .of .ADD [201, 1]),
    -- check if all threads have terminated
    (444, .of .CPY [201, 50]), (445, .of .CPY [21, 51]), (446, .of .SUBI [51, 50]),
    (447, .of .JIF [50, 449]), (448, .of .JIF [24, 700]), (449, .of .HLT []) ]

/-- The scheduler: round-robin selection of a thread. -/
def schedulerCode : List (Int × Instruction) :=
  [ (700, .of .ADD [23, 1]), (701, .of .CPY [23, 50]), (702, .of .CPY [21, 51]),
    (703, .of .SUBI [50, 51]), (704, .of .JIF [51, 715]), (705, .of .SET [1, 23]),
    (706, .of .JIF [24, 715]),
    -- thread selection initialization
    (715, .of .SET [0, 26]), (716, .of .SET [0, 25]), (717, .of .JIF [24, 720]),
    -- safety counter loop
    (720, .of .ADD [25, 1]), (721, .of .CPY [25, 50]), (722, .of .CPY [21, 51]),
    (723, .of .SUBI [51, 50]), (724, .of .JIF [50, 902]), (725, .of .JIF [24, 730]),
    -- thread address calculation
    (730, .of .CPY [23, 50]), (731, .of .SET [10, 51]), (732, .of .SET [0, 52]),
    (733, .of .CPY [50, 53]), (734, .of .JIF [53, 738]), (735, .of .ADDI [52, 51]),
    (736, .of .ADD [53, -1]), (737, .of .JIF [24, 734]), (738, .of .ADD [52, 500]),
    (739, .of .CPY [52, 53]),
    -- thread state checking
    (740, .of .ADD [53, 3]), (741, .of .CPYI [53, 54]), (742, .of .SET [0, 55]),
    (743, .of .SUBI [54, 55]), (744, .of .JIF [55, 768]),
    -- handle terminated thread
    (745, .of .SET [3, 55]), (746, .of .CPYI [53, 56]), (747, .of .SUBI [55, 56]),
    (748, .of .JIF [56, 700]),
    -- check for blocked thread
    (749, .of .SET [2, 55]), (750, .of .CPYI [53, 56]), (751, .of .SUBI [55, 56]),
    (752, .of .JIF [56, 754]), (753, .of .JIF [24, 700]),
    -- handle blocked thread timeout
    (754, .of .ADD [53, -2]), (755, .of .CPYI [53, 54]), (756, .of .CPY [3, 55]),
    (757, .of .SUBI [55, 54]), (758, .of .SET [100, 56]), (759, .of .SUBI [56, 54]),
    (760, .of .JIF [54, 762]), (761, .of .JIF [24, 700]),
    -- unblock timed-out thread
    (762, .of .SET [0, 54]), (763, .of .ADD [53, 2]), (764, .of .CPYI [53, 54]),
    (765, .of .JIF [24, 768]),
    -- thread selection success
    (768, .of .SET [1, 26]), (769, .of .CPY [52, 53]), (770, .of .JIF [24, 780]) ]

/-- The context switch: activation of the selected thread. -/
def switchCode : List (Int × Instruction) :=
  [ (780, .of .CPY [23, 22]), (781, .of .ADD [53, 3]), (782, .of .SET [1, 54]),
    (783, .of .SET [54, 55]), (784, .of .CPYI2 [55, 53]), (785, .of .ADD [53, 2]),
    (786, .of .CPY [53, 50]), (787, .of .CPYI [50, 1]), (788, .of .ADD [53, -4]),
    (789, .of .CPY [3, 54]), (790, .of .CPY [53, 50]), (791, .of .SET [50, 55]),
    (792, .of .CPYI2 [55, 50]), (793, .of .ADD [53, 3]), (794, .of .CPYI [53, 19]),
    (795, .of .ADD [200, 1]), (796, .of .USER [19]) ]

/-- The end of the system. -/
def haltCode : List (Int × Instruction) :=
  [ (902, .of .HLT []) ]

/-- The instructions of the kernel. -/
def kernelCode (a : Int) : Option Instruction :=
  (yieldCode ++ hltCode ++ schedulerCode ++ switchCode ++ haltCode).lookup a

/-- The instructions below address 1000: the kernel, and a jump to the scheduler by which
the system is initialized. -/
def osCode (a : Int) : Option Instruction :=
  if a = 0 then some (.of .SET [700, 0]) else kernelCode a

/-! ### Data -/

/-- Entries of zeros from the address `a` on. -/
def zeros (a : Int) (n : Nat) : List (Int × Int) :=
  (List.range n).map fun (i : Nat) => (a + (i : Int), 0)

/-- The registers: of the program counter, the stack pointer and the others. -/
def registers : List (Int × Int) := [(0, 0), (1, 100)] ++ zeros 2 19

/-- The variables of the system: the number of user threads, the current thread, the
scheduler counter, the flag of the unconditional jumps, thread check and thread found. -/
def osVariables (threads : Int) : List (Int × Int) := (21, threads) :: zeros 22 5

/-- The entry of the system itself. -/
def osEntry : List (Int × Int) :=
  [(500, 0), (501, 0), (502, 0), (503, 1), (504, 0), (505, 100)]

/-- The entry of a user thread: ID, start time, count, state, program counter, stack
pointer, and what is reserved. -/
def threadEntry (reserved : Nat) (k : Int) : List (Int × Int) :=
  [(500 + 10 * k, k), (501 + 10 * k, 0), (502 + 10 * k, 0), (503 + 10 * k, 0),
    (504 + 10 * k, 1000 * k), (505 + 10 * k, 1000 * k + 100)] ++ zeros (506 + 10 * k) reserved

/-- The thread table.  The first two threads have three reserved lines without a value. -/
def threadTable : List (Int × Int) :=
  osEntry ++ [1, 2].flatMap (threadEntry 1) ++ [3, 4, 5, 6, 7, 8, 9, 10].flatMap (threadEntry 4)

/-- The context switch counter and the terminated thread counter. -/
def additional : List (Int × Int) := zeros 200 2

/-- The data of the kernel. -/
def kernelData (threads : Int) : List (Int × Int) :=
  registers ++ osVariables threads ++ threadTable ++ additional

end OperatingSystem

/-! ### The kernel as a machine -/

open Simulator StateTransition Transition

namespace OperatingSystem

/-- The state of the CPU inside the kernel. -/
structure Kernel where
  pc : Int
  clock : Int
  mem : Int → Int

namespace Kernel

/-- The addresses the kernel may use. -/
def usable (a : Int) : Bool := 0 ≤ a ∧ a < 10000 ∧ a ≠ 502

/-- The contents of a cell. -/
def look (k : Kernel) (a : Int) : Int :=
  if a = CPU.PC then k.pc else if a = CPU.INSTR_COUNT then k.clock else k.mem a

/-- The state after a store. -/
def store (k : Kernel) (a v : Int) : Kernel :=
  if a = CPU.PC then { k with pc := v }
  else if a = CPU.INSTR_COUNT then { k with clock := v }
  else { k with mem := Function.update k.mem a v }

def storeAll (k : Kernel) (stores : List (Int × Int)) : Kernel :=
  stores.foldl (fun k store => k.store store.1 store.2) k

/-- The state after the instruction count and the program counter are advanced. -/
def advance (k : Kernel) (pc : Int) : Kernel :=
  let k' := k.store CPU.INSTR_COUNT (k.look CPU.INSTR_COUNT + 1)
  if pc = k'.look CPU.PC then k'.store CPU.PC (pc + 1) else k'

/-- A step of the kernel, by an instruction other than `HLT` and `USER`. -/
def step (k : Kernel) : Option Kernel :=
  match kernelCode k.pc with
  | none => none
  | some instr =>
      if CPU.Plain instr then
        match CPU.effect usable k.look instr with
        | .writes stores => some ((k.storeAll stores).advance k.pc)
        | _ => none
      else none

theorem look_store (k : Kernel) (a b v : Int) :
  (k.store b v).look a = if a = b then v else k.look a
  := by
  have hne : CPU.PC ≠ CPU.INSTR_COUNT := by decide
  by_cases hab : a = b
  · rw [if_pos hab, hab]
    unfold store look
    split
    · rfl
    · split
      · rfl
      · apply Function.update_self
  · rw [if_neg hab]
    unfold store
    split
    · rename_i hb
      simp only [look, if_neg (hb ▸ hab)]
    · split
      · rename_i hb
        simp only [look, if_neg (hb ▸ hab)]
      · simp only [look, Function.update_of_ne hab]

end Kernel

/-! ### The code of the kernel -/

theorem mem_of_lookup {l : List (Int × Instruction)} {a : Int} {instr : Instruction}
    (h : l.lookup a = some instr) :
  (a, instr) ∈ l
  := by
  obtain ⟨l₁, l₂, rfl, -⟩ := List.lookup_eq_some_iff.mp h
  simp

/-- Where the kernel lies. -/
theorem kernelCode_bounds {a : Int} {instr : Instruction} (h : kernelCode a = some instr) :
  400 ≤ a ∧ a < 1000
  := by
  have hall : ∀ line ∈ yieldCode ++ hltCode ++ schedulerCode ++ switchCode ++ haltCode,
      400 ≤ line.1 ∧ line.1 < 1000 := by decide +kernel
  apply hall _ (mem_of_lookup h)

/-- The instructions of the kernel are loaded. -/
def Loaded (c : CPU) : Prop :=
  ∀ a instr, kernelCode a = some instr → c.instructions a = some instr

/-! ### Simulation by the CPU -/

/-- The CPU is in the state `k` of the kernel, with the program and the consoles of `c₀`. -/
structure Runs (c₀ c : CPU) (k : Kernel) : Prop where
  kernelMode : c.kernelMode = true
  halted : c.halted = false
  instructions : c.instructions = c₀.instructions
  cout : c.cout = c₀.cout
  cerr : c.cerr = c₀.cerr
  cell : ∀ a, Kernel.usable a = true → c.cell a = k.look a

/-- The state of the kernel that a state of the CPU amounts to. -/
def Kernel.ofCPU (c : CPU) : Kernel := ⟨c.cell 0, c.cell 3, c.cell⟩

theorem runs_ofCPU {c : CPU} (hk : c.kernelMode = true) (hh : c.halted = false) :
  Runs c c (Kernel.ofCPU c)
  := by
  constructor
  · apply hk
  · apply hh
  · rfl
  · rfl
  · rfl
  · intro a _
    unfold Kernel.look
    split
    · rename_i h
      rw [h]
      rfl
    · split
      · rename_i h
        rw [h]
        rfl
      · rfl

namespace Runs

variable {c₀ c : CPU} {k : Kernel}

theorem pc (h : Runs c₀ c k) : c.cell 0 = k.pc := h.cell 0 rfl

theorem clock (h : Runs c₀ c k) : c.cell 3 = k.clock := h.cell 3 rfl

/-- The cells other than the program counter and the instruction count. -/
theorem mem (h : Runs c₀ c k) {a : Int} (ha : 0 < a) (ha' : a < 10000) (h3 : a ≠ 3)
    (h502 : a ≠ 502) :
  c.cell a = k.mem a
  := by
  have hu : Kernel.usable a = true := decide_eq_true ⟨ha.le, ha', h502⟩
  rw [h.cell a hu, Kernel.look, if_neg (by change a ≠ 0; omega), if_neg (by change a ≠ 3; omega)]

theorem usable_bounds {a : Int} (h : Kernel.usable a = true) :
  0 ≤ a ∧ a < 10000 ∧ a ≠ 502
  := of_decide_eq_true h

theorem set (h : Runs c₀ c k) (a v : Int) :
  Runs c₀ (c.set a v) (k.store a v)
  := by
  constructor
  · apply h.kernelMode
  · apply h.halted
  · apply h.instructions
  · apply h.cout
  · apply h.cerr
  · intro b hb
    obtain ⟨hb₁, hb₂, -⟩ := usable_bounds hb
    rw [CPU.cell_set _ _ _ hb₁ hb₂, Kernel.look_store, h.cell b hb]

theorem setAll (h : Runs c₀ c k) (stores : List (Int × Int)) :
  Runs c₀ (c.setAll stores) (k.storeAll stores)
  := by
  induction stores generalizing c k with
  | nil => apply h
  | cons store stores ih => apply ih (h.set store.1 store.2)

theorem advance (h : Runs c₀ c k) (pc : Int) :
  Runs c₀ (c.advance pc) (k.advance pc)
  := by
  have hcount : c.cell CPU.INSTR_COUNT = k.look CPU.INSTR_COUNT := h.cell _ rfl
  have h' := h.set CPU.INSTR_COUNT (k.look CPU.INSTR_COUNT + 1)
  have hpc : (c.set CPU.INSTR_COUNT (k.look CPU.INSTR_COUNT + 1)).cell CPU.PC
      = (k.store CPU.INSTR_COUNT (k.look CPU.INSTR_COUNT + 1)).look CPU.PC := h'.cell _ rfl
  simp only [CPU.advance, Kernel.advance, hcount, hpc]
  split
  · apply h'.set
  · apply h'

/-- Inside the kernel the counter that `execute` updates is cell 502, if any. -/
theorem countAddr_of_inSegment (h : Runs c₀ c k) (h₀ : 0 ≤ k.pc) (h₁ : k.pc < 1000)
    (hs : c.InSegment) :
  c.countAddr = 502
  := by
  obtain ⟨h₂, h₃⟩ := hs
  rw [h.pc] at h₂ h₃
  unfold CPU.countAddr
  omega

theorem bumped (h : Runs c₀ c k) (h₀ : 0 ≤ k.pc) (h₁ : k.pc < 1000) :
  Runs c₀ c.bumped k
  := by
  constructor
  · rw [CPU.bumped_kernelMode, h.kernelMode]
  · rw [CPU.bumped_halted, h.halted]
  · rw [CPU.bumped_instructions, h.instructions]
  · rw [CPU.bumped_cout, h.cout]
  · rw [CPU.bumped_cerr, h.cerr]
  · intro a ha
    obtain ⟨ha₁, ha₂, h502⟩ := usable_bounds ha
    rw [CPU.cell_bumped c ha₁ ha₂, if_neg, h.cell a ha]
    rintro ⟨hs, hc⟩
    apply h502
    rw [hc, h.countAddr_of_inSegment h₀ h₁ hs]

/-- Inside the kernel `execute` carries out the instruction of the kernel. -/
theorem execute (h : Runs c₀ c k) (hl : Loaded c₀) {instr : Instruction}
    (hcode : kernelCode k.pc = some instr) :
  CPU.execute.run c
    = CPU.finish k.pc ((CPU.instructionHandlers instr.type instr).run c.bumped)
  := by
  obtain ⟨h₀, h₁⟩ := kernelCode_bounds hcode
  rw [← h.pc]
  apply CPU.step_of_current
  · intro hs
    rw [h.countAddr_of_inSegment (by omega) h₁ hs]
    decide
  · apply h.halted
  · rw [CPU.current, h.pc, h.instructions, sizeT_of_nonneg (by omega), hl _ _ hcode]

/-- The CPU simulates the kernel.  It updates cell 502 only when the running thread has
the number 0. -/
theorem step (hl : Loaded c₀) {k' : Kernel} (h : Runs c₀ c k) (hs : k.step = some k') :
  ∃ c', c.step = some c' ∧ Runs c₀ c' k' ∧ (c.cell 22 ≠ 0 → c'.cell 502 = c.cell 502)
  := by
  unfold Kernel.step at hs
  split at hs
  · cases hs
  · rename_i instr hcode
    obtain ⟨h₀, h₁⟩ := kernelCode_bounds hcode
    split at hs
    · rename_i hp
      split at hs
      · rename_i stores he
        cases hs
        have hb := h.bumped (by omega) h₁
        have heff : CPU.effect c.bumped.valid c.bumped.cell instr = .writes stores := by
          apply CPU.effect_of_agree (show Kernel.usable CPU.PC = true from rfl) rfl _ he
          intro a ha
          constructor
          · obtain ⟨ha₁, ha₂, -⟩ := usable_bounds ha
            apply (CPU.valid_iff_kernel hb.kernelMode a).mpr ⟨ha₁, ha₂⟩
          · rw [hb.cell a ha]
        use (c.bumped.setAll stores).advance k.pc
        refine ⟨?_, (hb.setAll stores).advance k.pc, ?_⟩
        · rw [CPU.step, h.execute hl hcode, CPU.handler_run _ _ hp, heff]
          rfl
        · intro h22
          have hin := CPU.effect_storesIn Kernel.usable k.look instr rfl rfl
          rw [he] at hin
          rw [CPU.cell_advance _ _ (by decide) (by decide) (by decide) (by decide),
            CPU.cell_setAll _ (by decide) (by decide) stores
              fun store hmem => (usable_bounds (hin store hmem)).2.2,
            CPU.cell_bumped _ (by decide) (by decide), if_neg]
          rintro ⟨-, hc⟩
          unfold CPU.countAddr at hc
          omega
      · cases hs
    · cases hs

end Runs

end OperatingSystem
