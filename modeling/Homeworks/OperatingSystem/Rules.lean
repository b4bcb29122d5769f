import Homeworks.OperatingSystem.Kernel

/-!
# Rules for the instructions of the kernel

A rule takes an arrival of the kernel after an instruction to one before it.  On the way
the steps are quiet: none leaves the entrance of the scheduler, some terminated threads
remain so, and the number of the running thread remains positive.
-/

open Simulator StateTransition Transition

namespace OperatingSystem

/-- The state of a thread: 0 for ready, 1 for running, 2 for blocked, 3 for terminated. -/
def stateCell (j : Int) : Int := 503 + 10 * j

/-- The cell with the start time of a thread. -/
def startCell (j : Int) : Int := 501 + 10 * j

/-- All threads. -/
def AnyThread : Int → Prop := fun _ => True

/-- No thread. -/
def NoThread : Int → Prop := fun _ => False

/-- A step that does not leave the entrance of the scheduler and counts as one instruction.
It keeps the threads in `T` terminated if they are, the start times of those in `S`, and
the number of the running thread positive. -/
structure Quiet (T S : Int → Prop) (k k' : Kernel) : Prop where
  pc : k.pc ≠ 700
  clock : k'.clock = k.clock + 1
  start : ∀ j, 1 ≤ j → S j → k'.mem (startCell j) = k.mem (startCell j)
  terminated : ∀ j, 1 ≤ j → T j → k.mem (stateCell j) = 3 → k'.mem (stateCell j) = 3
  thread : 0 < k.mem 22 → 0 < k'.mem 22

/-- The cells other than the program counter, the instruction count and cell 502. -/
def Cell (a : Int) : Prop := 0 < a ∧ a < 10000 ∧ a ≠ 3 ∧ a ≠ 502

/-- Storing to a cell below the thread table other than 3 and 22, from an address that is
not the entrance of the scheduler. -/
def Scratch (pc a : Int) : Prop := pc ≠ 700 ∧ 0 < a ∧ a < 500 ∧ a ≠ 3 ∧ a ≠ 22

instance (a : Int) : Decidable (Cell a) := by
  unfold Cell
  infer_instance

instance (pc a : Int) : Decidable (Scratch pc a) := by
  unfold Scratch
  infer_instance

theorem Scratch.cell {pc a : Int} (h : Scratch pc a) :
  Cell a
  := by
  obtain ⟨-, h₁, h₂, h₃, -⟩ := h
  exact ⟨h₁, by omega, h₃, by omega⟩

theorem Cell.usable {a : Int} (h : Cell a) :
  Kernel.usable a = true
  := by
  obtain ⟨h₁, h₂, -, h₃⟩ := h
  apply decide_eq_true ⟨h₁.le, h₂, h₃⟩

theorem Runs.cell_mem {c₀ c : CPU} {k : Kernel} {a : Int} (h : Runs c₀ c k) (ha : Cell a) :
  c.cell a = k.mem a
  := h.mem ha.1 ha.2.1 ha.2.2.1 ha.2.2.2

namespace Kernel

variable {T S : Int → Prop} {P : Kernel → Prop} {pc t : Int} {m : Int → Int} {instr : Instruction}
  {a b v x y : Int}

theorem look_cell (h : Cell a) :
  look ⟨pc, t, m⟩ a = m a
  := by
  obtain ⟨h₁, -, h₃, -⟩ := h
  rw [look, if_neg (by change a ≠ 0; omega), if_neg (by change a ≠ 3; omega)]

/-! ### Steps -/

theorem step_writes (hcode : kernelCode pc = some instr) (hp : CPU.Plain instr)
    {stores : List (Int × Int)}
    (he : CPU.effect usable (look ⟨pc, t, m⟩) instr = .writes stores) :
  step ⟨pc, t, m⟩ = some ((storeAll ⟨pc, t, m⟩ stores).advance pc)
  := by
  simp only [step, hcode, if_pos hp, he]

theorem advance_pc :
  advance ⟨pc, t, m⟩ pc = ⟨pc + 1, t + 1, m⟩
  := by
  change (if pc = pc then _ else _) = _
  rw [if_pos rfl]
  rfl

theorem plain_of {type : InstructionType} {ops : List Int}
    (h : type ≠ .HLT ∧ type ≠ .USER ∧ type ≠ .SYSCALL) :
  CPU.Plain (.of type ops)
  := h

theorem step_assign (hcode : kernelCode pc = some instr) (hp : CPU.Plain instr)
    (he : CPU.effect usable (look ⟨pc, t, m⟩) instr = .writes [(a, v)]) (ha : Cell a) :
  step ⟨pc, t, m⟩ = some ⟨pc + 1, t + 1, Function.update m a v⟩
  := by
  have h0 : a ≠ CPU.PC := by
    change a ≠ 0
    unfold Cell at ha
    omega
  have h3 : a ≠ CPU.INSTR_COUNT := ha.2.2.1
  rw [step_writes hcode hp he]
  simp only [storeAll, List.foldl_cons, List.foldl_nil, store, if_neg h0, if_neg h3, advance_pc]

/-- A step that leaves the cells as they are. -/
theorem step_skip (hcode : kernelCode pc = some instr) (hp : CPU.Plain instr)
    (he : CPU.effect usable (look ⟨pc, t, m⟩) instr = .writes []) :
  step ⟨pc, t, m⟩ = some ⟨pc + 1, t + 1, m⟩
  := by
  rw [step_writes hcode hp he]
  simp only [storeAll, List.foldl_nil, advance_pc]

/-- A step that moves the program counter. -/
theorem step_goto (hcode : kernelCode pc = some instr) (hp : CPU.Plain instr)
    (he : CPU.effect usable (look ⟨pc, t, m⟩) instr = .writes [(CPU.PC, x)]) (hne : pc ≠ x) :
  step ⟨pc, t, m⟩ = some ⟨x, t + 1, m⟩
  := by
  rw [step_writes hcode hp he]
  change some (if pc = x then _ else _) = _
  rw [if_neg hne]
  rfl

/-! ### Arrivals -/

theorem quiet_assign (hpc : pc ≠ 700)
    (hq : ∀ j, 1 ≤ j → T j → a = stateCell j → m a = 3 → v = 3)
    (hs : ∀ j, 1 ≤ j → S j → a ≠ startCell j) (h22 : a = 22 → 0 < v) :
  Quiet T S ⟨pc, t, m⟩ ⟨x, t + 1, Function.update m a v⟩
  := by
  constructor
  · apply hpc
  · rfl
  · intro j hj hS
    apply Function.update_of_ne (hs j hj hS).symm
  · intro j hj hT h3
    change Function.update m a v (stateCell j) = 3
    rw [Function.update_apply]
    split
    · rename_i heq
      apply hq j hj hT heq.symm
      rw [← heq]
      apply h3
    · apply h3
  · intro hpos
    change 0 < Function.update m a v 22
    rw [Function.update_apply]
    split
    · rename_i heq
      apply h22 heq.symm
    · apply hpos

theorem quiet_same (hpc : pc ≠ 700) :
  Quiet T S ⟨pc, t, m⟩ ⟨x, t + 1, m⟩
  := ⟨hpc, rfl, fun _ _ _ => rfl, fun _ _ _ h => h, fun h => h⟩

theorem quiet_scratch (h : Scratch pc a) :
  Quiet T S ⟨pc, t, m⟩ ⟨x, t + 1, Function.update m a v⟩
  := by
  obtain ⟨hpc, -, ha, -, h22⟩ := h
  apply quiet_assign hpc
  · intro j hj _ heq
    unfold stateCell at heq
    omega
  · intro j hj _ heq
    unfold startCell at heq
    omega
  · intro heq
    exact absurd heq h22

theorem set (hcode : kernelCode pc = some (.of .SET [v, a])) (hs : Scratch pc a)
    (h : Leads step (Quiet T S) P ⟨pc + 1, t + 1, Function.update m a v⟩) :
  Leads step (Quiet T S) P ⟨pc, t, m⟩
  := by
  apply Leads.next _ (quiet_scratch hs) h
  apply step_assign hcode (plain_of (by decide)) _ hs.cell
  simp [CPU.effect, Instruction.of, CPU.twoOperands, CPU.check, hs.cell.usable]

theorem cpy (hcode : kernelCode pc = some (.of .CPY [a, b])) (hs : Scratch pc b) (ha : Cell a)
    (h : Leads step (Quiet T S) P ⟨pc + 1, t + 1, Function.update m b (m a)⟩) :
  Leads step (Quiet T S) P ⟨pc, t, m⟩
  := by
  apply Leads.next _ (quiet_scratch hs) h
  apply step_assign hcode (plain_of (by decide)) _ hs.cell
  simp [CPU.effect, Instruction.of, CPU.twoOperands, CPU.check, hs.cell.usable, ha.usable,
    look_cell ha]

/-- Copying the number of the thread to be the running one. -/
theorem cpyThread (hcode : kernelCode pc = some (.of .CPY [a, 22])) (hpc : pc ≠ 700)
    (ha : Cell a) (hpos : 0 < m a)
    (h : Leads step (Quiet T S) P ⟨pc + 1, t + 1, Function.update m 22 (m a)⟩) :
  Leads step (Quiet T S) P ⟨pc, t, m⟩
  := by
  have hq : Quiet T S ⟨pc, t, m⟩ ⟨pc + 1, t + 1, Function.update m 22 (m a)⟩ := by
    apply quiet_assign hpc
    · intro j hj _ heq
      unfold stateCell at heq
      omega
    · intro j hj _ heq
      unfold startCell at heq
      omega
    · intro _
      apply hpos
  apply Leads.next _ hq h
  apply step_assign hcode (plain_of (by decide)) _ (by decide)
  have h22 : usable 22 = true := rfl
  simp [CPU.effect, Instruction.of, CPU.twoOperands, CPU.check, ha.usable, look_cell ha, h22]

/-- Copying the instruction count. -/
theorem cpyClock (hcode : kernelCode pc = some (.of .CPY [3, b])) (hs : Scratch pc b)
    (h : Leads step (Quiet T S) P ⟨pc + 1, t + 1, Function.update m b t⟩) :
  Leads step (Quiet T S) P ⟨pc, t, m⟩
  := by
  apply Leads.next _ (quiet_scratch hs) h
  apply step_assign hcode (plain_of (by decide)) _ hs.cell
  have hclock : look ⟨pc, t, m⟩ 3 = t := rfl
  simp [CPU.effect, Instruction.of, CPU.twoOperands, CPU.check, hs.cell.usable, hclock,
    show usable 3 = true from rfl]

theorem cpyi (hcode : kernelCode pc = some (.of .CPYI [a, b])) (hs : Scratch pc b)
    (ha : Cell a) (hx : m a = x) (hc : Cell x)
    (h : Leads step (Quiet T S) P ⟨pc + 1, t + 1, Function.update m b (m x)⟩) :
  Leads step (Quiet T S) P ⟨pc, t, m⟩
  := by
  apply Leads.next _ (quiet_scratch hs) h
  apply step_assign hcode (plain_of (by decide)) _ hs.cell
  simp [CPU.effect, Instruction.of, CPU.twoOperands, CPU.check, hs.cell.usable, ha.usable,
    look_cell ha, hx, hc.usable, look_cell hc]

/-- A store through a cell, which may be to the thread table. -/
theorem cpyi2 (hcode : kernelCode pc = some (.of .CPYI2 [a, b])) (hpc : pc ≠ 700)
    (ha : Cell a) (hb : Cell b) (hx : m a = x) (hy : m b = y) (hcx : Cell x) (hcy : Cell y)
    (hq : ∀ j, 1 ≤ j → T j → y = stateCell j → m y = 3 → m x = 3)
    (hs : ∀ j, 1 ≤ j → S j → y ≠ startCell j) (h22 : y ≠ 22)
    (h : Leads step (Quiet T S) P ⟨pc + 1, t + 1, Function.update m y (m x)⟩) :
  Leads step (Quiet T S) P ⟨pc, t, m⟩
  := by
  apply Leads.next _ (quiet_assign hpc hq hs fun heq => absurd heq h22) h
  apply step_assign hcode (plain_of (by decide)) _ hcy
  simp [CPU.effect, Instruction.of, CPU.twoOperands, CPU.check, ha.usable, hb.usable,
    look_cell ha, look_cell hb, hx, hy, hcx.usable, hcy.usable, look_cell hcx]

theorem add (hcode : kernelCode pc = some (.of .ADD [a, v])) (hs : Scratch pc a)
    (h : Leads step (Quiet T S) P ⟨pc + 1, t + 1, Function.update m a (m a + v)⟩) :
  Leads step (Quiet T S) P ⟨pc, t, m⟩
  := by
  apply Leads.next _ (quiet_scratch hs) h
  apply step_assign hcode (plain_of (by decide)) _ hs.cell
  simp [CPU.effect, Instruction.of, CPU.twoOperands, CPU.check, hs.cell.usable,
    look_cell hs.cell]

theorem addi (hcode : kernelCode pc = some (.of .ADDI [a, b])) (hs : Scratch pc a)
    (hb : Cell b) (h : Leads step (Quiet T S) P ⟨pc + 1, t + 1, Function.update m a (m a + m b)⟩) :
  Leads step (Quiet T S) P ⟨pc, t, m⟩
  := by
  apply Leads.next _ (quiet_scratch hs) h
  apply step_assign hcode (plain_of (by decide)) _ hs.cell
  simp [CPU.effect, Instruction.of, CPU.twoOperands, CPU.check, hs.cell.usable, hb.usable,
    look_cell hs.cell, look_cell hb]

theorem subi (hcode : kernelCode pc = some (.of .SUBI [a, b])) (hs : Scratch pc b)
    (ha : Cell a) (h : Leads step (Quiet T S) P ⟨pc + 1, t + 1, Function.update m b (m a - m b)⟩) :
  Leads step (Quiet T S) P ⟨pc, t, m⟩
  := by
  apply Leads.next _ (quiet_scratch hs) h
  apply step_assign hcode (plain_of (by decide)) _ hs.cell
  simp [CPU.effect, Instruction.of, CPU.twoOperands, CPU.check, hs.cell.usable, ha.usable,
    look_cell hs.cell, look_cell ha]

/-- A jump that is taken. -/
theorem jif (hcode : kernelCode pc = some (.of .JIF [a, x])) (ha : Cell a)
    (hne : pc ≠ 700 ∧ pc ≠ x) (hle : m a ≤ 0) (h : Leads step (Quiet T S) P ⟨x, t + 1, m⟩) :
  Leads step (Quiet T S) P ⟨pc, t, m⟩
  := by
  apply Leads.next _ (quiet_same hne.1) h
  apply step_goto hcode (plain_of (by decide)) _ hne.2
  simp [CPU.effect, Instruction.of, CPU.twoOperands, CPU.check, ha.usable, look_cell ha, hle]

/-- A jump that is not taken. -/
theorem jifNot (hcode : kernelCode pc = some (.of .JIF [a, x])) (ha : Cell a)
    (hne : pc ≠ 700) (hlt : 0 < m a) (h : Leads step (Quiet T S) P ⟨pc + 1, t + 1, m⟩) :
  Leads step (Quiet T S) P ⟨pc, t, m⟩
  := by
  apply Leads.next _ (quiet_same hne) h
  apply step_skip hcode (plain_of (by decide))
  simp [CPU.effect, Instruction.of, CPU.twoOperands, CPU.check, ha.usable, look_cell ha,
    Int.not_le.mpr hlt]

/-- No step leaves the addresses of `HLT` and `USER`. -/
theorem step_ne {k k' : Kernel} (h : k.step = some k') :
  k.pc ≠ 449 ∧ k.pc ≠ 796 ∧ k.pc ≠ 902
  := by
  have hnot : ∀ instr, kernelCode k.pc = some instr → CPU.Plain instr := by
    intro instr hcode
    by_contra hp
    simp only [step, hcode, if_neg hp, reduceCtorEq] at h
  refine ⟨?_, ?_, ?_⟩
  · intro hpc
    rw [hpc] at hnot
    apply (hnot (.of .HLT []) rfl).1 rfl
  · intro hpc
    rw [hpc] at hnot
    apply (hnot (.of .USER [19]) rfl).2.1 rfl
  · intro hpc
    rw [hpc] at hnot
    apply (hnot (.of .HLT []) rfl).1 rfl

end Kernel

/-! ### Runs of the CPU -/

/-- A step of the CPU inside the kernel that leaves none of the entrance of the scheduler,
the end of the context switch and the ends of the system. -/
structure KernelStep (T S : Int → Prop) (c c' : CPU) : Prop where
  kernelMode : c.kernelMode = true
  halted : c.halted = false
  pc : c.cell 0 ≠ 700 ∧ c.cell 0 ≠ 449 ∧ c.cell 0 ≠ 796 ∧ c.cell 0 ≠ 902
  clock : c'.cell 3 = c.cell 3 + 1
  start : ∀ j, 1 ≤ j → j ≤ 10 → S j → c'.cell (startCell j) = c.cell (startCell j)
  terminated : ∀ j, 1 ≤ j → j ≤ 10 → T j → c.cell (stateCell j) = 3 → c'.cell (stateCell j) = 3
  count : 0 < c.cell 22 → 0 < c'.cell 22 ∧ c'.cell 502 = c.cell 502

theorem cell_startCell {k : Int} (hk : 1 ≤ k) (hk' : k ≤ 10) :
  Cell (startCell k)
  := by
  unfold startCell Cell
  omega

theorem cell_stateCell {k : Int} (hk : 0 ≤ k) (hk' : k ≤ 10) :
  Cell (stateCell k)
  := by
  unfold stateCell Cell
  omega

/-- An arrival of the kernel is one of the CPU. -/
theorem Runs.leads {T S : Int → Prop} {P : Kernel → Prop} {c₀ c : CPU} {k : Kernel}
    (hl : Loaded c₀) (h : Runs c₀ c k) (hk : Leads Kernel.step (Quiet T S) P k) :
  Leads CPU.step (KernelStep T S) (fun d => ∃ k', Runs c₀ d k' ∧ P k') c
  := by
  apply hk.simulate _ h
  intro c k k' hr hs hq
  obtain ⟨c', hstep, hr', hcount⟩ := hr.step hl hs
  use c', hstep
  constructor
  · constructor
    · apply hr.kernelMode
    · apply hr.halted
    · rw [hr.pc]
      exact ⟨hq.pc, Kernel.step_ne hs⟩
    · rw [hr.clock, hr'.clock]
      apply hq.clock
    · intro j hj hj' hS
      have hcell := cell_startCell hj hj'
      rw [hr.cell_mem hcell, hr'.cell_mem hcell]
      apply hq.start j hj hS
    · intro j hj hj' hT
      have hcell := cell_stateCell (by omega) hj'
      rw [hr.cell_mem hcell, hr'.cell_mem hcell]
      apply hq.terminated j hj hT
    · intro hpos
      have h22 : Cell 22 := by decide
      constructor
      · rw [hr.cell_mem h22] at hpos
        rw [hr'.cell_mem h22]
        apply hq.thread hpos
      · apply hcount (by omega)
  · apply hr'

end OperatingSystem
