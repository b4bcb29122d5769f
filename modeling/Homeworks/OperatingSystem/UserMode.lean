import Homeworks.OperatingSystem.ContextSwitch
import Homeworks.Simulator.ControlTransfer
import Homeworks.Simulator.Protection

/-!
# A step of a thread

In user mode a step leaves the kernel cells as they are, prints, enters the kernel by a
system call, or stops the CPU.
-/

open Simulator

namespace OperatingSystem

variable {c c' : CPU} {instr : Instruction} {a : Int}

/-- The cells of the entry of the running thread that a step may change. -/
def Touched (c : CPU) (a : Int) : Prop :=
  a = 502 + 10 * c.cell 22 ∨ a = stateCell (c.cell 22) ∨ a = startCell (c.cell 22)

/-- `SYSCALL PRN` prints the cell `a` and returns to the thread. -/
structure Printed (a : Int) (c c' : CPU) : Prop where
  kernelMode : c'.kernelMode = false
  halted : c'.halted = false
  instructions : c'.instructions = c.instructions
  pc : c'.cell 0 = c.cell 0 + 1
  state : c'.cell (stateCell (c.cell 22)) = 2
  cell : ∀ b, 0 < b → b < 10000 → b ≠ 3 → ¬ Touched c b → c'.cell b = c.cell b
  cout : ∃ v, c'.cout = c.cout ++ [.text "Thread ", .number (c.cell 22), .text ": Adress: ",
      .number a, .text " :", .number v, endl]
    ∧ (1000 ≤ a → v = c.cell a)

/-- A system call stops the CPU. -/
structure Stopped (c c' : CPU) : Prop where
  kernelMode : c'.kernelMode = true
  halted : c'.halted = true
  pc : c'.cell 0 = c.cell 0 + 1
  cell : ∀ b, CPU.KernelCell b → ¬ Touched c b → c'.cell b = c.cell b

/-- What a step in user mode can do. -/
inductive ThreadStep (c c' : CPU) : Prop where
  | stays (same : CPU.SameKernel c.bumped c') (call : ¬ c.AtSyscall)
  | prints (instr : Instruction) (a : Int) (running : c.halted = false)
      (current : c.current = some instr) (type : instr.type = .SYSCALL)
      (call : instr.syscallType = some .PRN) (operand : instr.operands[0]? = some a)
      (printed : Printed a c c')
  | enters (instr : Instruction) (st : SyscallType) (running : c.halted = false)
      (current : c.current = some instr) (type : instr.type = .SYSCALL)
      (call : instr.syscallType = some st) (ne : st ≠ .PRN) (entered : Entered (handler st) c c')
  | stops (instr : Instruction) (running : c.halted = false) (current : c.current = some instr)
      (type : instr.type = .SYSCALL)
      (call : (instr.syscallType = none ∧ c'.cout = c.cout)
        ∨ ∃ a, instr.syscallType = some .PRN ∧ instr.operands[0]? = some a ∧ 10000 ≤ sizeT a)
      (stopped : Stopped c c')

/-- The entry that `SYSCALL PRN` marks is that of the running thread. -/
theorem threadTable_bumped (h₁ : 1 ≤ c.cell 22) (h₁' : c.cell 22 ≤ 10) :
  (c.bumped.inMode true).cell 22 = c.cell 22
    ∧ (c.bumped.inMode true).threadTable = 500 + 10 * c.cell 22
  := by
  have h22 : (c.bumped.inMode true).cell 22 = c.cell 22 := by
    rw [CPU.cell_inMode, cell_bumped_of_ne (by decide) (by decide) (by omega)]
  use h22
  rw [CPU.threadTable, h22, toInt_of_small (x := c.cell 22) (by omega) (by omega),
    toInt_of_small (by omega) (by omega)]
  ring

/-- The cells after `SYSCALL PRN` has marked the running thread. -/
theorem cell_marked_bumped (h₁ : 1 ≤ c.cell 22) (h₁' : c.cell 22 ≤ 10) {b : Int} (hb : 0 < b)
    (hb' : b < 10000) (hne : ¬ Touched c b) :
  (c.bumped.inMode true).marked.cell b = c.cell b
  := by
  obtain ⟨-, htable⟩ := threadTable_bumped h₁ h₁'
  unfold Touched stateCell startCell at hne
  rw [CPU.cell_marked_of_ne _ hb.le hb' hb.ne', htable, if_neg (by omega), if_neg (by omega),
    CPU.cell_inMode, cell_bumped_of_ne hb.le hb' (by omega)]

theorem cell_PC_marked_bumped :
  (c.bumped.inMode true).marked.cell 0 = c.cell 0 + 1
  := by
  apply (CPU.cell_PC_marked _).trans
  rw [CPU.cell_inMode, CPU.cell_bumped_PC]
  rfl

theorem threadStep_prn (h₁ : 1 ≤ c.cell 22) (h₁' : c.cell 22 ≤ 10) (hh : c.halted = false)
    (hi : c.current = some instr) (ht : instr.type = .SYSCALL)
    (hst : instr.syscallType = some .PRN)
    (hr : CPU.finish (c.cell CPU.PC) ((c.bumped.inMode true).prnResult instr) = .ok () c') :
  ThreadStep c c'
  := by
  obtain ⟨h22, htable⟩ := threadTable_bumped h₁ h₁'
  have hsize : ∀ b : Int, 0 ≤ b → b < 10000 → ¬ 10000 ≤ sizeT b := by
    intro b hb hb'
    rw [sizeT_of_nonneg hb]
    omega
  unfold CPU.prnResult at hr
  rw [htable, if_neg (hsize _ (by omega) (by omega)), if_neg (hsize _ (by omega) (by omega))] at hr
  have hstate : (c.bumped.inMode true).marked.cell (stateCell (c.cell 22)) = 2 := by
    unfold stateCell
    rw [CPU.cell_marked_of_ne _ (by omega) (by omega) (by omega), htable, if_neg (by omega),
      if_pos (by omega)]
  cases ho : instr.operands[0]? with
  | none =>
      rw [ho] at hr
      cases hr
  | some a =>
      rw [ho] at hr
      dsimp only at hr
      by_cases ha : 10000 ≤ sizeT a
      · rw [if_pos ha] at hr
        cases hr
        apply ThreadStep.stops instr hh hi ht (.inr ⟨a, hst, ho, ha⟩)
        constructor
        · rfl
        · rfl
        · apply cell_PC_marked_bumped
        · rintro b ⟨hb, hb'⟩ hne
          apply cell_marked_bumped h₁ h₁' (by omega) (by omega) hne
      · rw [if_neg ha] at hr
        cases hr
        apply ThreadStep.prints instr a hh hi ht hst ho
        obtain ⟨hk, hh', hi', ho', -⟩ := CPU.advance_fields
          ((((((c.bumped.inMode true).marked.printing (c.bumped.inMode true).prnHeader).printing
            [.number a, .text " :"]).printing
            [.number ((c.bumped.inMode true).marked.cell a), endl]).inMode false)) (c.cell CPU.PC)
        constructor
        · rw [hk]
          rfl
        · rw [hh']
          apply c.bumped_halted.trans hh
        · rw [hi']
          apply c.bumped_instructions
        · apply (CPU.cell_PC_advance _ _).trans
          have hpc : (c.bumped.inMode true).marked.cell CPU.PC = c.cell 0 + 1 :=
            cell_PC_marked_bumped
          simp only [CPU.cell_inMode, CPU.cell_printing, hpc]
          apply if_neg
          change c.cell 0 ≠ c.cell 0 + 1
          omega
        · rw [CPU.cell_advance _ _ (by unfold stateCell; omega) (by unfold stateCell; omega)
            (by unfold stateCell; omega) (by unfold stateCell; omega)]
          apply hstate
        · intro b hb hb' h3 hne
          rw [CPU.cell_advance _ _ hb.le hb' hb.ne' h3]
          apply cell_marked_bumped h₁ h₁' hb hb' hne
        · use (c.bumped.inMode true).marked.cell a
          constructor
          · rw [ho']
            have hcout : (c.bumped.inMode true).marked.cout = c.cout := c.bumped_cout
            simp only [CPU.inMode, CPU.printing, CPU.prnHeader] at hcout ⊢
            rw [hcout]
            have h22' : toInt (c.bumped.cell 22) = c.cell 22 := by
              apply (congrArg toInt h22).trans
              apply toInt_of_small <;> omega
            change _ ++ [_, Output.number (toInt (c.bumped.cell 22)), _] ++ _ ++ _ = _
            rw [h22']
            simp
          · intro h1000
            have hlt := (sizeT_lt_iff.mp (Int.not_le.mp ha)).2
            apply cell_marked_bumped h₁ h₁' (by omega) hlt
            unfold Touched stateCell startCell
            omega

/-- A step in user mode, by a thread of the table whose system calls lie outside of the
handlers. -/
theorem threadStep_of_step (hu : c.kernelMode = false) (h₁ : 1 ≤ c.cell 22)
    (h₁' : c.cell 22 ≤ 10) (hcall : c.AtSyscall → c.cell 0 ≠ 400 ∧ c.cell 0 ≠ 430)
    (hstep : c.step = some c') :
  ThreadStep c c'
  := by
  by_cases hs : c.AtSyscall
  · obtain ⟨hh, instr, hi, ht⟩ := id hs
    cases hst : instr.syscallType with
    | none =>
        obtain ⟨hh', -⟩ | ⟨-, hi', -⟩ | ⟨instr', -, hi', hr⟩ := CPU.step_cases hstep
        · rw [hh] at hh'
          cases hh'
        · rw [hi] at hi'
          cases hi'
        rw [hi] at hi'
        cases hi'
        simp only [ht, CPU.instructionHandlers, CPU.executeSYSCALL_run, CPU.syscallResult,
          hst] at hr
        cases hr
        obtain ⟨hk, hh', -, ho, -⟩ := CPU.advance_fields
          ((c.bumped.inMode true).halting [.text "Error: Unknown syscall type."]) (c.cell CPU.PC)
        apply ThreadStep.stops instr hh hi ht (.inl ⟨hst, ho.trans c.bumped_cout⟩)
        constructor
        · rw [hk]
          rfl
        · rw [hh']
          rfl
        · apply (CPU.cell_PC_advance _ _).trans
          rw [CPU.cell_halting, CPU.cell_inMode, CPU.cell_bumped_PC, if_pos rfl]
          rfl
        · rintro b ⟨hb, hb'⟩ hne
          unfold Touched at hne
          rw [CPU.cell_advance _ _ (by omega) (by omega) (by omega) (by omega), CPU.cell_halting,
            CPU.cell_inMode, cell_bumped_of_ne (by omega) (by omega) (by omega)]
    | some st =>
        cases st with
        | PRN =>
            obtain ⟨hh', -⟩ | ⟨-, hi', -⟩ | ⟨instr', -, hi', hr⟩ := CPU.step_cases hstep
            · rw [hh] at hh'
              cases hh'
            · rw [hi] at hi'
              cases hi'
            rw [hi] at hi'
            cases hi'
            simp only [ht, CPU.instructionHandlers, CPU.executeSYSCALL_run, CPU.syscallResult,
              hst] at hr
            apply threadStep_prn h₁ h₁' hh hi ht hst hr
        | HLT | YIELD =>
            obtain ⟨c'', he⟩ := entered_of_syscall (fun _ => (countAddr_bounds h₁ h₁').1) hh hi ht
              hst (by decide) (by first | exact (hcall hs).2 | exact (hcall hs).1)
            obtain rfl : c'' = c' := by
              have := he.step.symm.trans hstep
              cases this
              rfl
            apply ThreadStep.enters instr _ hh hi ht hst (by decide) he
  · apply ThreadStep.stays _ hs
    apply CPU.sameKernel_userStep hu ⟨hstep, hs⟩

end OperatingSystem
