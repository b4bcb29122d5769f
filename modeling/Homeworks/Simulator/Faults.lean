import Homeworks.Simulator.Protection

/-!
# Faulting instructions

The plain instructions check before they write.  `USER` changes the mode before its checks, and
`SYSCALL PRN` changes the mode and marks the running thread before it reads its operand.
-/

namespace Simulator

namespace CPU

/-- The counter cell of the running thread is not within memory, so that `execute` throws. -/
def Escapes (c : CPU) : Prop := c.InSegment ∧ 10000 ≤ sizeT c.countAddr

/-- A handler throws an exception or halts the CPU after an access violation or a stack overflow
or underflow. -/
def EndsInFault (instr : Instruction) : EStateM.Result Stop CPU Unit → Prop
  | .error (.exception _) _ => True
  | .error .undefined _ => False
  | .ok _ c => c.halted = true ∧ instr.type ≠ .HLT ∧ instr.type ≠ .SYSCALL

/-- The execution of the next instruction ends in a fault. -/
structure Faults (c : CPU) (instr : Instruction) : Prop where
  running : c.halted = false
  current : c.current = some instr
  fault : c.Escapes ∨ EndsInFault instr ((instructionHandlers instr.type instr).run c.bumped)

/-- The CPU is halted, and nothing else has changed but the program counter, the instruction count
and the counter of the running thread. -/
def NoDataEffect (c : CPU) : Prop :=
  ∃ c', c.step = some c' ∧ c'.halted = true ∧ c'.kernelMode = c.kernelMode
    ∧ ∀ a, 0 ≤ a → a < 10000 → a ≠ PC → a ≠ INSTR_COUNT → a ≠ c.countAddr → c'.cell a = c.cell a

/-- The table entry of the running thread is as `SYSCALL PRN` leaves it.  An entry whose second
cell is not within memory is left after the first store. -/
def AlreadyMarked (c : CPU) : Prop :=
  (c.threadTable = 0 ∨ c.cell (c.threadTable + 3) = 2)
    ∧ (sizeT (c.threadTable + 1) < 10000 →
      c.cell (c.threadTable + 1) = if c.threadTable = 0 then 2 else c.cell 3)

/-- The mode and the thread table are already as the instruction makes them before its checks. -/
def ChecksFirst (c : CPU) (instr : Instruction) : Prop :=
  ¬ c.Escapes ∧ (instr.type = .USER → c.kernelMode = false)
    ∧ (instr.type = .SYSCALL → c.kernelMode = true
      ∧ (10000 ≤ sizeT (c.bumped.threadTable + 3) ∨ c.bumped.AlreadyMarked))

variable {c : CPU} {instr : Instruction}

/-- What the handler leaves is what `execute` leaves. -/
theorem noDataEffect_iff (hrunning : c.halted = false) (hcurrent : c.current = some instr)
    (hescapes : ¬ c.Escapes)
    (hfault : EndsInFault instr ((instructionHandlers instr.type instr).run c.bumped)) :
  c.NoDataEffect
    ↔ (finalState ((instructionHandlers instr.type instr).run c.bumped)).kernelMode = c.kernelMode
      ∧ ∀ a, 0 ≤ a → a < 10000 → a ≠ PC → a ≠ INSTR_COUNT → a ≠ c.countAddr →
          (finalState ((instructionHandlers instr.type instr).run c.bumped)).cell a
            = c.bumped.cell a
  := by
  have hcounter : c.InSegment → sizeT c.countAddr < 10000 := fun hin =>
    Int.not_le.mp fun hle => hescapes ⟨hin, hle⟩
  have hrun := step_of_current hcounter hrunning hcurrent
  generalize (instructionHandlers instr.type instr).run c.bumped = r at hfault hrun ⊢
  obtain ⟨c', hfinish, hhalted, hmode⟩ : ∃ c', finish (c.cell PC) r = .ok () c'
      ∧ c'.halted = true ∧ c'.kernelMode = (finalState r).kernelMode := by
    cases r with
    | ok _ d =>
        obtain ⟨hmode, hhalted, -⟩ := d.advance_fields (c.cell PC)
        exact ⟨_, rfl, hhalted.trans hfault.1, hmode⟩
    | error stop d =>
        cases stop with
        | exception what => exact ⟨_, rfl, rfl, rfl⟩
        | undefined => cases hfault
  have hstep : c.step = some c' := by
    rw [step, hrun, hfinish]
  have hcells : ∀ a, 0 ≤ a → a < 10000 → a ≠ PC → a ≠ INSTR_COUNT → a ≠ c.countAddr →
      (c'.cell a = c.cell a ↔ (finalState r).cell a = c.bumped.cell a) := by
    intro a h₀ h₁ hPC hcount haddr
    rw [cell_finish hfinish h₀ h₁ hPC hcount, cell_bumped c h₀ h₁, if_neg fun h => haddr h.2]
  constructor
  · rintro ⟨d, hd, -, hkernel, hsame⟩
    rw [hstep] at hd
    cases hd
    refine ⟨hmode.symm.trans hkernel, fun a h₀ h₁ hPC hcount haddr => ?_⟩
    exact (hcells a h₀ h₁ hPC hcount haddr).mp (hsame a h₀ h₁ hPC hcount haddr)
  · rintro ⟨hkernel, hsame⟩
    refine ⟨c', hstep, hhalted, hmode.trans hkernel, fun a h₀ h₁ hPC hcount haddr => ?_⟩
    exact (hcells a h₀ h₁ hPC hcount haddr).mpr (hsame a h₀ h₁ hPC hcount haddr)

theorem not_noDataEffect_of_escapes (h : c.Escapes) :
  ¬ c.NoDataEffect
  := by
  rintro ⟨c', hstep, -⟩
  rw [step, execute_run_escape c h.1 h.2] at hstep
  cases hstep

theorem plain_fault (hp : Plain instr)
    (hfault : EndsInFault instr ((instructionHandlers instr.type instr).run c))
    (hrunning : c.halted = false) :
  (finalState ((instructionHandlers instr.type instr).run c)).kernelMode = c.kernelMode
    ∧ ∀ a, (finalState ((instructionHandlers instr.type instr).run c)).cell a = c.cell a
  := by
  rw [handler_run c instr hp] at hfault ⊢
  cases he : effect c.valid c.cell instr with
  | throws what => exact ⟨rfl, fun _ => rfl⟩
  | violation message => exact ⟨rfl, fun _ => rfl⟩
  | writes stores =>
      rw [he] at hfault
      obtain ⟨-, hhalted, -⟩ := c.setAll_fields stores
      have hhalts : (c.setAll stores).halted = true := hfault.1
      rw [hhalted, hrunning] at hhalts
      cases hhalts

/-- `USER` leaves the cells as they are when it goes wrong, but not the mode. -/
theorem user_fault (ht : instr.type = .USER)
    (hfault : EndsInFault instr ((instructionHandlers instr.type instr).run c))
    (hrunning : c.halted = false) :
  (finalState ((instructionHandlers instr.type instr).run c)).kernelMode = false
    ∧ ∀ a, (finalState ((instructionHandlers instr.type instr).run c)).cell a = c.cell a
  := by
  simp only [instructionHandlers, ht] at hfault ⊢
  by_cases hl : instr.operands.length = 1
  · obtain ⟨a, ha⟩ := List.length_eq_one_iff.mp hl
    rw [executeUSER_one c instr a ha] at hfault ⊢
    have hhalts : (c.userResult a).halted = true := hfault.1
    rw [finalState]
    rw [userResult] at hhalts ⊢
    split at hhalts
    next hin =>
      split at hhalts
      next hvalid =>
        rw [set_halted, inMode_halted, hrunning] at hhalts
        cases hhalts
      next hinvalid =>
        rw [if_pos hin, if_neg hinvalid]
        exact ⟨rfl, fun _ => rfl⟩
    next hout =>
      rw [if_neg hout]
      exact ⟨rfl, fun _ => rfl⟩
  · rw [executeUSER_other c instr hl] at hfault
    have hhalts : (c.inMode false).halted = true := hfault.1
    rw [inMode_halted, hrunning] at hhalts
    cases hhalts

/-- Marking the running thread changes nothing if it is already marked. -/
theorem marked_iff {countAddr k : Int} (hcount : countAddr = 500 + k * 10 + 2)
    (h₃ : sizeT (c.threadTable + 3) < 10000) (h₁ : sizeT (c.threadTable + 1) < 10000) :
  (∀ a, 0 ≤ a → a < 10000 → a ≠ PC → a ≠ INSTR_COUNT → a ≠ countAddr →
      c.marked.cell a = c.cell a)
    ↔ c.AlreadyMarked
  := by
  have h₁' := h₁
  rw [sizeT_lt_iff] at h₃ h₁
  have heven := c.threadTable_even
  have hPC : PC = 0 := rfl
  have hINSTR : INSTR_COUNT = 3 := rfl
  have hcell :
      (c.set (c.threadTable + 3) 2).cell 3 = if c.threadTable = 0 then 2 else c.cell 3 := by
    rw [cell_set _ _ _ (by decide) (by decide)]
    have hiff : 3 = c.threadTable + 3 ↔ c.threadTable = 0 := by omega
    simp only [hiff]
  constructor
  · intro h
    constructor
    · by_cases hzero : c.threadTable = 0
      · exact .inl hzero
      · have hstate := h (c.threadTable + 3) h₃.1 h₃.2 (by omega) (by omega) (by omega)
        rw [cell_marked_of_ne _ h₃.1 h₃.2 (by omega), if_neg (by omega), if_pos rfl] at hstate
        exact .inr hstate.symm
    · intro _
      by_cases hINSTR' : c.threadTable + 1 = 3
      · -- the start time is the instruction count itself
        rw [hINSTR', if_neg (by omega)]
      · have hstart := h (c.threadTable + 1) h₁.1 h₁.2 (by omega) (by omega) (by omega)
        rw [cell_marked_of_ne _ h₁.1 h₁.2 (by omega), if_pos rfl, hcell] at hstart
        exact hstart.symm
  · rintro ⟨hstate, hstart⟩ a ha ha' hne hne' -
    rw [cell_marked_of_ne _ ha ha' hne, hcell, ← hstart h₁']
    split
    next h => rw [h]
    next h =>
      split
      next h =>
        rcases hstate with hzero | hstate
        · rw [hzero] at h
          exact absurd h hne'
        · rw [h, hstate]
      next => rfl

/-- If only the first store to the entry is within memory it changes nothing if the entry is
already marked. -/
theorem set_state_iff {countAddr k : Int} (hcount : countAddr = 500 + k * 10 + 2)
    (h₃ : sizeT (c.threadTable + 3) < 10000) (h₁ : 10000 ≤ sizeT (c.threadTable + 1)) :
  (∀ a, 0 ≤ a → a < 10000 → a ≠ PC → a ≠ INSTR_COUNT → a ≠ countAddr →
      (c.set (c.threadTable + 3) 2).cell a = c.cell a)
    ↔ c.AlreadyMarked
  := by
  have hin := sizeT_lt_iff.mp h₃
  have hout := mt sizeT_lt_iff.mpr (Int.not_lt.mpr h₁)
  have heven := c.threadTable_even
  have hPC : PC = 0 := rfl
  have hINSTR : INSTR_COUNT = 3 := rfl
  have hne : c.threadTable ≠ 0 := by omega
  rw [AlreadyMarked, or_iff_right hne, and_iff_left fun h => absurd h (Int.not_lt.mpr h₁)]
  constructor
  · intro h
    have hstate := h (c.threadTable + 3) hin.1 hin.2 (by omega) (by omega) (by omega)
    rw [cell_set_self] at hstate
    exact hstate.symm
  · intro hstate a ha ha' _ _ _
    rw [cell_set _ _ _ ha ha']
    split
    next h => rw [h, hstate]
    next => rfl

/-- `SYSCALL` throws an exception only as a print, in kernel mode. -/
theorem syscall_fault (ht : instr.type = .SYSCALL) {countAddr k : Int}
    (hcount : countAddr = 500 + k * 10 + 2)
    (hfault : EndsInFault instr ((instructionHandlers instr.type instr).run c)) :
  (finalState ((instructionHandlers instr.type instr).run c)).kernelMode = true
    ∧ ((∀ a, 0 ≤ a → a < 10000 → a ≠ PC → a ≠ INSTR_COUNT → a ≠ countAddr →
          (finalState ((instructionHandlers instr.type instr).run c)).cell a = c.cell a)
        ↔ 10000 ≤ sizeT (c.threadTable + 3) ∨ c.AlreadyMarked)
  := by
  simp only [instructionHandlers, ht, executeSYSCALL_run, syscallResult] at hfault ⊢
  cases hst : instr.syscallType with
  | none =>
      rw [hst] at hfault
      exact absurd ht hfault.2.2
  | some st =>
      cases st with
      | HLT | YIELD =>
          rw [hst] at hfault
          exact absurd ht hfault.2.2
      | PRN =>
          rw [hst] at hfault
          dsimp only at hfault ⊢
          have htable : (c.inMode true).threadTable = c.threadTable := rfl
          rw [prnResult, htable] at hfault ⊢
          split at hfault
          next h₃ =>
            rw [if_pos h₃]
            exact ⟨rfl, iff_of_true (fun _ _ _ _ _ _ => rfl) (.inl h₃)⟩
          next h₃ =>
            rw [if_neg h₃]
            split at hfault
            next h₁ =>
              rw [if_pos h₁]
              refine ⟨rfl, Iff.trans ?_ (or_iff_right h₃).symm⟩
              exact set_state_iff (c := c.inMode true) hcount (Int.not_le.mp h₃) h₁
            next h₁ =>
              rw [if_neg h₁]
              cases hops : instr.operands[0]? with
              | none =>
                  rw [hops] at hfault
                  cases hfault
              | some a =>
                  rw [hops] at hfault
                  dsimp only at hfault ⊢
                  split at hfault
                  next ha =>
                    rw [if_pos ha]
                    refine ⟨rfl, Iff.trans ?_ (or_iff_right h₃).symm⟩
                    exact marked_iff (c := c.inMode true) hcount (Int.not_le.mp h₃)
                      (Int.not_le.mp h₁)
                  next ha => exact absurd ht hfault.2.2

/-- A state whose next instruction is the given one. -/
def about (instr : Instruction) : CPU :=
  { new with instructions := fun a => if a = 0 then some instr else none }

end CPU

end Simulator
