import Homeworks.Simulator.Step

/-!
# Control transfer

`transfer c instr` is the address an instruction transfers control to, when carried out in
the state `c`.  After `execute` the program counter holds that address, or the next one
when there is none; except that `execute` takes a transfer of an instruction to its own
address for no transfer, and goes on to the next address.
-/

namespace Simulator

namespace CPU

/-- A store sets the program counter when it goes to its cell. -/
def storeTo (address value : Int) : Option Int :=
  if address = PC then some value else none

/-- The address to which an instruction sets the program counter, if it sets it. -/
def transfer (c : CPU) (instr : Instruction) : Option Int :=
  match instr.type, instr.operands with
  | .SET, [value, address] => storeTo address value
  | .CPY, [src, dest] => storeTo dest (c.cell src)
  | .CPYI, [indirect, dest] => storeTo dest (c.cell (c.cell indirect))
  | .CPYI2, [a1, a2] => storeTo (c.cell a2) (c.cell (c.cell a1))
  | .ADD, [address, value] => storeTo address (c.cell address + value)
  | .ADDI, [dest, src] => storeTo dest (c.cell dest + c.cell src)
  | .SUBI, [src, dest] => storeTo dest (c.cell src - c.cell dest)
  | .JIF, [mem, jump] => if c.cell mem ≤ 0 then some jump else none
  | .PUSH, [address] => storeTo (c.cell SP - 1) (c.cell address)
  | .POP, [address] => storeTo address (c.cell (c.cell SP))
  | .CALL, [jump] => some jump
  | .RET, _ => some (c.cell (c.cell SP))
  | .USER, [a] => some (c.cell a)
  | .SYSCALL, _ =>
      match instr.syscallType with
      | some .PRN => some (c.cell PC + 1)
      | some .HLT => some 430
      | some .YIELD => some 400
      | none => none
  | _, _ => none

/-- The program counter of a state is as `transfer` says. -/
def Transferred (c : CPU) (instr : Instruction) (c' : CPU) : Prop :=
  c'.cell PC = (c.transfer instr).getD (c.cell PC)

theorem cell_PC_set (c : CPU) (a v : Int) :
  (c.set a v).cell PC = (storeTo a v).getD (c.cell PC)
  := by
  rw [cell_set _ _ _ (by decide) (by decide), storeTo]
  by_cases h : a = PC
  · rw [if_pos h, if_pos h.symm]
    rfl
  · rw [if_neg h, if_neg (Ne.symm h)]
    rfl

theorem cell_PC_set_other (c : CPU) {a : Int} (v : Int) (h : a ≠ PC) :
  (c.set a v).cell PC = c.cell PC
  := by
  rw [cell_PC_set, storeTo, if_neg h]
  rfl

/-- The stores of a plain instruction set the program counter as `transfer` says. -/
theorem transferred_effect (c : CPU) (instr : Instruction) (h : Plain instr) :
  (effect c.valid c.cell instr).Writes fun stores => Transferred c instr (c.setAll stores)
  := by
  obtain ⟨hHLT, hUSER, hSYSCALL⟩ := h
  have hSP : SP ≠ PC := by decide
  cases ht : instr.type with
  | SET | CPY | ADD | ADDI | SUBI =>
      simp only [effect, ht]
      apply twoOperands_writes
      intro x y ho
      apply check_writes
      intro _
      simp only [Effect.Writes, Transferred, transfer, ht, ho, setAll_cons, setAll_nil, cell_PC_set]
  | CPYI | CPYI2 =>
      simp only [effect, ht]
      apply twoOperands_writes
      intro x y ho
      apply check_writes
      intro _
      apply check_writes
      intro _
      simp only [Effect.Writes, Transferred, transfer, ht, ho, setAll_cons, setAll_nil, cell_PC_set]
  | JIF =>
      simp only [effect, ht]
      apply twoOperands_writes
      intro mem jump ho
      apply check_writes
      intro _
      simp only [Effect.Writes, Transferred, transfer, ht, ho]
      split
      · rw [setAll_cons, setAll_nil, cell_set_self]
        rfl
      · rfl
  | PUSH | POP =>
      simp only [effect, ht]
      apply oneOperand_writes
      intro address ho
      apply check_writes
      intro _
      apply check_writes
      intro _
      simp only [Effect.Writes, Transferred, transfer, ht, ho, setAll_cons, setAll_nil,
        cell_PC_set_other _ _ hSP, cell_PC_set]
  | CALL =>
      simp only [effect, ht]
      apply oneOperand_writes
      intro jump ho
      apply check_writes
      intro _
      simp only [Effect.Writes, Transferred, transfer, ht, ho, setAll_cons, setAll_nil,
        cell_set_self, Option.getD_some]
  | RET =>
      simp only [effect, ht]
      apply check_writes
      intro _
      simp only [Effect.Writes, Transferred, transfer, ht, setAll_cons, setAll_nil,
        cell_PC_set_other _ _ hSP, cell_set_self, Option.getD_some]
  | HLT => cases hHLT ht
  | USER => cases hUSER ht
  | SYSCALL => cases hSYSCALL ht

/-- `execute` completes an instruction without fault: it returns, and the CPU is halted
only if the instruction is `HLT`. -/
structure Completes (c : CPU) (instr : Instruction) (c' : CPU) : Prop where
  running : c.halted = false
  current : c.current = some instr
  step : c.step = some c'
  no_fault : c'.halted = true → instr.type = .HLT

/-- The program counter after `execute` is the target of the instruction, or the next
address when the instruction sets no program counter. -/
def Arrives (c : CPU) (instr : Instruction) (c' : CPU) : Prop :=
  match c.bumped.transfer instr with
  | some t => c'.cell PC = t
  | none => c'.cell PC = c.cell PC + 1

/-- `USER` with an operand jumps to the address in the operand's cell. -/
theorem transferred_user {c : CPU} {instr : Instruction} (ht : instr.type = .USER) {a : Int}
    (ho : instr.operands = [a]) (hh : (c.userResult a).halted = false) :
  Transferred c instr (c.userResult a)
  := by
  simp only [Transferred, transfer, ht, ho, Option.getD_some]
  unfold userResult at hh ⊢
  split at hh
  · rw [if_pos ‹_›]
    split at hh
    · rw [if_pos ‹_›, cell_set_self]
    · cases hh
  · cases hh

/-- `SYSCALL PRN` moves the program counter to the next address. -/
theorem cell_PC_marked (c : CPU) :
  c.marked.cell PC = c.cell PC + 1
  := by
  have heven := c.threadTable_even
  have hstate : c.threadTable + 3 ≠ PC := by
    rw [PC]
    omega
  have hstart : c.threadTable + 1 ≠ PC := by
    rw [PC]
    omega
  apply Eq.trans (cell_set_self _ _ _)
  rw [cell_PC_set_other _ _ hstart, cell_PC_set_other _ _ hstate]

/-- `SYSCALL` jumps to the next address or into the kernel. -/
theorem transferred_syscall {c c₁ : CPU} {instr : Instruction} (ht : instr.type = .SYSCALL)
    (hr : c.syscallResult instr = .ok () c₁) (hh : c₁.halted = false) :
  Transferred c instr c₁
  := by
  have h4 : (4 : Int) ≠ PC := by decide
  rw [syscallResult] at hr
  cases hst : instr.syscallType with
  | none =>
      rw [hst] at hr
      cases hr
      cases hh
  | some st =>
      rw [hst] at hr
      simp only [Transferred, transfer, ht, hst]
      cases st with
      | HLT | YIELD =>
          cases hr
          apply cell_set_self
      | PRN =>
          simp only [prnResult] at hr
          split at hr
          · cases hr
          · split at hr
            · cases hr
            · split at hr
              · cases hr
              · split at hr
                · cases hr
                · cases hr
                  apply cell_PC_marked

/-- A handler that returns without halting the CPU has set the program counter as
`transfer` says. -/
theorem transferred_handler {c c₁ : CPU} {instr : Instruction}
    (hr : (instructionHandlers instr.type instr).run c = .ok () c₁)
    (hh : c₁.halted = true → instr.type = .HLT) :
  Transferred c instr c₁
  := by
  have hne : instr.type ≠ .HLT → c₁.halted = false := by
    intro h
    rw [← Bool.not_eq_true]
    intro h'
    apply h (hh h')
  by_cases hp : Plain instr
  · rw [handler_run c instr hp] at hr
    have he := transferred_effect c instr hp
    cases heff : effect c.valid c.cell instr with
    | throws what =>
        rw [heff] at hr
        cases hr
    | violation message =>
        rw [heff] at hr
        cases hr
        cases hne hp.1
    | writes stores =>
        rw [heff] at hr he
        cases hr
        apply he
  · cases ht : instr.type with
    | HLT =>
        rw [ht] at hr
        cases hr
        simp only [Transferred, transfer, ht]
        rfl
    | USER =>
        rw [ht] at hr hne
        by_cases hl : instr.operands.length = 1
        · obtain ⟨a, ha⟩ := List.length_eq_one_iff.mp hl
          simp only [instructionHandlers, executeUSER_one c instr a ha] at hr
          cases hr
          apply transferred_user ht ha (hne (by decide))
        · simp only [instructionHandlers, executeUSER_other c instr hl] at hr
          cases hr
          have hn : c.transfer instr = none := by
            simp only [transfer, ht]
            split <;> simp_all
          rw [Transferred, hn]
          rfl
    | SYSCALL =>
        rw [ht] at hr hne
        simp only [instructionHandlers, executeSYSCALL_run] at hr
        apply transferred_syscall ht hr (hne (by decide))
    | _ => exact absurd ⟨by simp [ht], by simp [ht], by simp [ht]⟩ hp

/-- After an instruction that completes, the program counter is right exactly when the
instruction does not transfer control to its own address. -/
theorem arrives_iff {c c' : CPU} {instr : Instruction} (h : Completes c instr c') :
  Arrives c instr c' ↔ c.bumped.transfer instr ≠ some (c.cell PC)
  := by
  obtain ⟨hh, hi, hstep, hfault⟩ := h
  obtain ⟨hh', -⟩ | ⟨-, hi', -⟩ | ⟨instr', -, hi', hr⟩ := step_cases hstep
  · rw [hh] at hh'
    cases hh'
  · rw [hi] at hi'
    cases hi'
  · rw [hi] at hi'
    cases hi'
    cases hrun : (instructionHandlers instr.type instr).run c.bumped with
    | ok _ c₁ =>
        rw [hrun] at hr
        cases hr
        rw [(advance_fields _ _).2.1] at hfault
        have ht := transferred_handler hrun hfault
        rw [Transferred, cell_bumped_PC] at ht
        rw [Arrives, cell_PC_advance, ht]
        cases c.bumped.transfer instr with
        | none => simp
        | some t =>
            simp only [Option.getD_some, ne_eq, Option.some.injEq]
            split
            · omega
            · rename_i hne
              simpa using Ne.symm hne
    | error stop c₁ =>
        rw [hrun] at hr
        cases stop with
        | exception what =>
            cases hr
            rw [hfault rfl] at hrun
            cases hrun
        | undefined => cases hr

/-- A program counter of 1000, and there a jump to the given address. -/
def jumping (target : Int) : CPU :=
  { (new.set 0 1000).inMode false with
    instructions := fun a => if a = 1000 then some (.of .JIF [1500, target]) else none }

theorem arrives_iff_jumping :
  ∃ c', Completes (jumping 1200) (.of .JIF [1500, 1200]) c'
    ∧ (Arrives (jumping 1200) (.of .JIF [1500, 1200]) c'
      ↔ (jumping 1200).bumped.transfer (.of .JIF [1500, 1200]) ≠ some ((jumping 1200).cell PC))
  := by
  have h : Completes (jumping 1200) (.of .JIF [1500, 1200])
      (((jumping 1200).set 0 1200).advance 1000) := ⟨rfl, rfl, rfl, by decide⟩
  exact ⟨_, h, arrives_iff h⟩

/-- A jump of an instruction to its own address goes to the next address instead. -/
theorem jump_to_itself_goes_on :
  ¬ ∀ (c c' : CPU) (instr : Instruction), Completes c instr c' → Arrives c instr c'
  := by
  intro h
  have hc : Completes (jumping 1000) (.of .JIF [1500, 1000])
      (((jumping 1000).set 0 1000).advance 1000) := ⟨rfl, rfl, rfl, by decide⟩
  have ha : (1001 : Int) = 1000 := h _ _ _ hc
  exact absurd ha (by decide)

end CPU

end Simulator
