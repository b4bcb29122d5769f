import Homeworks.Simulator.Effect

/-!
# One step of the CPU

The results of the instructions that change the mode, and the result of `execute`: the
per-thread counter is updated, the instruction at the program counter is carried out, and
the instruction count and the program counter are advanced.
-/

namespace Simulator

namespace CPU

/-! ### The instructions that change the mode -/

/-- The state in the given mode. -/
def inMode (c : CPU) (kernel : Bool) : CPU := { c with kernelMode := kernel }

/-- The state after output to the console. -/
def printing (c : CPU) (items : List Output) : CPU := { c with cout := c.cout ++ items }

@[simp] theorem cell_inMode (c : CPU) (k : Bool) (a : Int) : (c.inMode k).cell a = c.cell a := rfl
@[simp] theorem inMode_kernelMode (c : CPU) (k : Bool) : (c.inMode k).kernelMode = k := rfl
@[simp] theorem inMode_halted (c : CPU) (k : Bool) : (c.inMode k).halted = c.halted := rfl
@[simp] theorem inMode_instructions (c : CPU) (k : Bool) :
  (c.inMode k).instructions = c.instructions := rfl

@[simp] theorem cell_printing (c : CPU) (items : List Output) (a : Int) :
  (c.printing items).cell a = c.cell a := rfl
@[simp] theorem printing_kernelMode (c : CPU) (items : List Output) :
  (c.printing items).kernelMode = c.kernelMode := rfl
@[simp] theorem printing_halted (c : CPU) (items : List Output) :
  (c.printing items).halted = c.halted := rfl
@[simp] theorem printing_instructions (c : CPU) (items : List Output) :
  (c.printing items).instructions = c.instructions := rfl

/-- The result of `USER` with one operand. -/
def userResult (c : CPU) (a : Int) : CPU :=
  if sizeT a < 10000 then
    if Memory.isAddressValid (sizeT (c.cell a)) false then
      (c.inMode false).set PC (c.cell a)
    else
      (c.inMode false).halting
        [.text "Access violation: USER jump address not accessible in user mode"]
  else
    (c.inMode false).halting [.text "Access violation: USER operand address not accessible"]

theorem setKernelMode_run (c : CPU) (k : Bool) :
  (setKernelMode k).run c = .ok () (c.inMode k)
  := rfl

theorem toCout_run (c : CPU) (items : List Output) :
  (toCout items).run c = .ok () (c.printing items)
  := rfl

theorem executeUSER_one (c : CPU) (instr : Instruction) (a : Int) (h : instr.operands = [a]) :
  (executeUSER instr).run c = .ok () (c.userResult a)
  := by
  have hop : instr.operands[0]? = some a := by rw [h]; rfl
  simp only [executeUSER, h, List.length_singleton, if_true, EStateM.run_bind,
    setKernelMode_run, operand_run hop, userResult]
  by_cases ha : sizeT a < 10000
  · rw [isAddressValid_kernel.mpr (sizeT_lt_iff.mp ha)]
    simp only [Bool.not_true, Bool.false_eq_true, if_false, EStateM.run_bind, read_run ha,
      cell_inMode, if_pos ha]
    cases Memory.isAddressValid (sizeT (c.cell a)) false with
    | false => rfl
    | true => apply write_run sizeT_PC
  · have hk : Memory.isAddressValid (sizeT a) true = false := by
      rw [← Bool.not_eq_true, isAddressValid_kernel, ← sizeT_lt_iff]
      apply ha
    rw [hk, if_neg ha]
    rfl

theorem executeUSER_other (c : CPU) (instr : Instruction) (h : instr.operands.length ≠ 1) :
  (executeUSER instr).run c = .ok () (c.inMode false)
  := by
  simp only [executeUSER, h, if_false, setKernelMode_run]

/-- The table entry of the running thread, as `executeSYSCALL` computes it. -/
def threadTable (c : CPU) : Int := toInt (500 + toInt (c.cell 22) * 10)

theorem threadTable_even (c : CPU) :
  c.threadTable % 2 = 0
  := by
  rw [threadTable, toInt, Int.bmod_def]
  split <;> omega

/-- The state in which `SYSCALL PRN` has marked the running thread as blocked. -/
def marked (c : CPU) : CPU :=
  let c₁ := c.set (c.threadTable + 3) 2
  let c₂ := c₁.set (c.threadTable + 1) (c₁.cell 3)
  c₂.set 0 (c₂.cell PC + 1)

/-- What `SYSCALL PRN` prints before the address. -/
def prnHeader (c : CPU) : List Output :=
  [.text "Thread ", .number (toInt (c.cell 22)), .text ": Adress: "]

/-- The result of `SYSCALL PRN` from a state already in kernel mode. -/
def prnResult (c : CPU) (instr : Instruction) : EStateM.Result Stop CPU Unit :=
  if 10000 ≤ sizeT (c.threadTable + 3) then
    .error (.exception Memory.outOfBounds) c
  else if 10000 ≤ sizeT (c.threadTable + 1) then
    .error (.exception Memory.outOfBounds) (c.set (c.threadTable + 3) 2)
  else
    match instr.operands[0]? with
    | none => .error .undefined (c.marked.printing c.prnHeader)
    | some a =>
        let c' := (c.marked.printing c.prnHeader).printing [.number a, .text " :"]
        if 10000 ≤ sizeT a then
          .error (.exception Memory.outOfBounds) c'
        else
          .ok () ((c'.printing [.number (c.marked.cell a), endl]).inMode false)

/-- The result of `SYSCALL`. -/
def syscallResult (c : CPU) (instr : Instruction) : EStateM.Result Stop CPU Unit :=
  match instr.syscallType with
  | some .PRN => (c.inMode true).prnResult instr
  | some .HLT => .ok () (((c.inMode true).set 4 (c.cell PC + 1)).set 0 430)
  | some .YIELD => .ok () (((c.inMode true).set 4 (c.cell PC + 1)).set 0 400)
  | none => .ok () ((c.inMode true).halting [.text "Error: Unknown syscall type."])

/-- A store to the table of the running thread: the address is an `int`. -/
theorem write_threadTable (c c' : CPU) {k : Int} (v : Int) (hk : 0 ≤ k) (hk' : k < 10) :
  (write (toInt (c.threadTable + k)) v).run c' = (write (c.threadTable + k) v).run c'
  := by
  unfold threadTable
  rcases toInt_add (500 + toInt (c.cell 22) * 10) hk hk' with heq | ⟨hout, hout'⟩
  · rw [heq]
  · rw [write_run_error hout, write_run_error hout']

theorem executeSYSCALL_run (c : CPU) (instr : Instruction) :
  (executeSYSCALL instr).run c = c.syscallResult instr
  := by
  have h22 : sizeT 22 < 10000 := by decide
  have h3 : sizeT 3 < 10000 := by decide
  have h4 : sizeT 4 < 10000 := by decide
  have h0 : sizeT 0 < 10000 := by decide
  simp only [executeSYSCALL, syscallResult, EStateM.run_bind, setKernelMode_run]
  cases instr.syscallType with
  | none => rfl
  | some st =>
      cases st with
      | HLT =>
          simp only [EStateM.run_bind, read_run sizeT_PC, write_run h4, write_run h0]
          rfl
      | YIELD =>
          simp only [EStateM.run_bind, read_run sizeT_PC, write_run h4, write_run h0]
          rfl
      | PRN =>
          have htable : toInt (500 + toInt ((c.inMode true).cell 22) * 10)
              = (c.inMode true).threadTable := rfl
          have hstate := write_threadTable (c.inMode true) (c.inMode true) 2 (k := 3)
            (by decide) (by decide)
          have hstart := fun (c' : CPU) (v : Int) =>
            write_threadTable (c.inMode true) c' v (k := 1) (by decide) (by decide)
          simp only [EStateM.run_bind, read_run h22, prnResult, htable, hstate]
          by_cases hs : 10000 ≤ sizeT ((c.inMode true).threadTable + 3)
          · simp only [write_run_error hs, if_pos hs]
          · simp only [write_run (Int.not_le.mp hs), if_neg hs, read_run h3, hstart]
            by_cases hb : 10000 ≤ sizeT ((c.inMode true).threadTable + 1)
            · simp only [write_run_error hb, if_pos hb]
            · simp only [write_run (Int.not_le.mp hb), if_neg hb, read_run sizeT_PC, write_run h0,
                toCout_run]
              cases ho : instr.operands[0]? with
              | none =>
                  simp only [operand, ho]
                  rfl
              | some a =>
                  simp only [operand_run ho]
                  by_cases ha : 10000 ≤ sizeT a
                  · simp only [read_run_error ha, if_pos ha]
                    rfl
                  · simp only [read_run (Int.not_le.mp ha), if_neg ha]
                    rfl

/-! ### The result of `execute` -/

/-- The counter cell of the running thread. -/
def countAddr (c : CPU) : Int := 500 + c.cell 22 * 10 + 2

/-- Whether the program counter is within the segment of the running thread. -/
def InSegment (c : CPU) : Prop :=
  c.cell 0 ≥ c.cell 22 * 1000 ∧ c.cell 0 ≤ (c.cell 22 + 1) * 1000 - 1

instance (c : CPU) : Decidable c.InSegment := by
  unfold InSegment
  infer_instance

/-- The state after the update of the per-thread counter. -/
def bumped (c : CPU) : CPU :=
  if c.InSegment then c.set c.countAddr (c.cell c.countAddr + 1) else c

/-- The state after the instruction count and the program counter are advanced; `pc` is
the program counter before the instruction. -/
def advance (c : CPU) (pc : Int) : CPU :=
  let c' := c.set INSTR_COUNT (c.cell INSTR_COUNT + 1)
  if pc = c'.cell PC then c'.set PC (pc + 1) else c'

/-- The instruction at the program counter. -/
def current (c : CPU) : Option Instruction := c.instructions (sizeT (c.cell 0))

/-- The state in which `execute` has caught the exception of a handler. -/
def caught (c : CPU) (what : String) : CPU :=
  c.halting [.text "Error executing instruction: ", .text what]

/-- The state in which `execute` has found no instruction. -/
def missing (c : CPU) (pc : Int) : CPU :=
  c.halting [.text "Error: No instruction found at PC (", .number pc, .text ")."]

/-- What `execute` makes of the result of a handler. -/
def finish (pc : Int) : EStateM.Result Stop CPU Unit → EStateM.Result Stop CPU Unit
  | .ok _ c => .ok () (c.advance pc)
  | .error (.exception what) c => .ok () (c.caught what)
  | .error .undefined c => .error .undefined c

theorem advance_run (c : CPU) (pc : Int) :
  (do
    let count ← read INSTR_COUNT
    write INSTR_COUNT (count + 1)
    if pc = (← read PC) then
      write PC (pc + 1) : Exec Unit).run c = .ok () (c.advance pc)
  := by
  have hcount : sizeT INSTR_COUNT < 10000 := by decide
  simp only [EStateM.run_bind, read_run hcount, write_run hcount, read_run sizeT_PC, advance]
  split
  · apply write_run sizeT_PC
  · rfl

/-- `execute` lets an exception escape when the counter cell of the running thread is out
of bounds. -/
theorem execute_run_escape (c : CPU) (h : c.InSegment) (h' : 10000 ≤ sizeT c.countAddr) :
  execute.run c = .error (.exception Memory.outOfBounds) c
  := by
  have h22 : sizeT 22 < 10000 := by decide
  have hc : (500 : Int) + c.cell 22 * 10 + 2 = c.countAddr := rfl
  have hs : c.cell PC ≥ c.cell 22 * 1000 ∧ c.cell PC ≤ (c.cell 22 + 1) * 1000 - 1 := h
  simp only [execute, EStateM.run_bind, read_run sizeT_PC, read_run h22, if_pos hs, hc,
    read_run_error h']

/-- The part of `execute` after the update of the per-thread counter. -/
def dispatch (pc : Int) : Exec Unit := do
  if (← get).halted then
    return
  match (← get).instructions (sizeT pc) with
  | none =>
      halt [.text "Error: No instruction found at PC (", .number pc, .text ")."]
  | some instr =>
      let returned ← tryCatch
        (do
          instructionHandlers instr.type instr
          pure true)
        (fun
          | .exception what => do
              halt [.text "Error executing instruction: ", .text what]
              pure false
          | .undefined => throw .undefined)
      if returned then
        let count ← read INSTR_COUNT
        write INSTR_COUNT (count + 1)
        if pc = (← read PC) then
          write PC (pc + 1)

theorem tryCatch_run {α : Type} (c : CPU) (x : Exec α) (handle : Stop → Exec α) :
  (tryCatch x handle).run c =
    match x.run c with
    | .ok a c' => .ok a c'
    | .error stop c' => (handle stop).run c'
  := by
  change EStateM.tryCatch x handle c = match x c with
    | .ok a c' => .ok a c'
    | .error stop c' => handle stop c'
  unfold EStateM.tryCatch
  cases x c with
  | ok a c' => rfl
  | error stop c' => rfl

theorem dispatch_run (c : CPU) (pc : Int) :
  (dispatch pc).run c =
    if c.halted then
      .ok () c
    else
      match c.instructions (sizeT pc) with
      | none => .ok () (c.missing pc)
      | some instr => finish pc ((instructionHandlers instr.type instr).run c)
  := by
  simp only [dispatch, EStateM.run_bind, EStateM.run_get]
  cases c.halted with
  | true => rfl
  | false =>
      simp only [Bool.false_eq_true, if_false, EStateM.run_bind, EStateM.run_get]
      cases c.instructions (sizeT pc) with
      | none => rfl
      | some instr =>
          simp only [EStateM.run_bind, tryCatch_run]
          cases (instructionHandlers instr.type instr).run c with
          | ok _ c' => apply advance_run
          | error stop c' =>
              cases stop with
              | exception what => rfl
              | undefined => rfl

theorem execute_run (c : CPU) (h : c.InSegment → sizeT c.countAddr < 10000) :
  execute.run c = (dispatch (c.cell PC)).run c.bumped
  := by
  have h22 : sizeT 22 < 10000 := by decide
  have hc : (500 : Int) + c.cell 22 * 10 + 2 = c.countAddr := rfl
  simp only [execute, EStateM.run_bind, read_run sizeT_PC, read_run h22, hc, bumped]
  by_cases hs : c.InSegment
  · have hs' : c.cell PC ≥ c.cell 22 * 1000 ∧ c.cell PC ≤ (c.cell 22 + 1) * 1000 - 1 := hs
    simp only [if_pos hs', EStateM.run_bind, read_run (h hs), write_run (h hs), if_pos hs]
    rfl
  · have hs' : ¬ (c.cell PC ≥ c.cell 22 * 1000 ∧ c.cell PC ≤ (c.cell 22 + 1) * 1000 - 1) := hs
    simp only [if_neg hs', if_neg hs]
    rfl

/-! ### What a step can do -/

/-- The update of the counter changes the counter cell only. -/
theorem cell_bumped (c : CPU) {a : Int} (ha : 0 ≤ a) (ha' : a < 10000) :
  c.bumped.cell a = if c.InSegment ∧ a = c.countAddr then c.cell a + 1 else c.cell a
  := by
  unfold bumped
  by_cases hs : c.InSegment
  · rw [if_pos hs, cell_set _ _ _ ha ha']
    by_cases hc : a = c.countAddr
    · rw [if_pos hc, if_pos ⟨hs, hc⟩, hc]
    · rw [if_neg hc, if_neg fun h => hc h.2]
  · rw [if_neg hs, if_neg fun h => hs h.1]

@[simp] theorem bumped_instructions (c : CPU) : c.bumped.instructions = c.instructions := by
  unfold bumped
  split <;> rfl

@[simp] theorem bumped_halted (c : CPU) : c.bumped.halted = c.halted := by
  unfold bumped
  split <;> rfl

@[simp] theorem bumped_kernelMode (c : CPU) : c.bumped.kernelMode = c.kernelMode := by
  unfold bumped
  split <;> rfl

@[simp] theorem bumped_cout (c : CPU) : c.bumped.cout = c.cout := by
  unfold bumped
  split <;> rfl

@[simp] theorem bumped_cerr (c : CPU) : c.bumped.cerr = c.cerr := by
  unfold bumped
  split <;> rfl

/-- The counter cell is neither the program counter, the stack pointer nor the
instruction count. -/
theorem countAddr_ne (c : CPU) :
  c.countAddr ≠ 0 ∧ c.countAddr ≠ 1 ∧ c.countAddr ≠ 3
  := by
  unfold countAddr
  omega

theorem cell_bumped_PC (c : CPU) : c.bumped.cell PC = c.cell PC := by
  rw [cell_bumped c (by decide) (by decide), if_neg fun h => c.countAddr_ne.1 h.2.symm]

/-- Advancing changes the instruction count and the program counter only. -/
theorem cell_advance (c : CPU) (pc : Int) {a : Int} (ha : 0 ≤ a) (ha' : a < 10000)
    (h0 : a ≠ 0) (h3 : a ≠ 3) :
  (c.advance pc).cell a = c.cell a
  := by
  have hPC : a ≠ PC := h0
  have hcount : a ≠ INSTR_COUNT := h3
  simp only [advance]
  split
  · rw [cell_set _ _ _ ha ha', cell_set _ _ _ ha ha', if_neg hPC, if_neg hcount]
  · rw [cell_set _ _ _ ha ha', if_neg hcount]

/-- Advancing moves to the next address a program counter that is that of the
instruction. -/
theorem cell_PC_advance (c : CPU) (pc : Int) :
  (c.advance pc).cell PC = if pc = c.cell PC then pc + 1 else c.cell PC
  := by
  have hne : PC ≠ INSTR_COUNT := by decide
  have hPC : (c.set INSTR_COUNT (c.cell INSTR_COUNT + 1)).cell PC = c.cell PC := by
    rw [cell_set _ _ _ (by decide) (by decide), if_neg hne]
  simp only [advance, hPC]
  split
  · rw [cell_set_self]
  · apply hPC

/-- Advancing counts an instruction. -/
theorem cell_INSTR_COUNT_advance (c : CPU) (pc : Int) :
  (c.advance pc).cell INSTR_COUNT = c.cell INSTR_COUNT + 1
  := by
  simp only [advance]
  split
  · rw [cell_set _ _ _ (by decide) (by decide), if_neg (by decide), cell_set_self]
  · rw [cell_set_self]

theorem advance_fields (c : CPU) (pc : Int) :
  (c.advance pc).kernelMode = c.kernelMode ∧ (c.advance pc).halted = c.halted
    ∧ (c.advance pc).instructions = c.instructions ∧ (c.advance pc).cout = c.cout
    ∧ (c.advance pc).cerr = c.cerr
  := by
  simp only [advance]
  split <;> simp

/-- The state after `execute`, from the result of the handler. -/
theorem step_of_current {c : CPU} {instr : Instruction}
    (hs : c.InSegment → sizeT c.countAddr < 10000) (hh : c.halted = false)
    (hi : c.current = some instr) :
  execute.run c
    = finish (c.cell PC) ((instructionHandlers instr.type instr).run c.bumped)
  := by
  have hi' : c.instructions (sizeT (c.cell PC)) = some instr := hi
  rw [execute_run c hs, dispatch_run]
  simp only [bumped_halted, hh, Bool.false_eq_true, if_false, bumped_instructions, hi']

/-- What a step can do: it only updates the counter of a halted CPU, it halts where there
is no instruction, or it carries out an instruction. -/
theorem step_cases {c c' : CPU} (h : c.step = some c') :
  (c.halted = true ∧ c' = c.bumped)
    ∨ (c.halted = false ∧ c.current = none ∧ c' = c.bumped.missing (c.cell PC))
    ∨ (∃ instr, c.halted = false ∧ c.current = some instr ∧
        finish (c.cell PC) ((instructionHandlers instr.type instr).run c.bumped) = .ok () c')
  := by
  have hrun : execute.run c = .ok () c' := by
    unfold step at h
    split at h
    · rename_i heq
      cases h
      apply heq
    · cases h
  by_cases hesc : c.InSegment ∧ 10000 ≤ sizeT c.countAddr
  · rw [execute_run_escape c hesc.1 hesc.2] at hrun
    cases hrun
  · rw [execute_run c (by intro hs; by_contra hlt; apply hesc ⟨hs, Int.not_lt.mp hlt⟩),
      dispatch_run] at hrun
    cases hh : c.halted with
    | true =>
        simp only [bumped_halted, hh, if_true] at hrun
        cases hrun
        left
        exact ⟨rfl, rfl⟩
    | false =>
        right
        simp only [bumped_halted, hh, Bool.false_eq_true, if_false, bumped_instructions] at hrun
        cases hi : c.current with
        | none =>
            have hi' : c.instructions (sizeT (c.cell PC)) = none := hi
            rw [hi'] at hrun
            cases hrun
            left
            exact ⟨rfl, rfl, rfl⟩
        | some instr =>
            have hi' : c.instructions (sizeT (c.cell PC)) = some instr := hi
            rw [hi'] at hrun
            right
            use instr, rfl, rfl, hrun

end CPU

/-! ### Loading a program

`loadData` stores the entries of the data segment in their order, and `reset` sets the mode
and the registers.
-/

namespace CPU

theorem loadData_run (c : CPU) (data : List (Int × Int))
    (h : ∀ entry ∈ data, 0 ≤ entry.1 ∧ entry.1 < 10000) :
  (loadData data).run c = .ok () (c.setAll data)
  := by
  induction data generalizing c with
  | nil => rfl
  | cons entry data ih =>
      have hsize : sizeT entry.1 < 10000 := sizeT_lt_iff.mpr (h entry List.mem_cons_self)
      have hrun : (loadData (entry :: data)).run c
          = (write entry.1 entry.2 >>= fun _ => loadData data).run c := rfl
      rw [hrun, EStateM.run_bind, write_run hsize]
      apply ih _ fun e he => h e (List.mem_cons_of_mem _ he)

theorem reset_run (c : CPU) :
  reset.run c
    = .ok () (((({ c with halted := false, kernelMode := true } : CPU).set 2 0).set 3 0).set 0 0)
  := by
  have h2 : sizeT SYSCALL_RESULT < 10000 := by decide
  have h3 : sizeT INSTR_COUNT < 10000 := by decide
  have hh : (setHalted false).run c = .ok () { c with halted := false } := rfl
  simp only [reset, EStateM.run_bind, hh, setKernelMode_run, write_run h2,
    write_run h3, write_run sizeT_PC]
  rfl

/-- The state after a program is loaded into a new CPU. -/
def loaded (instructionMap : Int → Option Instruction) (data : List (Int × Int)) : CPU :=
  (((({ new with instructions := instructionMap }.setAll data).set 2 0).set 3 0).set 0 0)

/-- A program whose data lie within memory is loaded. -/
theorem loadProgram_run (instructionMap : Int → Option Instruction) (data : List (Int × Int))
    (h : ∀ entry ∈ data, 0 ≤ entry.1 ∧ entry.1 < 10000) :
  (loadProgram instructionMap data).run new = .ok () (loaded instructionMap data)
  := by
  have hmap : (modify fun c => { c with instructions := instructionMap } : Exec Unit).run new
      = .ok () { new with instructions := instructionMap } := rfl
  simp only [loadProgram, EStateM.run_bind, hmap, loadData_run _ _ h, reset_run]
  obtain ⟨hk, hh, -⟩ := setAll_fields { new with instructions := instructionMap } data
  unfold loaded
  generalize setAll _ _ = c at *
  cases c
  dsimp only at hk hh
  rw [hk, hh]
  rfl

/-- Loading data of which an entry lies outside memory throws an exception. -/
theorem loadData_run_error (c : CPU) (data : List (Int × Int))
    (h : ∃ entry ∈ data, 10000 ≤ sizeT entry.1) :
  ∃ c', (loadData data).run c = .error (.exception Memory.outOfBounds) c'
  := by
  induction data generalizing c with
  | nil =>
      obtain ⟨entry, hmem, -⟩ := h
      cases hmem
  | cons entry data ih =>
      have hrun : (loadData (entry :: data)).run c
          = (write entry.1 entry.2 >>= fun _ => loadData data).run c := rfl
      rw [hrun, EStateM.run_bind]
      rcases le_or_gt 10000 (sizeT entry.1) with hs | hs
      · rw [write_run_error hs]
        use c
      · rw [write_run hs]
        apply ih
        obtain ⟨e, hmem, he⟩ := h
        obtain rfl | hmem := List.mem_cons.mp hmem
        · omega
        · use e, hmem

/-- Such a program is not loaded. -/
theorem loadProgram_run_error (instructionMap : Int → Option Instruction)
    (data : List (Int × Int)) (h : ∃ entry ∈ data, 10000 ≤ sizeT entry.1) :
  ∃ c', (loadProgram instructionMap data).run new = .error (.exception Memory.outOfBounds) c'
  := by
  have hmap : (modify fun c => { c with instructions := instructionMap } : Exec Unit).run new
      = .ok () { new with instructions := instructionMap } := rfl
  obtain ⟨c', hc'⟩ := loadData_run_error { new with instructions := instructionMap } data h
  simp only [loadProgram, EStateM.run_bind, hmap, hc']
  use c'

end CPU

end Simulator
