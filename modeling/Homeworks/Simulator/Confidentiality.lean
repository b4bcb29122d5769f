import Homeworks.Simulator.Protection

/-!
# Confidentiality of kernel memory

Two states are low equivalent when they agree on everything a user-mode program may see:
the visible cells, cell 22, the mode and the consoles.  A step in user mode keeps them low
equivalent, unless it is a `SYSCALL PRN` of a hidden cell, which prints the contents of the
cell, or a `USER` through a hidden cell, which moves them into the program counter.
-/

namespace Simulator

namespace CPU

/-- The addresses of the cells a user-mode program may access. -/
def Visible (a : Int) : Prop := 0 ≤ a ∧ (a ≤ 20 ∨ 1000 ≤ a) ∧ a < 10000

/-- The addresses of the kernel cells but cell 22. -/
def Hidden (a : Int) : Prop := a = 21 ∨ (23 ≤ a ∧ a ≤ 999)

/-- Two states agree on everything but the hidden cells. -/
structure Low (c₁ c₂ : CPU) : Prop where
  instructions : c₁.instructions = c₂.instructions
  kernelMode : c₁.kernelMode = c₂.kernelMode
  halted : c₁.halted = c₂.halted
  cout : c₁.cout = c₂.cout
  cerr : c₁.cerr = c₂.cerr
  thread : c₁.cell 22 = c₂.cell 22
  visible : ∀ a, Visible a → c₁.cell a = c₂.cell a

namespace Low

variable {c₁ c₂ c₃ : CPU}

theorem refl (c : CPU) : Low c c := ⟨rfl, rfl, rfl, rfl, rfl, rfl, fun _ _ => rfl⟩

theorem symm (h : Low c₁ c₂) :
  Low c₂ c₁
  := ⟨h.instructions.symm, h.kernelMode.symm, h.halted.symm, h.cout.symm, h.cerr.symm,
    h.thread.symm, fun a ha => (h.visible a ha).symm⟩

theorem trans (h : Low c₁ c₂) (k : Low c₂ c₃) :
  Low c₁ c₃
  := ⟨h.instructions.trans k.instructions, h.kernelMode.trans k.kernelMode,
    h.halted.trans k.halted, h.cout.trans k.cout, h.cerr.trans k.cerr,
    h.thread.trans k.thread, fun a ha => (h.visible a ha).trans (k.visible a ha)⟩

/-- Low equivalent states agree on the cells that are not hidden. -/
theorem cell (h : Low c₁ c₂) {a : Int} (ha : 0 ≤ a) (ha' : a < 10000) (hn : ¬ Hidden a) :
  c₁.cell a = c₂.cell a
  := by
  by_cases h22 : a = 22
  · rw [h22, h.thread]
  · apply h.visible
    unfold Visible Hidden at *
    omega

/-- A store that differs in a hidden cell only. -/
theorem set_hidden (h : Low c₁ c₂) {a v w : Int}
    (hvw : 0 ≤ a → a < 10000 → ¬ Hidden a → v = w) :
  Low (c₁.set a v) (c₂.set a w)
  := by
  constructor
  · apply h.instructions
  · apply h.kernelMode
  · apply h.halted
  · apply h.cout
  · apply h.cerr
  · rw [cell_set _ _ _ (by omega) (by omega), cell_set _ _ _ (by omega) (by omega), h.thread]
    split
    · rename_i h22
      apply hvw
      · omega
      · omega
      · rintro (h' | ⟨h', -⟩) <;> omega
    · rfl
  · intro b hb
    have hb' := hb
    obtain ⟨h₁, h₃, h₂⟩ := hb'
    rw [cell_set _ _ _ h₁ h₂, cell_set _ _ _ h₁ h₂, h.visible b hb]
    split
    · rename_i hab
      apply hvw
      · omega
      · omega
      · rintro (h' | ⟨h', h''⟩) <;> omega
    · rfl

theorem set (h : Low c₁ c₂) (a v : Int) :
  Low (c₁.set a v) (c₂.set a v)
  := h.set_hidden fun _ _ _ => rfl

theorem setAll (h : Low c₁ c₂) (stores : List (Int × Int)) :
  Low (c₁.setAll stores) (c₂.setAll stores)
  := by
  induction stores generalizing c₁ c₂ with
  | nil => apply h
  | cons store stores ih => apply ih (h.set store.1 store.2)

theorem halting (h : Low c₁ c₂) (message : List Output) :
  Low (c₁.halting message) (c₂.halting message)
  := ⟨h.instructions, h.kernelMode, rfl, h.cout, by simp only [CPU.halting, h.cerr],
    h.thread, h.visible⟩

theorem printing (h : Low c₁ c₂) (items : List Output) :
  Low (c₁.printing items) (c₂.printing items)
  := ⟨h.instructions, h.kernelMode, h.halted, by simp only [CPU.printing, h.cout], h.cerr,
    h.thread, h.visible⟩

theorem inMode (h : Low c₁ c₂) (k : Bool) :
  Low (c₁.inMode k) (c₂.inMode k)
  := ⟨h.instructions, rfl, h.halted, h.cout, h.cerr, h.thread, h.visible⟩

/-- Low equivalent states agree on the registers. -/
theorem register (h : Low c₁ c₂) {a : Int} (ha : 0 ≤ a) (ha' : a ≤ 20) :
  c₁.cell a = c₂.cell a
  := h.visible a ⟨ha, .inl ha', by omega⟩

theorem advance (h : Low c₁ c₂) (pc : Int) :
  Low (c₁.advance pc) (c₂.advance pc)
  := by
  have h' := h.set INSTR_COUNT (c₁.cell INSTR_COUNT + 1)
  simp only [CPU.advance, ← h.register (a := INSTR_COUNT) (by decide) (by decide),
    ← h'.register (a := PC) (by decide) (by decide)]
  split
  · apply h'.set
  · apply h'

theorem current (h : Low c₁ c₂) :
  c₁.current = c₂.current
  := by
  rw [CPU.current, CPU.current, h.instructions, h.register (by decide) (by decide)]

theorem inSegment_iff (h : Low c₁ c₂) :
  c₁.InSegment ↔ c₂.InSegment
  := by
  unfold InSegment
  rw [h.thread, h.register (a := 0) (by decide) (by decide)]

theorem countAddr (h : Low c₁ c₂) :
  c₁.countAddr = c₂.countAddr
  := by
  rw [CPU.countAddr, CPU.countAddr, h.thread]

theorem threadTable (h : Low c₁ c₂) :
  c₁.threadTable = c₂.threadTable
  := by
  rw [CPU.threadTable, CPU.threadTable, h.thread]

theorem prnHeader (h : Low c₁ c₂) :
  c₁.prnHeader = c₂.prnHeader
  := by
  rw [CPU.prnHeader, CPU.prnHeader, h.thread]

theorem bumped (h : Low c₁ c₂) :
  Low c₁.bumped c₂.bumped
  := by
  unfold CPU.bumped
  rw [if_congr h.inSegment_iff rfl rfl]
  split
  · rw [h.countAddr]
    apply h.set_hidden
    intro h₀ h₁ hn
    rw [h.cell h₀ h₁ hn]
  · apply h

theorem marked (h : Low c₁ c₂) :
  Low c₁.marked c₂.marked
  := by
  have h₁ := h.set (c₁.threadTable + 3) 2
  have h₂ := h₁.set (c₁.threadTable + 1) ((c₁.set (c₁.threadTable + 3) 2).cell 3)
  simp only [CPU.marked, ← h.threadTable, ← h₁.register (a := 3) (by decide) (by decide),
    ← h₂.register (a := PC) (by decide) (by decide)]
  apply h₂.set

end Low

/-! ### Results of actions -/

/-- Two actions end in the same way, in states that are low equivalent. -/
def LowResult : EStateM.Result Stop CPU Unit → EStateM.Result Stop CPU Unit → Prop
  | .ok _ c₁, .ok _ c₂ => Low c₁ c₂
  | .error stop₁ c₁, .error stop₂ c₂ => stop₁ = stop₂ ∧ Low c₁ c₂
  | _, _ => False

variable {c₁ c₂ : CPU}

theorem LowResult.finalState {r₁ r₂ : EStateM.Result Stop CPU Unit} (h : LowResult r₁ r₂) :
  Low (finalState r₁) (finalState r₂)
  := by
  cases r₁ <;> cases r₂
  · apply h
  · cases h
  · cases h
  · apply h.2

theorem LowResult.finish {r₁ r₂ : EStateM.Result Stop CPU Unit} (h : LowResult r₁ r₂) (pc : Int) :
  LowResult (finish pc r₁) (finish pc r₂)
  := by
  cases r₁ with
  | ok _ c₁ =>
      cases r₂ with
      | ok _ c₂ => apply Low.advance h
      | error stop c₂ => cases h
  | error stop c₁ =>
      cases r₂ with
      | ok _ c₂ => cases h
      | error stop' c₂ =>
          obtain ⟨rfl, hl⟩ := h
          cases stop with
          | exception what => apply hl.halting
          | undefined => exact ⟨rfl, hl⟩

theorem lowResult_effect (h : Low c₁ c₂) (e : Effect) :
  LowResult (e.result c₁) (e.result c₂)
  := by
  cases e with
  | throws what => exact ⟨rfl, h⟩
  | violation message => apply h.halting
  | writes stores => apply h.setAll

/-- In user mode an instruction other than `USER` and `SYSCALL` treats low equivalent
states alike. -/
theorem lowResult_plain (h : Low c₁ c₂) (hu : c₁.kernelMode = false) (instr : Instruction)
    (hp : Plain instr) :
  LowResult ((instructionHandlers instr.type instr).run c₁)
    ((instructionHandlers instr.type instr).run c₂)
  := by
  have hvalid : c₁.valid = c₂.valid := by
    funext a
    rw [valid, valid, h.kernelMode]
  have heff : effect c₁.valid c₁.cell instr = effect c₂.valid c₂.cell instr := by
    rw [← hvalid]
    apply effect_congr _ (valid_PC c₁) (valid_SP c₁)
    intro a ha
    apply h.visible
    apply (valid_iff_user hu a).mp ha
  rw [handler_run c₁ instr hp, handler_run c₂ instr hp, heff]
  apply lowResult_effect h

theorem lowResult_user (h : Low c₁ c₂) {a : Int} (ha : ¬ Hidden a) :
  Low (c₁.userResult a) (c₂.userResult a)
  := by
  unfold userResult
  by_cases hs : sizeT a < 10000
  · obtain ⟨h₀, h₁⟩ := sizeT_lt_iff.mp hs
    rw [if_pos hs, if_pos hs, ← h.cell h₀ h₁ ha]
    split
    · apply (h.inMode false).set
    · apply (h.inMode false).halting
  · rw [if_neg hs, if_neg hs]
    apply (h.inMode false).halting

/-! ### The print system call -/

/-- The cells that a `SYSCALL PRN` prints without disclosing what they contained: those
that are not hidden, and the two that it has just stored to. -/
def Printable (c : CPU) (a : Int) : Prop :=
  Hidden a → a = c.threadTable + 3 ∨ a = c.threadTable + 1

/-- After marking, the cell that is printed has the same contents. -/
theorem cell_marked_printable (h : Low c₁ c₂) {a : Int} (hs : sizeT a < 10000)
    (ha : c₁.Printable a) :
  c₁.marked.cell a = c₂.marked.cell a
  := by
  obtain ⟨h₀, h₁⟩ := sizeT_lt_iff.mp hs
  by_cases hh : Hidden a
  · have hn0 : a ≠ 0 := by
      unfold Hidden at hh
      omega
    have h3 : (c₁.set (c₁.threadTable + 3) 2).cell 3 = (c₂.set (c₁.threadTable + 3) 2).cell 3 :=
      (h.set _ _).register (by decide) (by decide)
    rw [cell_marked_of_ne c₁ h₀ h₁ hn0, cell_marked_of_ne c₂ h₀ h₁ hn0, ← h.threadTable]
    obtain h' | h' := ha hh
    · have hne : a ≠ c₁.threadTable + 1 := by omega
      rw [if_neg hne, if_neg hne, if_pos h', if_pos h']
    · rw [if_pos h', if_pos h', h3]
  · apply h.marked.cell h₀ h₁ hh

theorem lowResult_prn (h : Low c₁ c₂) (instr : Instruction)
    (ha : sizeT (c₁.threadTable + 3) < 10000 → sizeT (c₁.threadTable + 1) < 10000 →
      ∀ a, instr.operands[0]? = some a → c₁.Printable a) :
  LowResult (c₁.prnResult instr) (c₂.prnResult instr)
  := by
  unfold prnResult
  rw [← h.threadTable, ← h.prnHeader]
  split
  · exact ⟨rfl, h⟩
  · split
    · exact ⟨rfl, h.set _ _⟩
    · rename_i hstate hstart
      cases ho : instr.operands[0]? with
      | none => exact ⟨rfl, h.marked.printing _⟩
      | some a =>
          dsimp only
          split
          · exact ⟨rfl, (h.marked.printing _).printing _⟩
          · rename_i hs
            rw [← cell_marked_printable h (Int.not_le.mp hs)
              (ha (Int.not_le.mp hstate) (Int.not_le.mp hstart) a ho)]
            apply Low.inMode
            apply Low.printing
            apply (h.marked.printing _).printing

/-! ### A step in user mode -/

/-- The instruction at the program counter discloses a hidden cell. -/
def Leaks (c : CPU) : Prop :=
  c.halted = false ∧ (c.InSegment → sizeT c.countAddr < 10000) ∧
    ∃ instr, c.current = some instr ∧
      ((instr.type = .USER ∧ ∃ a, instr.operands = [a] ∧ Hidden a)
        ∨ (instr.type = .SYSCALL ∧ instr.syscallType = some .PRN
          ∧ sizeT (c.bumped.threadTable + 3) < 10000 ∧ sizeT (c.bumped.threadTable + 1) < 10000
          ∧ ∃ a, instr.operands[0]? = some a ∧ ¬ c.bumped.Printable a))

theorem lowResult_handler (h : Low c₁ c₂) (hu : c₁.kernelMode = false) (instr : Instruction)
    (huser : instr.type = .USER → ∀ a, instr.operands = [a] → ¬ Hidden a)
    (hprn : instr.type = .SYSCALL → instr.syscallType = some .PRN →
      sizeT (c₁.threadTable + 3) < 10000 → sizeT (c₁.threadTable + 1) < 10000 →
      ∀ a, instr.operands[0]? = some a → c₁.Printable a) :
  LowResult ((instructionHandlers instr.type instr).run c₁)
    ((instructionHandlers instr.type instr).run c₂)
  := by
  by_cases hp : Plain instr
  · apply lowResult_plain h hu instr hp
  · cases ht : instr.type with
    | HLT => exact ⟨h.instructions, h.kernelMode, rfl, h.cout, h.cerr, h.thread, h.visible⟩
    | USER =>
        by_cases hl : instr.operands.length = 1
        · obtain ⟨a, ha⟩ := List.length_eq_one_iff.mp hl
          simp only [instructionHandlers, executeUSER_one _ instr a ha]
          apply lowResult_user h (huser ht a ha)
        · simp only [instructionHandlers, executeUSER_other _ instr hl]
          apply h.inMode
    | SYSCALL =>
        have hpc : c₁.cell PC = c₂.cell PC := h.register (by decide) (by decide)
        simp only [instructionHandlers, executeSYSCALL_run, syscallResult, ← hpc]
        cases hst : instr.syscallType with
        | none => apply (h.inMode true).halting
        | some st =>
            cases st with
            | PRN => apply lowResult_prn (h.inMode true) instr (hprn ht hst)
            | HLT | YIELD => apply ((h.inMode true).set _ _).set
    | _ => exact absurd ⟨by simp [ht], by simp [ht], by simp [ht]⟩ hp

/-- A step in user mode that does not disclose a hidden cell treats low equivalent states
alike. -/
theorem lowResult_execute (h : Low c₁ c₂) (hu : c₁.kernelMode = false) (hl : ¬ c₁.Leaks) :
  LowResult (execute.run c₁) (execute.run c₂)
  := by
  by_cases hesc : c₁.InSegment ∧ 10000 ≤ sizeT c₁.countAddr
  · rw [execute_run_escape c₁ hesc.1 hesc.2,
      execute_run_escape c₂ (h.inSegment_iff.mp hesc.1) (h.countAddr ▸ hesc.2)]
    exact ⟨rfl, h⟩
  · have hs₁ : c₁.InSegment → sizeT c₁.countAddr < 10000 := by
      intro hs
      by_contra hlt
      apply hesc ⟨hs, Int.not_lt.mp hlt⟩
    have hs₂ : c₂.InSegment → sizeT c₂.countAddr < 10000 := by
      rw [← h.inSegment_iff, ← h.countAddr]
      apply hs₁
    have hpc : c₁.cell PC = c₂.cell PC := h.register (by decide) (by decide)
    rw [execute_run c₁ hs₁, execute_run c₂ hs₂, dispatch_run, dispatch_run, bumped_halted,
      bumped_halted, ← h.halted, bumped_instructions, bumped_instructions, ← h.instructions, ← hpc]
    cases hh : c₁.halted with
    | true => apply h.bumped
    | false =>
        simp only [Bool.false_eq_true, if_false]
        cases hi : c₁.instructions (sizeT (c₁.cell PC)) with
        | none => apply h.bumped.halting
        | some instr =>
            apply LowResult.finish
            apply lowResult_handler h.bumped
            · rw [bumped_kernelMode, hu]
            · intro ht a ha hhid
              apply hl ⟨hh, hs₁, instr, hi, .inl ⟨ht, a, ha, hhid⟩⟩
            · intro ht hst h₁ h₂ a ha
              by_contra hn
              apply hl ⟨hh, hs₁, instr, hi, .inr ⟨ht, hst, h₁, h₂, a, ha, hn⟩⟩

/-! ### Disclosure -/

/-- The state after `execute`, however it ends. -/
def after (c : CPU) : CPU := finalState (execute.run c)

/-- Two states look alike to a user-mode program and on the consoles. -/
def Alike (c₁ c₂ : CPU) : Prop :=
  (∀ a, Visible a → c₁.cell a = c₂.cell a) ∧ c₁.cout = c₂.cout ∧ c₁.cerr = c₂.cerr

theorem Low.alike (h : Low c₁ c₂) :
  Alike c₁ c₂
  := ⟨h.visible, h.cout, h.cerr⟩

theorem Hidden.bounds {a : Int} (h : Hidden a) :
  21 ≤ a ∧ a ≤ 999 ∧ a ≠ 22
  := by
  unfold Hidden at h
  omega

/-- The contents of a hidden cell cannot be seen. -/
theorem low_set_hidden (c : CPU) {a : Int} (v : Int) (h : Hidden a) :
  Low c (c.set a v)
  := by
  obtain ⟨h₁, h₂, h₃⟩ := h.bounds
  constructor
  · rfl
  · rfl
  · rfl
  · rfl
  · rfl
  · rw [cell_set _ _ _ (by omega) (by omega), if_neg h₃.symm]
  · rintro b ⟨hb, hb', hb''⟩
    rw [cell_set _ _ _ hb hb'', if_neg (by omega)]

/-- The update of the counter adds the same amount, whatever a hidden cell contains. -/
theorem cell_bumped_set_hidden (c : CPU) {a : Int} (h : Hidden a) :
  ∃ δ, 0 ≤ δ ∧ δ ≤ 1 ∧ ∀ v, (c.set a v).bumped.cell a = v + δ
  := by
  obtain ⟨h₁, h₂, -⟩ := h.bounds
  have hb : ∀ v, (c.set a v).bumped.cell a
      = if c.InSegment ∧ a = c.countAddr then v + 1 else v := by
    intro v
    rw [cell_bumped _ (by omega) (by omega), cell_set_self]
    apply if_congr _ rfl rfl
    rw [← (low_set_hidden c v h).inSegment_iff, ← (low_set_hidden c v h).countAddr]
  by_cases hc : c.InSegment ∧ a = c.countAddr
  · use 1, by omega, by omega
    intro v
    rw [hb, if_pos hc]
  · use 0, by omega, by omega
    intro v
    rw [hb, if_neg hc]
    omega

/-- A `USER` through a hidden cell moves its contents into the program counter. -/
theorem after_user {c : CPU} {instr : Instruction} {a : Int}
    (hh : c.halted = false) (hs : c.InSegment → sizeT c.countAddr < 10000)
    (hi : c.current = some instr) (ht : instr.type = .USER) (ho : instr.operands = [a])
    (ha : Hidden a) (hw : 1000 ≤ c.bumped.cell a) (hw' : c.bumped.cell a < 10000) :
  c.bumped.cell a ≤ c.after.cell 0 ∧ c.after.cell 0 ≤ c.bumped.cell a + 1
  := by
  obtain ⟨h₁, h₂, -⟩ := ha.bounds
  have hsize : sizeT a < 10000 := sizeT_lt_iff.mpr ⟨by omega, by omega⟩
  have hjump : Memory.isAddressValid (sizeT (c.bumped.cell a)) false = true :=
    isAddressValid_user.mpr ⟨by omega, .inr hw, hw'⟩
  have hrun : (instructionHandlers instr.type instr).run c.bumped
      = .ok () ((c.bumped.inMode false).set PC (c.bumped.cell a)) := by
    simp only [ht, instructionHandlers, executeUSER_one _ instr a ho, userResult, if_pos hsize,
      if_pos hjump]
  have hafter : c.after.cell 0
      = if c.cell PC = c.bumped.cell a then c.cell PC + 1 else c.bumped.cell a := by
    rw [after, step_of_current hs hh hi, hrun]
    apply (cell_PC_advance _ _).trans
    rw [cell_set_self]
  rw [hafter]
  split <;> omega

/-- A `SYSCALL PRN` of a hidden cell prints its contents. -/
theorem after_prn {c : CPU} {instr : Instruction} {a : Int}
    (hh : c.halted = false) (hs : c.InSegment → sizeT c.countAddr < 10000)
    (hi : c.current = some instr) (ht : instr.type = .SYSCALL)
    (hst : instr.syscallType = some .PRN) (hstate : sizeT (c.bumped.threadTable + 3) < 10000)
    (hstart : sizeT (c.bumped.threadTable + 1) < 10000) (ho : instr.operands[0]? = some a)
    (ha : ¬ c.bumped.Printable a) :
  c.after.cout = c.cout ++ c.bumped.prnHeader ++ [.number a, .text " :"]
    ++ [.number (c.bumped.cell a), endl]
  := by
  obtain ⟨hhid, hne⟩ := Classical.not_imp.mp ha
  rw [not_or] at hne
  obtain ⟨h₁, h₂, -⟩ := hhid.bounds
  have hsize : sizeT a < 10000 := sizeT_lt_iff.mpr ⟨by omega, by omega⟩
  have hcell : (c.bumped.inMode true).marked.cell a = c.bumped.cell a := by
    apply (cell_marked_of_ne _ (by omega) (by omega) (by omega)).trans
    exact (if_neg hne.2).trans (if_neg hne.1)
  have hrun : (instructionHandlers instr.type instr).run c.bumped
      = .ok () (((((c.bumped.inMode true).marked.printing c.bumped.prnHeader).printing
          [.number a, .text " :"]).printing [.number (c.bumped.cell a), endl]).inMode false) := by
    have htable : (c.bumped.inMode true).threadTable = c.bumped.threadTable := rfl
    simp only [ht, instructionHandlers, executeSYSCALL_run, syscallResult, hst, prnResult, ho,
      htable]
    rw [if_neg (Int.not_le.mpr hstate), if_neg (Int.not_le.mpr hstart),
      if_neg (Int.not_le.mpr hsize), hcell]
    rfl
  rw [after, step_of_current hs hh hi, hrun]
  apply (advance_fields _ _).2.2.2.1.trans
  simp only [inMode, printing]
  have hm : (c.bumped.inMode true).marked.cout = c.cout := bumped_cout c
  rw [← hm]
  rfl

/-- The instruction and its circumstances are not affected by what a hidden cell
contains. -/
theorem discloses {c : CPU} (h : c.Leaks) :
  ∃ c₁ c₂, Low c c₁ ∧ Low c c₂ ∧ ¬ Alike c₁.after c₂.after
  := by
  obtain ⟨hh, hs, instr, hi, ⟨ht, a, ho, ha⟩ | ⟨ht, hst, hstate, hstart, a, ho, ha⟩⟩ := h
  · -- two targets that remain apart when the counter and the program counter are advanced
    obtain ⟨δ, hδ, hδ', hcell⟩ := c.cell_bumped_set_hidden ha
    use c.set a 1000, c.set a 2000, low_set_hidden c _ ha, low_set_hidden c _ ha
    rintro ⟨hvis, -, -⟩
    have hu : ∀ v, 1000 ≤ v → v ≤ 2000 →
        v ≤ (c.set a v).after.cell 0 ∧ (c.set a v).after.cell 0 ≤ v + 2 := by
      intro v hv hv'
      have hlow := low_set_hidden c v ha
      obtain ⟨hl, hr⟩ := after_user (c := c.set a v) hh
        (by rw [← hlow.inSegment_iff, ← hlow.countAddr]; exact hs)
        (by rw [← hlow.current]; exact hi) ht ho ha (by rw [hcell]; omega) (by rw [hcell]; omega)
      rw [hcell] at hl hr
      omega
    have h₁ := hu 1000 (by omega) (by omega)
    have h₂ := hu 2000 (by omega) (by omega)
    have h₀ := hvis 0 ⟨by omega, by omega, by omega⟩
    omega
  · have hhid := (Classical.not_imp.mp ha).1
    obtain ⟨δ, -, -, hcell⟩ := c.cell_bumped_set_hidden hhid
    use c.set a 0, c.set a 1, low_set_hidden c _ hhid, low_set_hidden c _ hhid
    rintro ⟨-, hcout, -⟩
    have hp : ∀ v, (c.set a v).after.cout = c.cout ++ c.bumped.prnHeader
        ++ [.number a, .text " :"] ++ [.number (v + δ), endl] := by
      intro v
      have hlow := low_set_hidden c v hhid
      have hpr : ¬ (c.set a v).bumped.Printable a := by
        rw [Printable, ← hlow.bumped.threadTable]
        exact ha
      rw [after_prn (c := c.set a v) hh
        (by rw [← hlow.inSegment_iff, ← hlow.countAddr]; exact hs)
        (by rw [← hlow.current]; exact hi) ht hst
        (by rw [← hlow.bumped.threadTable]; exact hstate)
        (by rw [← hlow.bumped.threadTable]; exact hstart) ho hpr, hcell, hlow.bumped.prnHeader]
      rfl
    rw [hp, hp, List.append_cancel_left_eq] at hcout
    injection hcout with hnum
    injection hnum with hnum
    omega

/-- A step in user mode keeps the contents of the hidden cells from the program and from
the consoles exactly when its instruction does not disclose one. -/
theorem confidential_iff {c : CPU} (hu : c.kernelMode = false) :
  (∀ c₁ c₂, Low c c₁ → Low c c₂ → Alike c₁.after c₂.after) ↔ ¬ c.Leaks
  := by
  constructor
  · intro h hl
    obtain ⟨c₁, c₂, h₁, h₂, hne⟩ := discloses hl
    apply hne (h c₁ c₂ h₁ h₂)
  · intro hl c₁ c₂ h₁ h₂
    apply Low.alike
    apply (lowResult_execute h₁ hu hl).finalState.symm.trans
    apply (lowResult_execute h₂ hu hl).finalState

/-- Thread 1 in user mode, about to print the cell at the given address. -/
def disclosing (a : Int) : CPU :=
  { ((new.set 0 1000).set 22 1).inMode false with
    instructions := fun b => if b = 1000 then some (.syscall .PRN [a]) else none }

theorem confidential_iff_disclosing :
  ((∀ c₁ c₂, Low (disclosing 21) c₁ → Low (disclosing 21) c₂ → Alike c₁.after c₂.after)
    ↔ ¬ (disclosing 21).Leaks) ∧ (disclosing 21).Leaks
  := by
  constructor
  · apply confidential_iff rfl
  · use rfl, fun _ => by decide, .syscall .PRN [21], rfl
    right
    use rfl, rfl, by decide, by decide, 21, rfl
    intro h
    obtain h | h := h (.inl rfl)
    · exact absurd h (by decide)
    · exact absurd h (by decide)

/-- The number of threads goes to the console. -/
theorem prints_hidden_cell :
  ¬ ∀ c₁ c₂ : CPU, c₁.kernelMode = false → Low c₁ c₂ → Alike c₁.after c₂.after
  := by
  intro h
  obtain ⟨-, hcout, -⟩ := h (disclosing 21) ((disclosing 21).set 21 10) rfl
    (low_set_hidden _ _ (.inl rfl))
  exact absurd hcout (by decide)

end CPU

end Simulator
