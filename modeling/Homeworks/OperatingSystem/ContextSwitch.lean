import Homeworks.OperatingSystem.Scheduling

/-!
# Leaving and resuming a thread

`SYSCALL YIELD` and `SYSCALL HLT` enter the kernel, and `USER` at the end of the context
switch leaves it.  A thread that yields is resumed behind the system call, with the stack
pointer it had.
-/

open Simulator StateTransition Transition

namespace OperatingSystem

/-- The addresses that may be accessed in user mode. -/
def UserAddress (a : Int) : Prop := 0 ≤ a ∧ (a ≤ 20 ∨ 1000 ≤ a) ∧ a < 10000

/-- The cells of the entry of a thread. -/
def InEntry (j a : Int) : Prop := 500 + 10 * j ≤ a ∧ a ≤ 509 + 10 * j

variable {T S : Int → Prop} {c₀ c d : CPU} {k : Kernel} {instr : Instruction} {j : Int}

/-! ### Entering the kernel -/

/-- The address of the handler of a system call. -/
def handler : SyscallType → Int
  | .HLT => 430
  | _ => 400

/-- The handler of a system call of `c` is entered at `c'`. -/
structure Entered (target : Int) (c c' : CPU) : Prop where
  step : c.step = some c'
  kernelMode : c'.kernelMode = true
  halted : c'.halted = false
  instructions : c'.instructions = c.instructions
  cout : c'.cout = c.cout
  pc : c'.cell 0 = target
  saved : c'.cell 4 = c.cell 0 + 1
  cell : ∀ a, 0 ≤ a → a < 10000 → a ≠ 0 → a ≠ 3 → a ≠ 4 → c'.cell a = c.bumped.cell a

theorem entered_of_syscall (hs : c.InSegment → sizeT c.countAddr < 10000) (hh : c.halted = false)
    (hi : c.current = some instr) (ht : instr.type = .SYSCALL) {st : SyscallType}
    (hst : instr.syscallType = some st) (hne : st ≠ .PRN) (hpc : c.cell 0 ≠ handler st) :
  ∃ c', Entered (handler st) c c'
  := by
  have hrun : (CPU.instructionHandlers instr.type instr).run c.bumped
      = .ok () (((c.bumped.inMode true).set 4 (c.cell 0 + 1)).set 0 (handler st)) := by
    have hbpc : c.bumped.cell CPU.PC = c.cell 0 := c.cell_bumped_PC
    simp only [ht, CPU.instructionHandlers, CPU.executeSYSCALL_run, CPU.syscallResult, hst, hbpc]
    cases st with
    | PRN => exact absurd rfl hne
    | HLT | YIELD => rfl
  obtain ⟨hk, hh', hi', ho, -⟩ := CPU.advance_fields
    (((c.bumped.inMode true).set 4 (c.cell 0 + 1)).set 0 (handler st)) (c.cell CPU.PC)
  use (((c.bumped.inMode true).set 4 (c.cell 0 + 1)).set 0 (handler st)).advance (c.cell CPU.PC)
  constructor
  · rw [CPU.step, CPU.step_of_current hs hh hi, hrun]
    rfl
  · rw [hk]
    rfl
  · rw [hh']
    exact (c.bumped_halted).trans hh
  · rw [hi']
    exact c.bumped_instructions
  · rw [ho]
    exact c.bumped_cout
  · apply (CPU.cell_PC_advance _ _).trans
    rw [show CPU.PC = 0 from rfl, CPU.cell_set_self, if_neg hpc]
  · rw [CPU.cell_advance _ _ (by decide) (by decide) (by decide) (by decide),
      CPU.cell_set _ _ _ (by decide) (by decide), if_neg (by decide), CPU.cell_set_self]
  · intro a ha ha' h0 h3 h4
    rw [CPU.cell_advance _ _ ha ha' h0 h3, CPU.cell_set _ _ _ ha ha', if_neg h0,
      CPU.cell_set _ _ _ ha ha', if_neg h4, CPU.cell_inMode]

/-- A thread of the table counts within its own entry. -/
theorem countAddr_bounds (h₁ : 1 ≤ c.cell 22) (h₂ : c.cell 22 ≤ 10) :
  sizeT c.countAddr < 10000 ∧ c.countAddr = 502 + 10 * c.cell 22
  := by
  have hc : c.countAddr = 502 + 10 * c.cell 22 := by
    unfold CPU.countAddr
    ring
  rw [hc]
  exact ⟨sizeT_lt_iff.mpr ⟨by omega, by omega⟩, rfl⟩

theorem cell_bumped_of_ne {a : Int} (ha : 0 ≤ a) (ha' : a < 10000)
    (hne : a ≠ 502 + 10 * c.cell 22) :
  c.bumped.cell a = c.cell a
  := by
  rw [CPU.cell_bumped c ha ha', if_neg]
  rintro ⟨-, hc⟩
  unfold CPU.countAddr at hc
  omega

/-! ### Leaving the kernel -/

/-- The kernel at the state `k` of `d` gives the CPU to a thread at `f`. -/
structure Resumed (d : CPU) (k : Kernel) (f : CPU) : Prop where
  step : d.step = some f
  kernelMode : f.kernelMode = false
  halted : f.halted = false
  instructions : f.instructions = d.instructions
  cout : f.cout = d.cout
  pc : f.cell 0 = k.mem 19
  cell : ∀ a, Cell a → f.cell a = k.mem a
  count : d.cell 22 ≠ 0 → f.cell 502 = d.cell 502

theorem Runs.userResult (hl : Loaded c₀) (h : Runs c₀ d k) (hpc : k.pc = 796) :
  CPU.execute.run d = CPU.finish 796 (.ok () (d.bumped.userResult 19))
  := by
  have hcode : kernelCode k.pc = some (.of .USER [19]) := by
    rw [hpc]
    rfl
  rw [h.execute hl hcode, hpc, Instruction.of]
  simp only [CPU.instructionHandlers]
  rw [CPU.executeUSER_one _ _ 19 rfl]

theorem Runs.resumed (hl : Loaded c₀) (h : Runs c₀ d k) (hpc : k.pc = 796)
    (hjump : UserAddress (k.mem 19)) :
  ∃ f, Resumed d k f
  := by
  have hb := h.bumped (by omega) (by omega)
  have h19 : d.bumped.cell 19 = k.mem 19 := hb.cell_mem (by decide)
  have hres : d.bumped.userResult 19 = (d.bumped.inMode false).set CPU.PC (k.mem 19) := by
    rw [CPU.userResult, if_pos (by decide), h19, if_pos (isAddressValid_user.mpr hjump)]
  have hne : (796 : Int) ≠ k.mem 19 := by
    unfold UserAddress at hjump
    omega
  obtain ⟨hk, hh, hi, ho, -⟩ :=
    CPU.advance_fields ((d.bumped.inMode false).set CPU.PC (k.mem 19)) 796
  use ((d.bumped.inMode false).set CPU.PC (k.mem 19)).advance 796
  constructor
  · rw [CPU.step, h.userResult hl hpc, hres]
    rfl
  · rw [hk]
    rfl
  · rw [hh]
    apply hb.halted
  · rw [hi]
    exact d.bumped_instructions
  · rw [ho]
    exact d.bumped_cout
  · apply (CPU.cell_PC_advance _ _).trans
    rw [CPU.cell_set_self, if_neg hne]
  · rintro a ⟨h₁, h₂, h₃, h₄⟩
    rw [CPU.cell_advance _ _ (by omega) h₂ (by omega) h₃, CPU.cell_set _ _ _ (by omega) h₂,
      if_neg (by change a ≠ 0; omega), CPU.cell_inMode, hb.mem h₁ h₂ h₃ h₄]
  · intro h22
    rw [CPU.cell_advance _ _ (by decide) (by decide) (by decide) (by decide),
      CPU.cell_set _ _ _ (by decide) (by decide), if_neg (by decide), CPU.cell_inMode,
      cell_bumped_of_ne (by decide) (by decide) (by omega)]

/-! ### Saving and resuming -/

/-- An arrival of the kernel, with the count of the operating system as it was. -/
theorem Runs.arrives {P : Kernel → Prop} (hl : Loaded c₀) (h : Runs c₀ c k)
    (hk : Leads Kernel.step (Quiet T S) P k) :
  ∃ d k', Reaches CPU.step c d ∧ Runs c₀ d k' ∧ P k' ∧ (0 < c.cell 22 → d.cell 502 = c.cell 502)
  := by
  have hstable := (h.leads hl hk).stable
    (I := fun d => 0 < c.cell 22 → 0 < d.cell 22 ∧ d.cell 502 = c.cell 502)
    (by
      intro s t hs _ hst hpos
      obtain ⟨h22, h502⟩ := hs hpos
      obtain ⟨h22', h502'⟩ := hst.count h22
      exact ⟨h22', h502'.trans h502⟩)
    (fun hpos => ⟨hpos, rfl⟩)
  obtain ⟨d, hreach, ⟨k', hr, hP⟩, hI⟩ := hstable.reaches
  exact ⟨d, k', hreach, hr, hP, fun hpos => (hI hpos).2⟩

/-- The handler of `SYSCALL YIELD` takes `c` to the entrance of the scheduler at `d`. -/
theorem Entered.yields (hl : Loaded c) {c' : CPU} (h : Entered 400 c c') (h22 : 1 ≤ c'.cell 22)
    (h22' : c'.cell 22 ≤ 10) (h24 : c'.cell 24 = 0) :
  ∃ d, Reaches CPU.step c d ∧ AtScheduler d ∧ d.instructions = c.instructions
    ∧ (∃ m, Saved c'.cell m ∧ ∀ a, Cell a → d.cell a = m a) ∧ d.cell 502 = c'.cell 502
  := by
  have hl' : Loaded c' := by
    intro a instr hcode
    rw [h.instructions, hl a instr hcode]
  have hr := runs_ofCPU h.kernelMode h.halted
  rw [Kernel.ofCPU, h.pc] at hr
  have hlead : Leads Kernel.step (Quiet AnyThread NoThread)
      (fun k => k.pc = 700 ∧ Saved c'.cell k.mem) ⟨400, c'.cell 3, c'.cell⟩ := by
    apply Kernel.save (by omega) h22' h24
    intro t' m' _ hm'
    exact Leads.here ⟨rfl, hm'⟩
  obtain ⟨d, k, hreach, hrd, ⟨hpc, hsaved⟩, h502⟩ := hr.arrives hl' hlead
  refine ⟨d, Reaches.head h.step hreach, ⟨hrd.kernelMode, hrd.halted, ?_⟩, ?_, ?_, ?_⟩
  · rw [hrd.pc, hpc]
  · rw [hrd.instructions, h.instructions]
  · use k.mem, hsaved
    intro a ha
    apply hrd.cell_mem ha
  · apply h502 (by omega)

/-- The CPU is at the start of the context switch to the thread `j`. -/
structure AtSwitch (j : Int) (e : CPU) : Prop where
  kernelMode : e.kernelMode = true
  halted : e.halted = false
  pc : e.cell 0 = 780
  cursor : e.cell 23 = j
  base : e.cell 53 = 500 + 10 * j

/-- The context switch resumes a thread whose saved program counter is a user address. -/
theorem AtSwitch.resumed (hl : Loaded c) (h : AtSwitch j c) (hj : 1 ≤ j) (hj' : j ≤ 10)
    (hpc : UserAddress (c.cell (pcCell j))) :
  ∃ f m, Reaches CPU.step c f ∧ f.kernelMode = false ∧ f.halted = false
    ∧ f.cell 0 = c.cell (pcCell j) ∧ Kernel.Switched j c.cell m ∧ (∀ a, Cell a → f.cell a = m a)
    ∧ (0 < c.cell 22 → f.cell 502 = c.cell 502)
  := by
  have hr := runs_ofCPU h.kernelMode h.halted
  rw [Kernel.ofCPU, h.pc] at hr
  have hlead : Leads Kernel.step (Quiet NoThread NoThread)
      (fun k => k.pc = 796 ∧ Kernel.Switched j c.cell k.mem) ⟨780, c.cell 3, c.cell⟩ := by
    apply Kernel.switch h.cursor hj hj' h.base (fun hT => absurd hT id) id
    intro t' m' _ hm'
    exact Leads.here ⟨rfl, hm'⟩
  obtain ⟨d, k, hreach, hrd, ⟨hpc', hsw⟩, h502⟩ := hr.arrives hl hlead
  obtain ⟨f, hf⟩ := hrd.resumed hl hpc' (hsw.pc ▸ hpc)
  have h22 : d.cell 22 ≠ 0 := by
    rw [hrd.cell_mem (by decide), hsw.running]
    omega
  refine ⟨f, k.mem, ?_, hf.kernelMode, hf.halted, ?_, hsw, hf.cell, ?_⟩
  · apply hreach.trans (Reaches.head hf.step Relation.ReflTransGen.refl)
  · rw [hf.pc, hsw.pc]
  · intro hpos
    rw [hf.count h22, h502 hpos]

theorem cell_of_inEntry {a : Int} (hj : 0 ≤ j) (hj' : j ≤ 10) (h : InEntry j a) (hne : a ≠ 502) :
  Cell a
  := by
  unfold InEntry at h
  unfold Cell
  omega

/-- A thread that yields is saved in its entry, and resumed from it where it left off. -/
theorem yield_round_trip {n : Int} (hl : Loaded c) (hh : c.halted = false)
    (hi : c.current = some instr) (ht : instr.type = .SYSCALL)
    (hst : instr.syscallType = some .YIELD) (hp : UserAddress (c.cell 0 + 1))
    (h22 : c.cell 22 = n) (hn : 1 ≤ n) (hn' : n ≤ 9) (h24 : c.cell 24 = 0) :
  ∃ d, Reaches CPU.step c d ∧ AtScheduler d
    ∧ d.cell (pcCell n) = c.cell 0 + 1 ∧ d.cell (spCell n) = c.cell 1
    ∧ d.cell (stateCell n) = (if 2 ≤ c.cell (stateCell n) then c.cell (stateCell n) else 0)
    ∧ (∀ j a, 0 ≤ j → j ≤ 10 → j ≠ n → InEntry j a → d.cell a = c.cell a)
    ∧ (∀ a, 1000 ≤ a → a < 10000 → d.cell a = c.cell a)
    ∧ ∀ e, Loaded e → AtSwitch n e → (∀ a, InEntry n a → e.cell a = d.cell a) →
      ∃ f, Reaches CPU.step e f ∧ f.kernelMode = false ∧ f.halted = false
        ∧ f.cell 0 = c.cell 0 + 1 ∧ f.cell 1 = c.cell 1 ∧ f.cell (stateCell n) = 1
        ∧ ∀ j a, 0 ≤ j → j ≤ 10 → j ≠ n → (j = 0 → 0 < e.cell 22) → InEntry j a →
          f.cell a = e.cell a
  := by
  obtain ⟨hcount, -⟩ := countAddr_bounds (c := c) (by omega) (by omega)
  have hpc : c.cell 0 ≠ handler .YIELD := by
    change c.cell 0 ≠ 400
    unfold UserAddress at hp
    omega
  obtain ⟨c', hc'⟩ := entered_of_syscall (fun _ => hcount) hh hi ht hst (by decide) hpc
  have hcell : ∀ a, 0 < a → a < 10000 → a ≠ 3 → a ≠ 4 → a ≠ 502 + 10 * n →
      c'.cell a = c.cell a := by
    intro a h₁ h₂ h₃ h₄ h₅
    rw [hc'.cell a (by omega) h₂ (by omega) h₃ h₄, cell_bumped_of_ne (by omega) h₂ (by omega)]
  have hlow : ∀ a, 0 < a → a < 500 → a ≠ 3 → a ≠ 4 → c'.cell a = c.cell a := by
    intro a h₁ h₂ h₃ h₄
    apply hcell a h₁ (by omega) h₃ h₄ (by omega)
  have h22' : c'.cell 22 = n := by rw [hlow 22 (by omega) (by omega) (by omega) (by omega), h22]
  have h24' : c'.cell 24 = 0 := by rw [hlow 24 (by omega) (by omega) (by omega) (by omega), h24]
  obtain ⟨d, hreach, hd, hinstr, ⟨m, hsaved, hm⟩, h502⟩ :=
    hc'.yields hl (by omega) (by omega) h24'
  have hpcCell := cell_pcCell (k := n) (by omega) (by omega)
  have hspCell := cell_spCell (k := n) (by omega) (by omega)
  have hstCell := cell_stateCell (k := n) (by omega) (by omega)
  have hdpc : d.cell (pcCell n) = c.cell 0 + 1 := by
    rw [hm _ hpcCell, ← h22', hsaved.pc, hc'.saved]
  have hdsp : d.cell (spCell n) = c.cell 1 := by
    rw [hm _ hspCell, ← h22', hsaved.sp, hlow 1 (by omega) (by omega) (by omega) (by omega)]
  have hentry : ∀ a, InEntry n a ↔ 500 + 10 * n ≤ a ∧ a ≤ 509 + 10 * n := fun a => Iff.rfl
  have hframe : ∀ a, Cell a → a < 50 ∨ 61 < a → a ≠ 4 → ¬ InEntry n a → d.cell a = c.cell a := by
    intro a ha hs h4 hna
    rw [hentry] at hna
    obtain ⟨h₁, h₂, h₃, -⟩ := id ha
    rw [hm a ha, hsaved.frame a hs (by unfold stateCell; omega) (by unfold pcCell; omega)
      (by unfold spCell; omega), hcell a h₁ h₂ h₃ h4 (by omega)]
  refine ⟨d, hreach, hd, hdpc, hdsp, ?_, ?_, ?_, ?_⟩
  · have hst' : c'.cell (stateCell n) = c.cell (stateCell n) := by
      unfold stateCell
      apply hcell <;> omega
    rw [hm _ hstCell, ← h22', hsaved.state, h22', hst']
  · intro j a hj hj' hne ha
    by_cases h0 : a = 502
    · rw [h0, h502, hcell 502 (by omega) (by omega) (by omega) (by omega) (by omega)]
    · apply hframe a (cell_of_inEntry hj hj' ha h0)
      · unfold InEntry at ha
        omega
      · unfold InEntry at ha
        omega
      · unfold InEntry at *
        omega
  · intro a ha ha'
    apply hframe a ⟨by omega, ha', by omega, by omega⟩ (by omega) (by omega)
    unfold InEntry
    omega
  · intro e hle he hsame
    have hepc : e.cell (pcCell n) = c.cell 0 + 1 := by
      rw [hsame _ (by unfold InEntry pcCell; omega), hdpc]
    obtain ⟨f, m', hreach', hmode, hhalt, hfpc, hsw, hf, hf502⟩ :=
      he.resumed hle (by omega) (by omega) (hepc ▸ hp)
    refine ⟨f, hreach', hmode, hhalt, hfpc.trans hepc, ?_, ?_, ?_⟩
    · rw [hf 1 (by decide), hsw.sp, hsame _ (by unfold InEntry spCell; omega), hdsp]
    · rw [hf _ hstCell, hsw.state]
    · intro j a hj hj' hne h0 ha
      by_cases h502' : a = 502
      · rw [h502']
        apply hf502
        apply h0
        unfold InEntry at ha
        omega
      · have hac := cell_of_inEntry hj hj' ha h502'
        unfold InEntry at ha
        rw [hf a hac, hsw.frame a (by omega) (by omega) (by omega) (by omega) (by omega)
          (by unfold stateCell; omega) (by unfold startCell; omega)]

/-- Thread 1 in user mode, about to yield. -/
def yielding : CPU :=
  { ((CPU.new.set 0 1000).set 22 1).inMode false with
    instructions := fun a => if a = 1000 then some (.syscall .YIELD []) else kernelCode a }

theorem yield_round_trip_yielding :
  ∃ d, Reaches CPU.step yielding d ∧ AtScheduler d ∧ d.cell (pcCell 1) = 1001
  := by
  have hl : Loaded yielding := by
    intro a instr hcode
    obtain ⟨-, h⟩ := kernelCode_bounds hcode
    exact (if_neg (by omega)).trans hcode
  obtain ⟨d, hreach, hd, hpc, -⟩ := yield_round_trip hl rfl
    (show yielding.current = some (.syscall .YIELD []) from rfl) rfl rfl
    (show UserAddress 1001 by unfold UserAddress; omega) (show yielding.cell 22 = 1 from rfl)
    (by decide) (by decide) rfl
  exact ⟨d, hreach, hd, hpc⟩

end OperatingSystem
