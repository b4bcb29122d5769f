import Homeworks.OperatingSystem.ThreadTable

/-!
# The rounds of a system

A system passes through checkpoints: the entrance of the scheduler, the end of the context
switch, the steps of a thread, and its end.  From each of them the run leads to the next,
with the thread table consistent and the contexts of the threads that are not running kept.
-/

open Simulator StateTransition Transition

namespace OperatingSystem

variable {s : System} {c c' d : CPU}

/-- Where the cells of an entry lie. -/
theorem entry_cells (j : Int) :
  stateCell j = 503 + 10 * j ∧ startCell j = 501 + 10 * j ∧ pcCell j = 504 + 10 * j
    ∧ spCell j = 505 + 10 * j ∧ ∀ a, InEntry j a ↔ 500 + 10 * j ≤ a ∧ a ≤ 509 + 10 * j
  := ⟨rfl, rfl, rfl, rfl, fun _ => Iff.rfl⟩

/-! ### Checkpoints -/

/-- The scheduler is entered. -/
structure AtEntrance (s : System) (c : CPU) : Prop extends AtScheduler c where
  instructions : c.instructions = s.instructionMap
  table : Suspended s.threads c.cell

/-- The context switch is at its end. -/
structure AtSwitched (s : System) (c : CPU) : Prop where
  kernelMode : c.kernelMode = true
  halted : c.halted = false
  pc : c.cell 0 = 796
  instructions : c.instructions = s.instructionMap
  table : Running s.threads c.cell
  state : c.cell (stateCell (c.cell 22)) = 1
  saved : c.cell 19 = c.cell (pcCell (c.cell 22)) ∧ c.cell 1 = c.cell (spCell (c.cell 22))

/-- The CPU is in user mode. -/
structure InThread (s : System) (c : CPU) : Prop where
  kernelMode : c.kernelMode = false
  instructions : c.instructions = s.instructionMap
  table : Running s.threads c.cell

/-- The kernel is about to halt the CPU. -/
structure AtEnd (s : System) (c : CPU) : Prop where
  kernelMode : c.kernelMode = true
  halted : c.halted = false
  pc : c.cell 0 = 449
  instructions : c.instructions = s.instructionMap
  thread : 1 ≤ c.cell 22 ∧ c.cell 22 ≤ s.threads
  terminated : ∀ j, 1 ≤ j → j ≤ s.threads → c.cell (stateCell j) = 3

/-- The CPU is halted in kernel mode. -/
structure Over (s : System) (c : CPU) : Prop where
  kernelMode : c.kernelMode = true
  halted : c.halted = true
  pc : c.cell 0 ≠ 700 ∧ c.cell 0 ≠ 796
  thread : 1 ≤ c.cell 22 ∧ c.cell 22 ≤ s.threads

/-- The contexts of the threads in `X` and the contents of user space are the same at `c`
and at `d`. -/
structure Kept (s : System) (X : Int → Prop) (c d : CPU) : Prop where
  registers : ∀ j, 1 ≤ j → j ≤ s.threads → X j →
    d.cell (pcCell j) = c.cell (pcCell j) ∧ d.cell (spCell j) = c.cell (spCell j)
  terminated : ∀ j, 1 ≤ j → j ≤ s.threads → X j →
    (d.cell (stateCell j) = 3 ↔ c.cell (stateCell j) = 3)
  user : ∀ a, 1000 ≤ a → a < 10000 → d.cell a = c.cell a

/-- Contexts are kept where only the entry of a thread is stored to. -/
theorem kept_of_frame {X : Int → Prop} (k : Int) (hs : s.threads ≤ 9)
    (h : ∀ a, 510 ≤ a → a < 10000 → ¬ InEntry k a → d.cell a = c.cell a)
    (huser : ∀ a, 1000 ≤ a → a < 10000 → d.cell a = c.cell a)
    (hk : X k → d.cell (pcCell k) = c.cell (pcCell k) ∧ d.cell (spCell k) = c.cell (spCell k)
      ∧ (d.cell (stateCell k) = 3 ↔ c.cell (stateCell k) = 3)) :
  Kept s X c d
  := by
  have hother : ∀ j, 1 ≤ j → j ≤ s.threads → j ≠ k → d.cell (pcCell j) = c.cell (pcCell j)
      ∧ d.cell (spCell j) = c.cell (spCell j) ∧ d.cell (stateCell j) = c.cell (stateCell j) := by
    intro j hj hj' hne
    have hj := entry_cells j
    have hin := (entry_cells k).2.2.2.2
    refine ⟨?_, ?_, ?_⟩
    all_goals
      apply h
      · omega
      · omega
      · rw [hin]
        omega
  constructor
  · intro j hj hj' hX
    by_cases hjk : j = k
    · rw [hjk] at hX ⊢
      exact ⟨(hk hX).1, (hk hX).2.1⟩
    · exact ⟨(hother j hj hj' hjk).1, (hother j hj hj' hjk).2.1⟩
  · intro j hj hj' hX
    by_cases hjk : j = k
    · rw [hjk] at hX ⊢
      exact (hk hX).2.2
    · rw [(hother j hj hj' hjk).2.2]
  · apply huser

theorem loaded_of_instructions (h : c.instructions = s.instructionMap) :
  Loaded c
  := by
  intro a instr hcode
  rw [h, s.instructionMap_kernel hcode]

/-! ### A visit of the scheduler -/

/-- The scheduler dispatches a thread that has not terminated, or is entered again. -/
theorem Kernel.visit {T S : Int → Prop} {P : Kernel → Prop} {t j : Int} {m : Int → Int}
    (hj : (if m 23 ≤ m 21 then m 23 else 1) = j) (hj₁ : 1 ≤ j) (hj' : j ≤ 10) (h24 : m 24 = 0)
    (hn : 1 < m 21) (hS : ¬ S j)
    (hswitch : ∀ t' m' m'', m' 23 = j → SameButScan m m' → m (stateCell j) < 3 →
      Switched j m' m'' → Leads step (Quiet T S) P ⟨796, t', m''⟩)
    (hskip : ∀ t' m', m' 23 = j → SameButScan m m' → Leads step (Quiet T S) P ⟨700, t', m'⟩) :
  Leads step (Quiet T S) P ⟨701, t, m⟩
  := by
  have hstate : ∀ m', SameButScan m m' → m' (stateCell j) = m (stateCell j) := by
    intro m' hm'
    unfold stateCell
    apply hm' <;> omega
  apply Kernel.scan hj hj₁ hj' h24 hn
  · intro t' m' _ _ h23 h53 hm' hle
    apply Kernel.switch h23 hj₁ hj' h53
    · intro _
      rw [hstate m' hm']
      omega
    · apply hS
    · intro t'' m'' _ hsw
      apply hswitch _ m' _ h23 hm' (by omega) hsw
  · intro t' m' _ h23 hm' _
    apply hskip _ _ h23 hm'
  · intro t' m' _ h23 hm' h52 h53 _ hs
    apply Kernel.elapsed hj₁ hj' _ h52 h53
    · intro t'' m'' _ h23' h53' hm'' _
      have hm := hm'.trans hm''
      have h23'' := h23'.trans h23
      apply Kernel.switch h23'' hj₁ hj' h53'
      · intro _
        rw [hstate m'' hm]
        omega
      · apply hS
      · intro t₃ m₃ _ hsw
        apply hswitch _ m'' _ h23'' hm (by omega) hsw
    · intro t'' m'' _ h23' hm'' _
      apply hskip _ _ (h23'.trans h23) (hm'.trans hm'')
    · rw [hm' 24 (by omega) (by omega) (by omega) (by omega), h24]

/-- From the entrance of the scheduler the run leads to a dispatch or back. -/
theorem AtEntrance.visit (h : AtEntrance s c) (hn : 2 ≤ s.threads) (hn' : s.threads ≤ 9)
    (hstep : c.step = some c') :
  Leads CPU.step (KernelStep AnyThread NoThread)
    (fun d => (AtEntrance s d ∨ AtSwitched s d) ∧ Kept s AnyThread c d) c'
  := by
  have hl := loaded_of_instructions h.instructions
  have hr := runs_ofCPU h.kernelMode h.halted
  rw [Kernel.ofCPU, h.pc] at hr
  obtain ⟨c₁, hstep₁, hr₁, -⟩ := hr.step hl Kernel.step_scheduler
  obtain rfl : c₁ = c' := Option.some_inj.mp (hstep₁.symm.trans hstep)
  have htable := h.table
  have hcursor := htable.cursor
  obtain ⟨hj₁, hj'⟩ := next_bounds (n := s.threads) (by omega) hcursor.1
  generalize hm₁ : Function.update c.cell 23 (c.cell 23 + 1) = m₁ at hr₁
  have hs₁ : SameButScan c.cell m₁ := by
    rw [← hm₁]
    simp [SameButScan.refl]
  have hnext : (if m₁ 23 ≤ m₁ 21 then m₁ 23 else 1) = next s.threads (c.cell 23) := by
    rw [← hm₁]
    simp [htable.threads, next]
  have h24 : m₁ 24 = 0 := by rw [hs₁ 24 (by omega) (by omega) (by omega) (by omega), htable.flag]
  have h21 : 1 < m₁ 21 := by
    rw [hs₁ 21 (by omega) (by omega) (by omega) (by omega), htable.threads]
    omega
  generalize next s.threads (c.cell 23) = j at *
  obtain ⟨hst, hsta, hpcc, hspc, hin⟩ := entry_cells j
  have hstate : ∀ m, SameButScan c.cell m → m (stateCell j) = c.cell (stateCell j) := by
    intro m hm
    apply hm <;> omega
  have hsuspended : ∀ m, SameButScan c.cell m → m 23 = j → Suspended s.threads m := by
    intro m hm h23
    use htable.toTable.scan hn' hm (by omega)
    intro i hi hi'
    have hsame : m (stateCell i) = c.cell (stateCell i) := by
      unfold stateCell
      apply hm <;> omega
    rw [hsame]
    apply htable.idle i hi hi'
  have hlead : Leads Kernel.step (Quiet AnyThread NoThread) (fun k =>
      (k.pc = 700 ∧ SameButScan c.cell k.mem ∧ k.mem 23 = j)
        ∨ (k.pc = 796 ∧ ∃ m, SameButScan c.cell m ∧ m 23 = j ∧ m (stateCell j) < 3
          ∧ Kernel.Switched j m k.mem)) ⟨701, c.cell 3 + 1, m₁⟩ := by
    apply Kernel.visit hnext hj₁ (by omega) h24 h21 id
    · intro t' m' m'' h23 hm' hlt hsw
      rw [hstate m₁ hs₁, ← hstate m' (hs₁.trans hm')] at hlt
      apply Leads.here (.inr ⟨rfl, m', hs₁.trans hm', h23, hlt, hsw⟩)
    · intro t' m' h23 hm'
      apply Leads.here (.inl ⟨rfl, hs₁.trans hm', h23⟩)
  apply (hr₁.leads hl hlead).mono (fun _ _ h => h)
  rintro d ⟨k, hrd, ⟨hpc, hm, h23⟩ | ⟨hpc, m, hm, h23, hlt, hsw⟩⟩
  · constructor
    · left
      refine ⟨⟨hrd.kernelMode, hrd.halted, hrd.pc.trans hpc⟩, ?_, ?_⟩
      · rw [hrd.instructions, h.instructions]
      · apply (hsuspended _ hm h23).congr hn'
        intro a ha
        apply hrd.cell_mem ha.cell
    · have hcell : ∀ a, 510 ≤ a → a < 10000 → d.cell a = c.cell a := by
        intro a ha ha'
        rw [hrd.mem (by omega) ha' (by omega) (by omega)]
        apply hm <;> omega
      apply kept_of_frame j hn'
      · intro a ha ha' _
        apply hcell a ha ha'
      · intro a ha ha'
        apply hcell a (by omega) ha'
      · intro _
        rw [hcell _ (by omega) (by omega), hcell _ (by omega) (by omega),
          hcell _ (by omega) (by omega)]
        exact ⟨rfl, rfl, Iff.rfl⟩
  · obtain ⟨htable', hone⟩ := (hsuspended m hm h23).switched hn' hj₁ hj' (by omega) hsw
    have h22 : d.cell 22 = j := by rw [hrd.cell_mem (by decide), hsw.running]
    have hcell : ∀ a, 510 ≤ a → a < 10000 → a ≠ stateCell j → a ≠ startCell j →
        d.cell a = c.cell a := by
      intro a ha ha' h₁ h₂
      rw [hrd.mem (by omega) ha' (by omega) (by omega), hsw.frame a (by omega) (by omega) (by omega)
        (by omega) (by omega) h₁ h₂]
      apply hm <;> omega
    have hpcj : d.cell (pcCell j) = c.cell (pcCell j) := by apply hcell <;> omega
    have hspj : d.cell (spCell j) = c.cell (spCell j) := by apply hcell <;> omega
    have hmpc : m (pcCell j) = c.cell (pcCell j) := by apply hm <;> omega
    have hmsp : m (spCell j) = c.cell (spCell j) := by apply hm <;> omega
    have hstate' : d.cell (stateCell j) = 1 := by
      rw [hrd.cell_mem (cell_stateCell (by omega) (by omega)), hsw.state]
    constructor
    · right
      constructor
      · apply hrd.kernelMode
      · apply hrd.halted
      · apply hrd.pc.trans hpc
      · rw [hrd.instructions, h.instructions]
      · apply htable'.congr hn'
        intro a ha
        apply hrd.cell_mem ha.cell
      · rw [h22, hstate']
      · rw [h22, hpcj, hspj, hrd.cell_mem (by decide), hrd.cell_mem (by decide), hsw.pc, hsw.sp,
          hmpc, hmsp]
        exact ⟨rfl, rfl⟩
    · apply kept_of_frame j hn'
      · intro a ha ha' hne
        rw [hin] at hne
        apply hcell a ha ha' <;> omega
      · intro a ha ha'
        apply hcell a (by omega) ha' <;> omega
      · intro _
        refine ⟨hpcj, hspj, ?_⟩
        rw [hstate', ← hstate m hm]
        omega

/-! ### The end of the context switch -/

/-- The thread at the cursor is resumed, unless its program counter may not be jumped to. -/
theorem AtSwitched.resume (h : AtSwitched s c) (hn' : s.threads ≤ 9) (hstep : c.step = some d) :
  InThread s d ∧ d.cell 22 = c.cell 22 ∧ Kept s AnyThread c d
    ∧ (∀ j, 1 ≤ j → j ≤ s.threads → d.cell (stateCell j) = c.cell (stateCell j))
    ∧ (d.halted = false → d.cell 0 = c.cell 19 ∧ d.cell 1 = c.cell 1)
  := by
  have hl := loaded_of_instructions h.instructions
  have hr := runs_ofCPU h.kernelMode h.halted
  rw [Kernel.ofCPU, h.pc] at hr
  have hb := hr.bumped (by change (0 : Int) ≤ 796; decide) (by change (796 : Int) < 1000; decide)
  have hrun := hr.userResult hl rfl
  have hd : d = (c.bumped.userResult 19).advance 796 := by
    rw [CPU.step, hrun] at hstep
    cases hstep
    rfl
  obtain ⟨hk, hh, hi, -⟩ := CPU.advance_fields (c.bumped.userResult 19) 796
  rw [← hd] at hk hh hi
  have h19 : c.bumped.cell 19 = c.cell 19 := hb.cell_mem (by decide)
  have hres : c.bumped.userResult 19 = (c.bumped.inMode false).set CPU.PC (c.cell 19)
      ∧ UserAddress (c.cell 19) ∨ c.bumped.userResult 19 = (c.bumped.inMode false).halting
        [.text "Access violation: USER jump address not accessible in user mode"] := by
    rw [CPU.userResult, if_pos (by decide), h19]
    split
    · rename_i hv
      exact .inl ⟨rfl, isAddressValid_user.mp hv⟩
    · exact .inr rfl
  have hcell : ∀ a, Cell a → d.cell a = c.cell a := by
    intro a ha
    obtain ⟨h₁, h₂, h₃, h₄⟩ := id ha
    rw [hd, CPU.cell_advance _ _ h₁.le h₂ h₁.ne' h₃]
    obtain ⟨hres, -⟩ | hres := hres
    · rw [hres, CPU.cell_set _ _ _ h₁.le h₂, if_neg (by change a ≠ 0; omega), CPU.cell_inMode]
      apply hb.cell_mem ha
    · rw [hres, CPU.cell_halting, CPU.cell_inMode]
      apply hb.cell_mem ha
  refine ⟨⟨?_, ?_, ?_⟩, ?_, ?_, ?_, ?_⟩
  · rw [hk]
    obtain ⟨hres, -⟩ | hres := hres
    · rw [hres]
      rfl
    · rw [hres]
      rfl
  · rw [hi]
    obtain ⟨hres, -⟩ | hres := hres
    · rw [hres]
      apply c.bumped_instructions.trans h.instructions
    · rw [hres]
      apply c.bumped_instructions.trans h.instructions
  · apply h.table.congr hn'
    intro a ha
    apply hcell a ha.cell
  · apply hcell 22 (by decide)
  · have hsame : ∀ a, 510 ≤ a → a < 10000 → d.cell a = c.cell a := by
      intro a ha ha'
      apply hcell a
      unfold Cell
      omega
    apply kept_of_frame 0 hn'
    · intro a ha ha' _
      apply hsame a ha ha'
    · intro a ha ha'
      apply hsame a (by omega) ha'
    · intro _
      rw [hcell _ (cell_pcCell le_rfl (by decide)), hcell _ (cell_spCell le_rfl (by decide)),
        hcell _ (cell_stateCell le_rfl (by decide))]
      exact ⟨rfl, rfl, Iff.rfl⟩
  · intro j hj hj'
    apply hcell
    apply cell_stateCell <;> omega
  · intro hhalt
    obtain ⟨hres, hv⟩ | hres := hres
    · constructor
      · rw [hd, hres]
        apply (CPU.cell_PC_advance _ _).trans
        rw [CPU.cell_set_self, if_neg]
        unfold UserAddress at hv
        omega
      · apply hcell 1 (by decide)
    · rw [hh, hres] at hhalt
      cases hhalt

/-! ### The system calls -/

/-- Entering the kernel keeps the table and the other cells. -/
theorem InThread.entered {target : Int} (h : InThread s c) (hn' : s.threads ≤ 9)
    (he : Entered target c c') :
  Running s.threads c'.cell
    ∧ ∀ a, 0 < a → a < 10000 → a ≠ 3 → a ≠ 4 → a ≠ 502 + 10 * c.cell 22 → c'.cell a = c.cell a
  := by
  have hcell : ∀ a, 0 < a → a < 10000 → a ≠ 3 → a ≠ 4 → a ≠ 502 + 10 * c.cell 22 →
      c'.cell a = c.cell a := by
    intro a h₁ h₂ h₃ h₄ hne
    rw [he.cell a h₁.le h₂ h₁.ne' h₃ h₄, cell_bumped_of_ne h₁.le h₂ hne]
  refine ⟨?_, hcell⟩
  apply h.table.congr hn'
  intro a ha
  have h₁ := h.table.thread
  have h₂ := h.table.running
  obtain rfl | rfl | rfl | rfl | rfl | ⟨j, hj, hj', rfl⟩ := ha
  iterate 5 apply hcell <;> omega
  unfold stateCell
  apply hcell <;> omega

/-- `SYSCALL YIELD` leads to the entrance of the scheduler, with the context of the thread
saved. -/
theorem InThread.yields (h : InThread s c) (hn' : s.threads ≤ 9) (he : Entered 400 c c') :
  Leads CPU.step (KernelStep AnyThread NoThread)
    (fun d => AtEntrance s d ∧ Kept s (fun j => j ≠ c.cell 22) c d
      ∧ d.cell (pcCell (c.cell 22)) = c.cell 0 + 1 ∧ d.cell (spCell (c.cell 22)) = c.cell 1
      ∧ d.cell (stateCell (c.cell 22)) ≠ 3) c'
  := by
  obtain ⟨htable, hcell⟩ := h.entered hn' he
  have h₁ := h.table.thread
  have h₂ := h.table.running
  have h22 : c'.cell 22 = c.cell 22 := by apply hcell <;> omega
  have hi : c'.instructions = s.instructionMap := he.instructions.trans h.instructions
  have hr := runs_ofCPU he.kernelMode he.halted
  rw [Kernel.ofCPU, he.pc] at hr
  have hlead : Leads Kernel.step (Quiet AnyThread NoThread)
      (fun k => k.pc = 700 ∧ Saved c'.cell k.mem) ⟨400, c'.cell 3, c'.cell⟩ := by
    apply Kernel.save (by omega) (by omega) htable.flag
    intro t' m' _ hm'
    exact Leads.here ⟨rfl, hm'⟩
  apply (hr.leads (loaded_of_instructions hi) hlead).mono (fun _ _ h => h)
  rintro d ⟨k, hrd, hpc, hm⟩
  obtain ⟨hst, hsta, hpcc, hspc, hin⟩ := entry_cells (c.cell 22)
  have hsaved := hm
  obtain ⟨hstate, hspc', hssp, hframe⟩ := hm
  rw [h22] at hstate hspc' hssp hframe
  have hdcell : ∀ a, 510 ≤ a → a < 10000 → ¬ InEntry (c.cell 22) a → d.cell a = c.cell a := by
    intro a ha ha' hne
    rw [hin] at hne
    rw [hrd.mem (by omega) ha' (by omega) (by omega), hframe a (by omega) (by omega) (by omega)
      (by omega), hcell a (by omega) ha' (by omega) (by omega) (by omega)]
  refine ⟨⟨⟨hrd.kernelMode, hrd.halted, hrd.pc.trans hpc⟩, ?_, ?_⟩, ?_, ?_, ?_, ?_⟩
  · rw [hrd.instructions, hi]
  · apply (htable.saved hn' hsaved).congr hn'
    intro a ha
    apply hrd.cell_mem ha.cell
  · apply kept_of_frame (c.cell 22) hn' hdcell
    · intro a ha ha'
      apply hdcell a (by omega) ha'
      rw [hin]
      omega
    · intro hne
      exact absurd rfl hne
  · rw [hrd.cell_mem (cell_pcCell (by omega) (by omega)), hspc', he.saved]
  · rw [hrd.cell_mem (cell_spCell (by omega) (by omega)), hssp]
    apply hcell <;> omega
  · have hs := htable.state
    rw [h22] at hs
    rw [hrd.cell_mem (cell_stateCell (by omega) (by omega)), hstate]
    split <;> omega

/-- `SYSCALL HLT` terminates the thread, and leads to the entrance of the scheduler or to
the end of the system. -/
theorem InThread.halts (h : InThread s c) (hn' : s.threads ≤ 9) (he : Entered 430 c c') :
  Leads CPU.step (KernelStep AnyThread NoThread)
    (fun d => (AtEntrance s d ∨ AtEnd s d) ∧ Kept s (fun j => j ≠ c.cell 22) c d
      ∧ d.cell (stateCell (c.cell 22)) = 3) c'
  := by
  obtain ⟨htable, hcell⟩ := h.entered hn' he
  have h₁ := h.table.thread
  have h₂ := h.table.running
  have h22 : c'.cell 22 = c.cell 22 := by apply hcell <;> omega
  have hi : c'.instructions = s.instructionMap := he.instructions.trans h.instructions
  have hr := runs_ofCPU he.kernelMode he.halted
  rw [Kernel.ofCPU, he.pc] at hr
  have hlead : Leads Kernel.step (Quiet AnyThread NoThread)
      (fun k => SameButScratch (Kernel.terminate c'.cell) k.mem
        ∧ ((k.pc = 700 ∧ c'.cell 201 + 1 < c'.cell 21)
          ∨ (k.pc = 449 ∧ c'.cell 21 ≤ c'.cell 201 + 1))) ⟨430, c'.cell 3, c'.cell⟩ := by
    apply Kernel.halt (by omega) (by omega) htable.flag
    · intro t' m' _ hm' hle
      exact Leads.here ⟨hm', .inr ⟨rfl, hle⟩⟩
    · intro t' m' _ hm' hlt
      exact Leads.here ⟨hm', .inl ⟨rfl, hlt⟩⟩
  apply (hr.leads (loaded_of_instructions hi) hlead).mono (fun _ _ h => h)
  rintro d ⟨k, hrd, hm, hpc⟩
  obtain ⟨hsuspended, hall, h3⟩ := htable.terminate hn' hm
  rw [htable.threads] at hpc
  rw [h22] at h3
  obtain ⟨hst, hsta, hpcc, hspc, hin⟩ := entry_cells (c.cell 22)
  have hmem : ∀ a, a < 50 ∨ 61 < a → a ≠ stateCell (c.cell 22) → a ≠ 201 →
      k.mem a = c'.cell a := by
    intro a ha hne h201
    rw [hm a ha, Kernel.terminate, Function.update_of_ne h201, h22, Function.update_of_ne hne]
  have hdcell : ∀ a, 510 ≤ a → a < 10000 → ¬ InEntry (c.cell 22) a → d.cell a = c.cell a := by
    intro a ha ha' hne
    rw [hin] at hne
    rw [hrd.mem (by omega) ha' (by omega) (by omega), hmem a (by omega) (by omega) (by omega),
      hcell a (by omega) ha' (by omega) (by omega) (by omega)]
  refine ⟨?_, ?_, ?_⟩
  · obtain ⟨hpc, hlt⟩ | ⟨hpc, hle⟩ := hpc
    · left
      refine ⟨⟨hrd.kernelMode, hrd.halted, hrd.pc.trans hpc⟩, ?_, ?_⟩
      · rw [hrd.instructions, hi]
      · apply (hsuspended hlt).congr hn'
        intro a ha
        apply hrd.cell_mem ha.cell
    · right
      refine ⟨hrd.kernelMode, hrd.halted, hrd.pc.trans hpc, ?_, ?_, ?_⟩
      · rw [hrd.instructions, hi]
      · rw [hrd.cell_mem (by decide), hmem 22 (by omega) (by omega) (by omega), h22]
        exact ⟨h₁, h₂.2⟩
      · intro j hj hj'
        rw [hrd.cell_mem (cell_stateCell (by omega) (by omega)), hall hle j hj hj']
  · apply kept_of_frame (c.cell 22) hn' hdcell
    · intro a ha ha'
      apply hdcell a (by omega) ha'
      rw [hin]
      omega
    · intro hne
      exact absurd rfl hne
  · rw [hrd.cell_mem (cell_stateCell (by omega) (by omega)), h3]

end OperatingSystem
