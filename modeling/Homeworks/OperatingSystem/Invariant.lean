import Homeworks.OperatingSystem.Rounds

/-!
# The thread table over whole runs

Whatever the programs of the threads do, the thread table is consistent at every arrival
at the scheduler, a terminated thread is never dispatched again, and the system ends only
when all threads have terminated.  From every checkpoint the run leads to the next one, and
the steps in between belong to the kernel.
-/

open Simulator StateTransition Transition Relation

namespace OperatingSystem

variable {s : System} {c d : CPU}

/-- The states that a run passes through between the rounds of the kernel. -/
inductive Checkpoint (s : System) (c : CPU) : Prop where
  | boot (h : c = s.boot)
  | entrance (h : AtEntrance s c)
  | switched (h : AtSwitched s c)
  | thread (h : InThread s c)
  | last (h : AtEnd s c)
  | over (h : Over s c)

/-- What holds in every state of a run. -/
structure Sound (s : System) (c : CPU) : Prop where
  entrance : c.kernelMode = true → c.cell 0 = 700 → AtEntrance s c
  switched : c.kernelMode = true → c.cell 0 = 796 → AtSwitched s c
  thread : c.kernelMode = false → InThread s c
  last : c.kernelMode = true → c.halted = false → c.cell 0 = 449 → AtEnd s c

/-- The threads that have terminated at `c` have terminated at `d`. -/
def StayTerminated (s : System) (c d : CPU) : Prop :=
  ∀ j, 1 ≤ j → j ≤ s.threads → c.cell (stateCell j) = 3 → d.cell (stateCell j) = 3

/-- A step out of a sound state that revives no thread. -/
def Steady (s : System) (c d : CPU) : Prop := Sound s c ∧ StayTerminated s c d

theorem Sound.of_kernel (hk : c.kernelMode = true)
    (hpc : c.cell 0 ≠ 700 ∧ c.cell 0 ≠ 796 ∧ (c.cell 0 ≠ 449 ∨ c.halted = true)) :
  Sound s c
  := by
  constructor
  · intro _ h
    exact absurd h hpc.1
  · intro _ h
    exact absurd h hpc.2.1
  · intro h
    rw [hk] at h
    cases h
  · intro _ hh h
    obtain h' | h' := hpc.2.2
    · exact absurd h h'
    · rw [hh] at h'
      cases h'

theorem KernelStep.steady (hn' : s.threads ≤ 9) (h : KernelStep AnyThread NoThread c d) :
  Steady s c d
  := by
  constructor
  · apply Sound.of_kernel h.kernelMode ⟨h.pc.1, h.pc.2.2.1, .inl h.pc.2.1⟩
  · intro j hj hj'
    apply h.terminated j hj (by omega) trivial

theorem Checkpoint.sound (h : Checkpoint s c) :
  Sound s c
  := by
  cases h with
  | boot h =>
      have hpc := s.boot_registers.1
      rw [h]
      apply Sound.of_kernel s.boot_fields.1
      omega
  | entrance h =>
      have hpc := h.pc
      constructor
      · intro _ _
        apply h
      · omega
      · intro hk
        rw [h.kernelMode] at hk
        cases hk
      · omega
  | switched h =>
      have hpc := h.pc
      constructor
      · omega
      · intro _ _
        apply h
      · intro hk
        rw [h.kernelMode] at hk
        cases hk
      · omega
  | thread h =>
      have hu := h.kernelMode
      constructor
      · intro hk
        rw [hu] at hk
        cases hk
      · intro hk
        rw [hu] at hk
        cases hk
      · intro _
        apply h
      · intro hk
        rw [hu] at hk
        cases hk
  | last h =>
      have hpc := h.pc
      constructor
      · omega
      · omega
      · intro hk
        rw [h.kernelMode] at hk
        cases hk
      · intro _ _ _
        apply h
  | «over» h =>
      apply Sound.of_kernel h.kernelMode ⟨h.pc.1, h.pc.2, .inr h.halted⟩

/-- The rounds of the kernel are steady. -/
theorem Checkpoint.of_leads {P : CPU → Prop} (hn' : s.threads ≤ 9)
    (hP : ∀ d, P d → Checkpoint s d) (h : Leads CPU.step (KernelStep AnyThread NoThread) P c) :
  Leads CPU.step (Steady s) (Checkpoint s) c
  := by
  apply h.mono _ hP
  intro c d hcd
  apply hcd.steady hn'

/-! ### From one checkpoint to the next -/

/-- The scheduler is entered for the first time. -/
theorem atEntrance_entered (hn : 1 ≤ s.threads) (hn' : s.threads ≤ 9) :
  AtEntrance s s.entered
  := by
  have hr := s.entered_runs
  have hstate : ∀ j, 1 ≤ j → j ≤ s.threads → s.entered.cell (stateCell j) = 0 := by
    intro j hj hj'
    apply (entered_entry s hj (by omega)).1
  have hvariable : ∀ a, (22 ≤ a ∧ a ≤ 26) ∨ a = 200 ∨ a = 201 → s.entered.cell a = 0 := by
    intro a ha
    rw [s.entered_mem (by unfold Cell; omega), s.boot_variable ha]
  have hcount : terminatedCount s.threads s.entered.cell = 0 := by
    unfold terminatedCount
    rw [Finset.card_eq_zero, Finset.filter_eq_empty_iff]
    intro j hj h3
    obtain ⟨hj₁, hj'⟩ := Finset.mem_Icc.mp hj
    rw [hstate j hj₁ hj'] at h3
    cases h3
  refine ⟨⟨hr.kernelMode, hr.halted, hr.pc⟩, ?_, ⟨?_, ?_, ?_, ?_, ?_, ?_, ?_⟩, ?_⟩
  · rw [hr.instructions, s.boot_fields.2.2.1]
  · rw [s.entered_mem (by decide), s.boot_threads]
  · apply hvariable 24 (by decide)
  · rw [hvariable 22 (by decide)]
    omega
  · rw [hvariable 23 (by decide)]
    omega
  · rw [hvariable 201 (by decide), hcount]
    rfl
  · rw [hvariable 201 (by decide)]
    omega
  · intro j hj hj'
    apply Or.inl (hstate j hj hj')
  · intro j hj hj'
    rw [hstate j hj hj']
    decide

/-- The first step of the scheduler moves the cursor. -/
theorem AtEntrance.first (h : AtEntrance s c) (hstep : c.step = some d) {a : Int} (ha : Cell a)
    (h23 : a ≠ 23) :
  d.cell a = c.cell a
  := by
  have hr := runs_ofCPU h.kernelMode h.halted
  rw [Kernel.ofCPU, h.pc] at hr
  obtain ⟨c₁, hstep₁, hr₁, -⟩ :=
    hr.step (loaded_of_instructions h.instructions) Kernel.step_scheduler
  obtain rfl : c₁ = d := Option.some_inj.mp (hstep₁.symm.trans hstep)
  rw [hr₁.cell_mem ha]
  apply Function.update_of_ne h23

/-- The system calls lie in user space. -/
theorem InThread.call (h : InThread s c) (hs : c.AtSyscall) :
  c.cell 0 < 0 ∨ 1000 ≤ c.cell 0
  := by
  have hos : ∀ a instr, osCode a = some instr → instr.type ≠ .SYSCALL := by
    intro a instr hcode
    have hall : ∀ line ∈ yieldCode ++ hltCode ++ schedulerCode ++ switchCode ++ haltCode,
        line.2.type ≠ .SYSCALL := by decide +kernel
    unfold osCode at hcode
    split at hcode
    · cases hcode
      decide
    · apply hall _ (mem_of_lookup hcode)
  obtain ⟨-, instr, hi, ht⟩ := hs
  rw [CPU.current, h.instructions, System.instructionMap] at hi
  by_contra hlt
  rw [sizeT_of_nonneg (by omega), if_pos (by omega)] at hi
  apply hos _ _ hi ht

/-- While a thread runs the kernel cells that the table is about are not touched. -/
theorem InThread.table_touched (h : InThread s c) (hn' : s.threads ≤ 9)
    (hcell : ∀ a, CPU.KernelCell a → ¬ Touched c a → d.cell a = c.cell a) :
  (∀ a, TableCell a → a ≠ stateCell (c.cell 22) → d.cell a = c.cell a)
    ∧ StayTerminated s c d
  := by
  have h₁ := h.table.thread
  have h₂ := h.table.running
  have hs := h.table.state
  obtain ⟨hst, hsta, -⟩ := entry_cells (c.cell 22)
  have htable : ∀ a, TableCell a → a ≠ stateCell (c.cell 22) → d.cell a = c.cell a := by
    intro a ha hne
    apply hcell a ha.kernelCell
    unfold Touched
    obtain h | h | h | h | h | ⟨j, -, -, h⟩ := ha
    iterate 5 omega
    rw [(entry_cells j).1] at h
    omega
  use htable
  intro j hj hj' h3
  rw [htable _ (tableCell_stateCell hj (by omega)), h3]
  intro heq
  rw [heq] at h3
  omega

/-- A step that stays in user mode and touches at most the running thread. -/
theorem InThread.again (h : InThread s c) (hn' : s.threads ≤ 9) (hk : d.kernelMode = false)
    (hi : d.instructions = c.instructions)
    (hcell : ∀ a, CPU.KernelCell a → ¬ Touched c a → d.cell a = c.cell a)
    (hs : d.cell (stateCell (c.cell 22)) = c.cell (stateCell (c.cell 22))
      ∨ d.cell (stateCell (c.cell 22)) = 2) :
  InThread s d ∧ d.cell 22 = c.cell 22
  := by
  obtain ⟨htable, -⟩ := h.table_touched hn' hcell
  have h₁ := h.table.thread
  have h₂ := h.table.running
  have hst := h.table.state
  obtain ⟨hsc, -⟩ := entry_cells (c.cell 22)
  have h22 : d.cell 22 = c.cell 22 := htable 22 (by unfold TableCell; omega) (by omega)
  refine ⟨⟨hk, ?_, ?_, ?_, ?_⟩, h22⟩
  · rw [hi, h.instructions]
  · by_cases hone : d.cell (stateCell (c.cell 22)) = c.cell (stateCell (c.cell 22))
    · apply h.table.toTable.congr hn'
      intro a ha
      by_cases hne : a = stateCell (c.cell 22)
      · rw [hne, hone]
      · apply htable a ha hne
    · apply h.table.toTable.update hn' h₁ h₂.2 h22 (fun a ha _ => htable a ha) _ (by omega)
        (by omega)
      intro j hj hj' hne
      apply h.table.single hj hj' hne
  · rw [h22]
    apply h₁
  · rw [h22]
    omega

theorem InThread.stays (h : InThread s c) (hn' : s.threads ≤ 9)
    (hsame : CPU.SameKernel c.bumped d) :
  InThread s d ∧ d.cell 22 = c.cell 22 ∧ StayTerminated s c d
  := by
  have hcell : ∀ a, CPU.KernelCell a → a ≠ 502 + 10 * c.cell 22 → d.cell a = c.cell a := by
    intro a ha hne
    rw [hsame.cell a ha, CPU.cell_bumped_kernel c ha hne]
  have h₁ := h.table.thread
  have h₂ := h.table.running
  obtain ⟨hsc, -⟩ := entry_cells (c.cell 22)
  have htouched : ∀ a, CPU.KernelCell a → ¬ Touched c a → d.cell a = c.cell a := by
    intro a ha hne
    apply hcell a ha
    unfold Touched at hne
    omega
  obtain ⟨hd, h22⟩ := h.again hn'
    (by rw [hsame.kernelMode, CPU.bumped_kernelMode, h.kernelMode])
    (by rw [hsame.instructions, CPU.bumped_instructions]) htouched
    (.inl (hcell _ (by unfold CPU.KernelCell; omega) (by omega)))
  exact ⟨hd, h22, (h.table_touched hn' htouched).2⟩

theorem InThread.prints {a : Int} (h : InThread s c) (hn' : s.threads ≤ 9)
    (hp : Printed a c d) :
  InThread s d ∧ d.cell 22 = c.cell 22 ∧ StayTerminated s c d
  := by
  have htouched : ∀ a, CPU.KernelCell a → ¬ Touched c a → d.cell a = c.cell a := by
    rintro a ⟨ha, ha'⟩ hne
    apply hp.cell a (by omega) (by omega) (by omega) hne
  obtain ⟨hd, h22⟩ := h.again hn' hp.kernelMode hp.instructions htouched (.inr hp.state)
  exact ⟨hd, h22, (h.table_touched hn' htouched).2⟩

theorem InThread.stops (h : InThread s c) (hn' : s.threads ≤ 9) (hcall : c.AtSyscall)
    (hp : Stopped c d) :
  Over s d ∧ StayTerminated s c d
  := by
  obtain ⟨htable, hstay⟩ := h.table_touched hn' hp.cell
  have h₁ := h.table.thread
  have h₂ := h.table.running
  have hpc := h.call hcall
  obtain ⟨hsc, -⟩ := entry_cells (c.cell 22)
  refine ⟨⟨hp.kernelMode, hp.halted, ?_, ?_⟩, hstay⟩
  · rw [hp.pc]
    omega
  · rw [htable 22 (by unfold TableCell; omega) (by omega)]
    exact ⟨h₁, h₂.2⟩

theorem InThread.threadStep (h : InThread s c) (hn' : s.threads ≤ 9) (hstep : c.step = some d) :
  ThreadStep c d
  := by
  have h₁ := h.table.thread
  have h₂ := h.table.running
  apply threadStep_of_step h.kernelMode h₁ (by omega) _ hstep
  intro hs
  have := h.call hs
  omega

/-- The instruction at 449 halts the CPU. -/
theorem AtEnd.halts (h : AtEnd s c) (hn' : s.threads ≤ 9) (hstep : c.step = some d) :
  Over s d ∧ StayTerminated s c d
  := by
  have hl := loaded_of_instructions h.instructions
  have hr := runs_ofCPU h.kernelMode h.halted
  rw [Kernel.ofCPU, h.pc] at hr
  have hb := hr.bumped (by change (0 : Int) ≤ 449; decide) (by change (449 : Int) < 1000; decide)
  have hd : d = ({ c.bumped with halted := true } : CPU).advance 449 := hr.halts hl rfl hstep
  obtain ⟨hk, hh, -⟩ := CPU.advance_fields ({ c.bumped with halted := true } : CPU) 449
  rw [← hd] at hk hh
  have hcell : ∀ a, Cell a → d.cell a = c.cell a := by
    intro a ha
    obtain ⟨h₁, h₂, h₃, h₄⟩ := id ha
    rw [hd, CPU.cell_advance _ _ h₁.le h₂ h₁.ne' h₃]
    apply hb.cell_mem ha
  refine ⟨⟨?_, hh, ?_, ?_⟩, ?_⟩
  · rw [hk]
    apply c.bumped_kernelMode.trans h.kernelMode
  · have hpc : d.cell 0 = 450 := by
      rw [hd]
      apply (CPU.cell_PC_advance _ _).trans
      have h449 : c.bumped.cell 0 = 449 := hb.pc
      exact if_pos h449.symm
    omega
  · rw [hcell 22 (by decide)]
    apply h.thread
  · intro j hj hj' _
    rw [hcell _ (cell_stateCell (by omega) (by omega)), h.terminated j hj hj']

/-- A halted CPU remains halted. -/
theorem Over.again (h : Over s c) (hn' : s.threads ≤ 9) (hstep : c.step = some d) :
  Over s d ∧ StayTerminated s c d
  := by
  obtain ⟨h₁, h₂⟩ := h.thread
  obtain ⟨-, rfl⟩ | ⟨hh, -⟩ | ⟨instr, hh, -⟩ := CPU.step_cases hstep
  · refine ⟨⟨?_, ?_, ?_, ?_⟩, ?_⟩
    · rw [CPU.bumped_kernelMode, h.kernelMode]
    · rw [CPU.bumped_halted, h.halted]
    · rw [cell_bumped_of_ne (by decide) (by decide) (by omega)]
      apply h.pc
    · rw [cell_bumped_of_ne (by decide) (by decide) (by omega)]
      apply h.thread
    · intro j hj hj' h3
      obtain ⟨hst, -⟩ := entry_cells j
      rw [cell_bumped_of_ne (by omega) (by omega) (by omega), h3]
  · rw [h.halted] at hh
    cases hh
  · rw [h.halted] at hh
    cases hh

/-- From every checkpoint the run leads on to one. -/
theorem Checkpoint.step (hn : 2 ≤ s.threads) (hn' : s.threads ≤ 9) (h : Checkpoint s c)
    (hstep : c.step = some d) :
  Steady s c d ∧ Leads CPU.step (Steady s) (Checkpoint s) d
  := by
  have hsound := h.sound
  cases h with
  | boot h =>
      have hboot := s.boot_step
      rw [h] at hstep
      obtain rfl : s.entered = d := Option.some_inj.mp (hboot.symm.trans hstep)
      refine ⟨⟨hsound, ?_⟩, Leads.here (.entrance (atEntrance_entered (by omega) hn'))⟩
      intro j hj hj' h3
      rw [h, (s.boot_entry hj (by omega)).1] at h3
      cases h3
  | entrance h =>
      refine ⟨⟨hsound, ?_⟩, Checkpoint.of_leads hn' ?_ (h.visit hn hn' hstep)⟩
      · intro j hj hj' h3
        obtain ⟨hst, -⟩ := entry_cells j
        rw [h.first hstep (cell_stateCell (by omega) (by omega)) (by omega), h3]
      · rintro d ⟨hd | hd, -⟩
        · apply Checkpoint.entrance hd
        · apply Checkpoint.switched hd
  | switched h =>
      obtain ⟨hd, -, -, hstates, -⟩ := h.resume hn' hstep
      refine ⟨⟨hsound, ?_⟩, Leads.here (.thread hd)⟩
      intro j hj hj' h3
      rw [hstates j hj hj', h3]
  | thread h =>
      cases h.threadStep hn' hstep with
      | stays same _ =>
          obtain ⟨hd, -, hstay⟩ := h.stays hn' same
          exact ⟨⟨hsound, hstay⟩, Leads.here (.thread hd)⟩
      | prints _ _ _ _ _ _ _ printed =>
          obtain ⟨hd, -, hstay⟩ := h.prints hn' printed
          exact ⟨⟨hsound, hstay⟩, Leads.here (.thread hd)⟩
      | stops instr running current type _ stopped =>
          obtain ⟨hd, hstay⟩ := h.stops hn' ⟨running, instr, current, type⟩ stopped
          exact ⟨⟨hsound, hstay⟩, Leads.here (.over hd)⟩
      | enters instr st _ _ _ _ ne entered =>
          have hstay : StayTerminated s c d := by
            obtain ⟨-, hcell⟩ := h.entered hn' entered
            have h₁ := h.table.thread
            have h₂ := h.table.running
            intro j hj hj' h3
            obtain ⟨hst, -⟩ := entry_cells j
            rw [hcell _ (by omega) (by omega) (by omega) (by omega) (by omega), h3]
          refine ⟨⟨hsound, hstay⟩, ?_⟩
          cases st with
          | PRN => exact absurd rfl ne
          | HLT =>
              apply Checkpoint.of_leads hn' _ (h.halts hn' entered)
              rintro d ⟨hd | hd, -⟩
              · apply Checkpoint.entrance hd
              · apply Checkpoint.last hd
          | YIELD =>
              apply Checkpoint.of_leads hn' _ (h.yields hn' entered)
              rintro d ⟨hd, -⟩
              apply Checkpoint.entrance hd
  | last h =>
      obtain ⟨hd, hstay⟩ := h.halts hn' hstep
      exact ⟨⟨hsound, hstay⟩, Leads.here (.over hd)⟩
  | «over» h =>
      obtain ⟨hd, hstay⟩ := h.again hn' hstep
      exact ⟨⟨hsound, hstay⟩, Leads.here (.over hd)⟩

/-! ### Runs -/

variable (hn : 2 ≤ s.threads) (hn' : s.threads ≤ 9)

include hn hn'

/-- Every state of a run is sound. -/
theorem sound_of_reaches (h : Reaches CPU.step s.boot c) :
  Sound s c
  := by
  cases Reaches.leads (fun _ _ => Checkpoint.step hn hn') (.boot rfl) h with
  | here hc => apply hc.sound
  | next _ hR _ => apply hR.1

/-- The threads that have terminated stay so over a run. -/
theorem stayTerminated_of_reaches (h : Reaches CPU.step s.boot c) (h' : Reaches CPU.step c d) :
  StayTerminated s c d
  := by
  induction h' with
  | refl =>
      intro j _ _ h3
      apply h3
  | tail hcd hstep ih =>
      have hsteady := Reaches.checkpoint (fun _ _ => Checkpoint.step hn hn') (.boot rfl)
        (h.trans hcd) hstep
      intro j hj hj' h3
      apply hsteady.2 j hj hj' (ih j hj hj' h3)

/-- The thread-table invariant: over every run of a system, whatever its threads execute. -/
theorem thread_table_invariant (h : Reaches CPU.step s.boot c) :
  (c.kernelMode = true → c.cell 0 = 700 →
      c.cell 201 = terminatedCount s.threads c.cell ∧ c.cell 201 < s.threads
      ∧ (∀ j, 1 ≤ j → j ≤ s.threads → c.cell (stateCell j) ≠ 1)
      ∧ (0 ≤ c.cell 23 ∧ c.cell 23 ≤ s.threads) ∧ (0 ≤ c.cell 22 ∧ c.cell 22 ≤ s.threads))
  ∧ (∀ j, 1 ≤ j → j ≤ s.threads → c.cell (stateCell j) = 3 → ∀ d, Reaches CPU.step c d →
      d.cell (stateCell j) = 3
      ∧ (d.kernelMode = true → d.cell 0 = 796 → d.cell 22 ≠ j)
      ∧ (d.kernelMode = false → d.cell 22 ≠ j))
  ∧ (c.kernelMode = true → c.halted = false → c.cell 0 = 449 →
      ∀ j, 1 ≤ j → j ≤ s.threads → c.cell (stateCell j) = 3)
  := by
  have hsound := sound_of_reaches hn hn' h
  refine ⟨?_, ?_, ?_⟩
  · intro hk hpc
    have htable := (hsound.entrance hk hpc).table
    exact ⟨htable.terminated, htable.living, htable.idle, htable.cursor, htable.running⟩
  · intro j hj hj' h3 d hd
    have h3' := stayTerminated_of_reaches hn hn' h hd j hj hj' h3
    have hsound' := sound_of_reaches hn hn' (h.trans hd)
    refine ⟨h3', ?_, ?_⟩
    · intro hk hpc heq
      have hone := (hsound'.switched hk hpc).state
      rw [heq, h3'] at hone
      cases hone
    · intro hu heq
      have hstate := (hsound'.thread hu).table.state
      rw [heq, h3'] at hstate
      omega
  · intro hk hh hpc
    apply (hsound.last hk hh hpc).terminated

end OperatingSystem
