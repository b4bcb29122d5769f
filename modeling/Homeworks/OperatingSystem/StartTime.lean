import Homeworks.OperatingSystem.ContextSwitch

/-!
# The start times

The kernel means to store the instruction count in the start-time cell of the thread that
it dispatches.  It stores the address of the cell instead: the count is put into cell 54,
and the store is from cell 50.  Start times are therefore right only where no thread is
ever dispatched, that is, in a system with a single thread.
-/

open Simulator StateTransition Transition Relation

namespace OperatingSystem

variable {s : System} {c d : CPU} {k : Int}

/-- The thread `k` is being dispatched by the code at 780 to 796, or executes
`SYSCALL PRN`. -/
def Stamping (k : Int) (c : CPU) : Prop :=
  (c.kernelMode = true ∧ 780 ≤ c.cell 0 ∧ c.cell 0 ≤ 796 ∧ c.cell 23 = k)
    ∨ (c.kernelMode = false ∧ c.cell 22 = k ∧ c.halted = false ∧ ∃ instr, c.current = some instr
      ∧ instr.type = .SYSCALL ∧ instr.syscallType = some .PRN)

/-- The thread `k` was last dispatched, or last printed, at `e`: it is not again between `e`
and `c`, but at `c` it may be about to. -/
def LastStamped (k : Int) (e c : CPU) : Prop :=
  Stamping k e ∧ ∃ e₁ e₂,
    ReflTransGen (fun a b => CPU.step a = some b ∧ Stamping k a) e e₁
    ∧ ReflTransGen (fun a b => CPU.step a = some b ∧ ¬ Stamping k a) e₁ e₂
    ∧ ReflTransGen (fun a b => CPU.step a = some b ∧ Stamping k a) e₂ c

/-- The start time of the thread `k` is 0 or the instruction count when the thread was last
dispatched or last printed, and not in the future. -/
def Accounted (s : System) (k : Int) (c : CPU) : Prop :=
  (c.cell (startCell k) = 0 ∨ ∃ e, Reaches CPU.step s.boot e ∧ LastStamped k e c
      ∧ c.cell (startCell k) = e.cell 3)
    ∧ c.cell (startCell k) ≤ c.cell 3

/-! ### The first dispatch -/

/-- The first dispatch of a system with at least two threads stores 511 as the start time
of thread 1 when fewer than 100 instructions have been executed. -/
theorem first_dispatch (hn : 2 ≤ s.threads) :
  ∃ d, Reaches CPU.step s.boot d ∧ d.cell (startCell 1) = 511 ∧ d.cell 3 < 100
  := by
  obtain ⟨c₁, hstep, hr₁, -⟩ := s.entered_runs.step s.boot_loaded Kernel.step_scheduler
  have h23 : s.boot.cell 23 = 0 := s.boot_variable (by omega)
  have h24 : s.boot.cell 24 = 0 := s.boot_variable (by omega)
  have hstate : s.boot.cell (stateCell 1) = 0 := (s.boot_entry (by omega) (by omega)).1
  generalize hm₁ : Function.update s.boot.cell 23 (s.boot.cell 23 + 1) = m₁ at hr₁
  have hs₁ : SameButScan s.boot.cell m₁ := by
    rw [← hm₁]
    simp [SameButScan.refl]
  have hstate₁ : m₁ (stateCell 1) = 0 := by
    rw [hs₁ _ (by decide) (by decide) (by decide) (by decide), hstate]
  have h21₁ : m₁ 21 = s.threads := by
    rw [hs₁ 21 (by decide) (by decide) (by decide) (by decide), s.boot_threads]
  have h24₁ : m₁ 24 = 0 := by
    rw [hs₁ 24 (by decide) (by decide) (by decide) (by decide), h24]
  have h23₁ : m₁ 23 = 1 := by
    rw [← hm₁, Function.update_self, h23]
    rfl
  have hlead : Leads Kernel.step (Quiet AnyThread NoThread)
      (fun k => k.mem (startCell 1) = 511 ∧ k.clock < 100) ⟨701, 2, m₁⟩ := by
    apply Kernel.scan (j := 1) _ (by omega) (by omega) h24₁ (by omega)
    · intro t' m' _ ht' h23' h53 hm' _
      have hstate' : m' (stateCell 1) = 0 := by
        rw [hm' _ (by decide) (by decide) (by decide) (by decide), hstate₁]
      apply Kernel.switch_activate h23' (by omega) (by omega) h53 _ id
      · intro t'' m'' _ ht'' _ hm''
        apply Leads.here
        constructor
        · change m'' (startCell 1) = 511
          rw [hm'' _ (by decide), Function.update_self]
          rfl
        · change t'' < 100
          omega
      · intro _
        rw [hstate']
        decide
    · intro t' m' _ _ _ h
      omega
    · intro t' m' _ _ _ _ _ _ h
      omega
    · rw [h23₁, h21₁]
      apply if_pos
      omega
  obtain ⟨d, hreach, k, hrd, hstart, hclock⟩ := (hr₁.leads s.boot_loaded hlead).reaches
  use d, Reaches.head s.boot_step (Reaches.head hstep hreach)
  constructor
  · rw [hrd.cell_mem (cell_startCell (by omega) (by omega)), hstart]
  · rw [hrd.clock]
    apply hclock

/-! ### A single thread -/

/-- No thread has been dispatched. -/
structure Unstarted (c : CPU) : Prop where
  start : c.cell (startCell 1) = 0
  clock : 0 ≤ c.cell 3

theorem Unstarted.accounted (h : Unstarted c) :
  Accounted s 1 c
  := by
  constructor
  · exact .inl h.start
  · rw [h.start]
    apply h.clock

theorem Unstarted.kernelStep (h : Unstarted c) (hstep : KernelStep AnyThread AnyThread c d) :
  Unstarted d
  := by
  constructor
  · rw [hstep.start 1 (by decide) (by decide) trivial, h.start]
  · rw [hstep.clock]
    have := h.clock
    omega

theorem Unstarted.bumped (h : Unstarted c) :
  Unstarted c.bumped
  := by
  constructor
  · rw [cell_bumped_of_ne (by decide) (by decide) (by unfold startCell; omega), h.start]
  · rw [cell_bumped_of_ne (by decide) (by decide) (by omega)]
    apply h.clock

/-- Halting at the end of the system dispatches no thread. -/
theorem Unstarted.ending (h : Unstarted c) (hc : Ending c) (hstep : c.step = some d) :
  Unstarted d
  := by
  obtain hh | ⟨c₀, k, hl, hr, hpc⟩ := hc
  · obtain ⟨-, rfl⟩ | ⟨hh', -⟩ | ⟨instr, hh', -⟩ := CPU.step_cases hstep
    · apply h.bumped
    · rw [hh] at hh'
      cases hh'
    · rw [hh] at hh'
      cases hh'
  · have hb := h.bumped
    rw [hr.halts hl (hpc ▸ rfl) hstep]
    constructor
    · rw [CPU.cell_advance _ _ (by decide) (by decide) (by decide) (by decide)]
      apply hb.start
    · have hclock := hb.clock
      have hcount := CPU.cell_INSTR_COUNT_advance ({ c.bumped with halted := true } : CPU) k.pc
      change CPU.cell _ 3 = c.bumped.cell 3 + 1 at hcount
      omega

/-- In a system with a single thread no thread is ever dispatched. -/
theorem unstarted_of_reaches (hn : s.threads = 1) (h : Reaches CPU.step s.boot c) :
  Unstarted c
  := by
  have hboot : Unstarted s.boot := by
    constructor
    · apply (s.boot_entry (by decide) (by decide)).2.1
    · rw [s.boot_registers.2]
  have hentered : Unstarted s.entered := by
    constructor
    · apply (entered_entry s (by decide) (by decide)).2.1
    · rw [s.entered_runs.clock]
      exact Int.one_nonneg
  have hschedulable := schedulable_entered s (by omega) (by omega)
  have hlead : Leads CPU.step (fun c _ => Unstarted c)
      (fun c => Unstarted c ∧ (c = s.boot ∨ c = s.entered ∨ Ending c)) c := by
    apply Reaches.leads _ ⟨hboot, .inl rfl⟩ h
    rintro c d ⟨hc, rfl | rfl | hend⟩ hstep
    · obtain rfl : s.entered = d := Option.some_inj.mp (s.boot_step.symm.trans hstep)
      exact ⟨hc, .here ⟨hentered, .inr (.inl rfl)⟩⟩
    · use hc
      obtain ⟨c₁, hstep₁, hr₁, -⟩ := s.entered_runs.step s.boot_loaded Kernel.step_scheduler
      obtain rfl : c₁ = d := Option.some_inj.mp (hstep₁.symm.trans hstep)
      have hd : Unstarted c₁ := by
        constructor
        · rw [hr₁.cell_mem (cell_startCell (by decide) (by decide))]
          change Function.update s.boot.cell 23 (s.boot.cell 23 + 1) (startCell 1) = 0
          rw [Function.update_of_ne (by decide), hboot.start]
        · rw [hr₁.clock]
          change (0 : Int) ≤ 1 + 1
          decide
      apply ((hschedulable.ends (by omega) hstep).stable (I := Unstarted)
        (fun _ _ hu _ hst => hu.kernelStep hst) hd).mono
      · rintro a b ⟨-, ha⟩
        exact ha
      · rintro a ⟨ha, hu⟩
        exact ⟨hu, .inr (.inr ha)⟩
    · exact ⟨hc, .here ⟨hc.ending hend hstep, .inr (.inr (.inl (hend.step hstep)))⟩⟩
  cases hlead with
  | here h => exact h.1
  | next _ h _ => exact h

/-- The start times are accounted for over all runs of a system exactly when it has at most
one thread. -/
theorem start_times_accounted_iff (s : System) :
  (∀ c, Reaches CPU.step s.boot c → ∀ k, 1 ≤ k → k ≤ s.threads → Accounted s k c)
    ↔ s.threads ≤ 1
  := by
  constructor
  · intro h
    by_contra hn
    obtain ⟨d, hreach, hstart, hclock⟩ := first_dispatch (s := s) (by omega)
    have := (h d hreach 1 (by decide) (by omega)).2
    omega
  · intro hn c hreach k hk hk'
    obtain rfl : k = 1 := by omega
    apply (unstarted_of_reaches (by omega) hreach).accounted

/-- With two threads the start time of the first is in the future once it is dispatched. -/
theorem start_time_not_accounted :
  ¬ ∀ c, Reaches CPU.step (idle 2).boot c → ∀ k, 1 ≤ k → k ≤ 2 → Accounted (idle 2) k c
  := by
  intro h
  obtain ⟨d, hreach, hstart, hclock⟩ := first_dispatch (s := idle 2) (by decide)
  have := (h d hreach 1 (by decide) (by decide)).2
  omega

end OperatingSystem
