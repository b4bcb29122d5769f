import Homeworks.OperatingSystem.Scheduler

/-!
# The scheduler dispatches a thread

A visit of the scheduler goes from its entrance, at address 700, to the end of the context
switch or back to the entrance.  With at least two threads, one of which has not
terminated, the visits end with a dispatch: the elapsed time of the thread grows from one
examination to the next.  With a single thread the safety counter halts the CPU.
-/

open Simulator StateTransition Transition Relation

namespace OperatingSystem

/-- A step that does not leave the entrance of the scheduler. -/
def Onward (c c' : CPU) : Prop := c.step = some c' ∧ c.cell 0 ≠ 700

/-- From the entrance `c` of the scheduler the run goes to `d` without returning to it. -/
def Visit (c d : CPU) : Prop := ∃ c', c.step = some c' ∧ ReflTransGen Onward c' d

/-- On the way from `c` to `d` the time elapsed for the thread `j` is examined, and
satisfies `p`. -/
def Elapsed (j : Int) (p : Int → Prop) (c d : CPU) : Prop :=
  ∃ e, Visit c e ∧ ReflTransGen Onward e d ∧ e.cell 0 = 756
    ∧ p (e.cell 3 - e.cell (startCell j))

/-- The thread `j` is ready, or blocked for at least 100 instructions. -/
def Fit (j : Int) (c d : CPU) : Prop :=
  c.cell (stateCell j) = 0 ∨ (c.cell (stateCell j) = 2 ∧ Elapsed j (fun x => 100 ≤ x) c d)

/-- The thread `j` is terminated, or blocked for less than 100 instructions. -/
def Unfit (j : Int) (c d : CPU) : Prop :=
  c.cell (stateCell j) = 3 ∨ (c.cell (stateCell j) = 2 ∧ Elapsed j (fun x => x < 100) c d)

/-- The CPU is at the entrance of the scheduler. -/
structure AtScheduler (c : CPU) : Prop where
  kernelMode : c.kernelMode = true
  halted : c.halted = false
  pc : c.cell 0 = 700

/-- The CPU is at the end of the context switch to the thread `k`. -/
structure Dispatched (k : Int) (d : CPU) : Prop where
  kernelMode : d.kernelMode = true
  halted : d.halted = false
  pc : d.cell 0 = 796
  running : d.cell 22 = k
  cursor : d.cell 23 = k

/-- The visits from `c` skip threads in their cyclic order until the thread `k` is
dispatched at `d`. -/
inductive Scan (n : Int) : CPU → Int → CPU → Prop where
  | select {c d : CPU} (visit : Visit c d) (fit : Fit (next n (c.cell 23)) c d)
      (dispatched : Dispatched (next n (c.cell 23)) d) : Scan n c (next n (c.cell 23)) d
  | skip {c c' d : CPU} {k : Int} (visit : Visit c c') (unfit : Unfit (next n (c.cell 23)) c c')
      (entrance : AtScheduler c') (cursor : c'.cell 23 = next n (c.cell 23))
      (scan : Scan n c' k d) : Scan n c k d

/-- The circumstances in which the scheduler is entered. -/
structure Schedulable (n : Int) (c : CPU) : Prop extends AtScheduler c where
  loaded : Loaded c
  threads : c.cell 21 = n
  cursor : 0 ≤ c.cell 23 ∧ c.cell 23 ≤ n
  flag : c.cell 24 = 0
  states : ∀ j, 1 ≤ j → j ≤ n →
    c.cell (stateCell j) = 0 ∨ c.cell (stateCell j) = 2 ∨ c.cell (stateCell j) = 3

/-! ### From the kernel to the CPU -/

variable {c₀ c d : CPU} {k : Kernel} {n j : Int}

theorem Visit.trans (h : Visit c d) {e : CPU} (h' : ReflTransGen Onward d e) :
  Visit c e
  := by
  obtain ⟨c', hstep, hpath⟩ := h
  use c', hstep, hpath.trans h'

theorem Visit.reaches (h : Visit c d) :
  Reaches CPU.step c d
  := by
  obtain ⟨c', hstep, hpath⟩ := h
  apply Reaches.head hstep (Reaches.of_path (fun _ _ hst => hst.1) hpath)

theorem Runs.onward {T S : Int → Prop} {P : Kernel → Prop} (hl : Loaded c₀) (h : Runs c₀ c k)
    (hk : Leads Kernel.step (Quiet T S) P k) :
  ∃ d k', ReflTransGen Onward c d ∧ Runs c₀ d k' ∧ P k'
  := by
  obtain ⟨d, hpath, k', hr, hP⟩ := (h.leads hl hk).path
  have hle : (fun s t => CPU.step s = some t ∧ KernelStep T S s t) ≤ Onward := by
    intro s t hst
    exact ⟨hst.1, hst.2.pc.1⟩
  use d, k', ReflTransGen.mono hle _ _ hpath, hr, hP

/-- The context switch is carried out. -/
theorem Runs.dispatched (hl : Loaded c₀) (h : Runs c₀ c k) (hpc : k.pc = 780)
    (hj : k.mem 23 = j) (hj₁ : 1 ≤ j) (hj' : j ≤ 10) (hbase : k.mem 53 = 500 + 10 * j)
    (hstate : k.mem (stateCell j) ≠ 3) :
  ∃ d, ReflTransGen Onward c d ∧ Dispatched j d
  := by
  obtain ⟨pc, t, m⟩ := k
  obtain rfl : pc = 780 := hpc
  have hlead : Leads Kernel.step (Quiet AnyThread NoThread) (fun k' => k'.pc = 796
    ∧ Kernel.Switched j m k'.mem)
      ⟨780, t, m⟩ := by
    apply Kernel.switch hj hj₁ hj' hbase (fun _ => hstate) id
    intro t' m' _ hsw
    apply Leads.here ⟨rfl, hsw⟩
  obtain ⟨d, k', hpath, hr, hpc, hsw⟩ := h.onward hl hlead
  use d, hpath
  have hcells : (23 : Int) ≠ stateCell j ∧ (23 : Int) ≠ startCell j := by
    unfold stateCell startCell
    omega
  constructor
  · apply hr.kernelMode
  · apply hr.halted
  · rw [hr.pc, hpc]
  · rw [hr.mem (by decide) (by decide) (by decide) (by decide), hsw.running]
  · rw [hr.mem (by decide) (by decide) (by decide) (by decide), hsw.frame 23 (by decide) (by decide)
      (by decide) (by decide) (by decide) hcells.1 hcells.2]
    apply hj

/-! ### A visit of the scheduler -/

/-- What an examination of the thread `j`, in the memory `m`, can come to. -/
inductive Examination (j : Int) (m : Int → Int) (k : Kernel) : Prop where
  | ready (pc : k.pc = 780) (base : k.mem 53 = 500 + 10 * j) (state : m (stateCell j) = 0)
  | terminated (pc : k.pc = 700) (state : m (stateCell j) = 3)
  | blocked (pc : k.pc = 756) (base : k.mem 52 = 500 + 10 * j) (start : k.mem 53 = startCell j)
      (time : k.mem 54 = m (startCell j)) (state : m (stateCell j) = 2)

theorem Schedulable.scan (h : Schedulable n c) (hn : 2 ≤ n) (hn' : n ≤ 9) :
  ∃ d k, Visit c d ∧ Runs c d k ∧ c.cell 3 < k.clock ∧ k.mem 23 = next n (c.cell 23)
    ∧ SameButScan c.cell k.mem ∧ Examination (next n (c.cell 23)) c.cell k
  := by
  obtain ⟨hj₁, hj'⟩ := next_bounds (n := n) (by omega) h.cursor.1
  have hr := runs_ofCPU h.kernelMode h.halted
  have hk : Kernel.ofCPU c = ⟨700, c.cell 3, c.cell⟩ := by rw [Kernel.ofCPU, h.pc]
  rw [hk] at hr
  obtain ⟨c₁, hstep, hr₁, -⟩ := hr.step h.loaded Kernel.step_scheduler
  generalize hm₁ : Function.update c.cell 23 (c.cell 23 + 1) = m₁ at hr₁
  have hs₁ : SameButScan c.cell m₁ := by
    rw [← hm₁]
    simp [SameButScan.refl]
  have hstart : m₁ (startCell (next n (c.cell 23))) = c.cell (startCell (next n (c.cell 23))) := by
    unfold startCell
    apply hs₁ <;> omega
  have hstate : m₁ (stateCell (next n (c.cell 23))) = c.cell (stateCell (next n (c.cell 23))) := by
    unfold stateCell
    apply hs₁ <;> omega
  have hj : (if m₁ 23 ≤ m₁ 21 then m₁ 23 else 1) = next n (c.cell 23) := by
    rw [← hm₁]
    simp [h.threads, next]
  have h24 : m₁ 24 = 0 := by rw [hs₁ 24 (by omega) (by omega) (by omega) (by omega), h.flag]
  have h21 : 1 < m₁ 21 := by
    rw [hs₁ 21 (by omega) (by omega) (by omega) (by omega), h.threads]
    omega
  have hstates := h.states _ hj₁ hj'
  have hlead : Leads Kernel.step (Quiet AnyThread NoThread) (fun k => c.cell 3 < k.clock ∧
      k.mem 23 = next n (c.cell 23) ∧ SameButScan c.cell k.mem
        ∧ Examination (next n (c.cell 23)) c.cell k) ⟨701, c.cell 3 + 1, m₁⟩ := by
    apply Kernel.scan hj hj₁ (by omega) h24 h21
    · intro t' m' ht _ h23 h53 hm' hle
      rw [hstate] at hle
      apply Leads.here ⟨by change _ < t'; omega, h23, hs₁.trans hm', .ready rfl h53 (by omega)⟩
    · intro t' m' ht h23 hm' hs
      rw [hstate] at hs
      apply Leads.here ⟨by change _ < t'; omega, h23, hs₁.trans hm', .terminated rfl (by omega)⟩
    · intro t' m' ht h23 hm' h52 h53 h54 hs
      rw [hstate] at hs
      rw [hstart] at h54
      apply Leads.here ⟨by change _ < t'; omega, h23, hs₁.trans hm', .blocked rfl h52 h53 h54 hs⟩
  obtain ⟨d, k, hpath, hrd, hP⟩ := hr₁.onward h.loaded hlead
  use d, k, ⟨c₁, hstep, hpath⟩, hrd, hP.1, hP.2.1, hP.2.2.1, hP.2.2.2

/-- The circumstances are the same when the scheduler is entered again. -/
theorem Schedulable.again (h : Schedulable n c) (hr : Runs c d k) (hpc : k.pc = 700)
    (hm : SameButScan c.cell k.mem) (h23 : 0 ≤ k.mem 23 ∧ k.mem 23 ≤ n) (hn : n ≤ 9) :
  Schedulable n d ∧ ∀ j, 1 ≤ j → j ≤ n → d.cell (stateCell j) = c.cell (stateCell j)
    ∧ d.cell (startCell j) = c.cell (startCell j)
  := by
  have hlow : ∀ a, 3 < a → a < 50 → a ≠ 23 → a ≠ 25 → a ≠ 26 → d.cell a = c.cell a := by
    intro a ha ha' h₁ h₂ h₃
    rw [hr.mem (by omega) (by omega) (by omega) (by omega), hm a (by omega) h₁ h₂ h₃]
  have htable : ∀ a, 502 < a → a < 1000 → d.cell a = c.cell a := by
    intro a ha ha'
    rw [hr.mem (by omega) (by omega) (by omega) (by omega),
      hm a (by omega) (by omega) (by omega) (by omega)]
  have hcells : ∀ j, 1 ≤ j → j ≤ n → d.cell (stateCell j) = c.cell (stateCell j)
      ∧ d.cell (startCell j) = c.cell (startCell j) := by
    intro j hj hj'
    constructor
    · apply htable <;> unfold stateCell <;> omega
    · apply htable <;> unfold startCell <;> omega
  refine ⟨⟨⟨hr.kernelMode, hr.halted, ?_⟩, ?_, ?_, ?_, ?_, ?_⟩, hcells⟩
  · rw [hr.pc, hpc]
  · intro a instr hcode
    rw [hr.instructions, h.loaded a instr hcode]
  · rw [hlow 21 (by omega) (by omega) (by omega) (by omega) (by omega), h.threads]
  · rw [hr.mem (by omega) (by omega) (by omega) (by omega)]
    apply h23
  · rw [hlow 24 (by omega) (by omega) (by omega) (by omega) (by omega), h.flag]
  · intro j hj hj'
    rw [(hcells j hj hj').1]
    apply h.states j hj hj'

/-- The outcome of a visit that skips the thread `j`. -/
structure Skipped (n j : Int) (c d : CPU) : Prop where
  visit : Visit c d
  unfit : Unfit j c d
  again : Schedulable n d
  cursor : d.cell 23 = j
  clock : c.cell 3 < d.cell 3
  states : ∀ i, 1 ≤ i → i ≤ n → d.cell (stateCell i) = c.cell (stateCell i)
    ∧ d.cell (startCell i) = c.cell (startCell i)
  waiting : c.cell (stateCell j) = 2 → c.cell 3 - c.cell (startCell j) < 100

/-- A visit dispatches the next thread, or skips it. -/
theorem Schedulable.visit (h : Schedulable n c) (hn : 2 ≤ n) (hn' : n ≤ 9) :
  (∃ d, Visit c d ∧ Fit (next n (c.cell 23)) c d ∧ Dispatched (next n (c.cell 23)) d)
    ∨ (∃ d, Skipped n (next n (c.cell 23)) c d)
  := by
  obtain ⟨hj₁, hj'⟩ := next_bounds (n := n) (by omega) h.cursor.1
  obtain ⟨d, k, hvisit, hr, hclock, h23, hm, hexam⟩ := h.scan hn hn'
  generalize next n (c.cell 23) = j at *
  have hstate : k.mem (stateCell j) = c.cell (stateCell j) := by
    unfold stateCell
    apply hm <;> omega
  have hstart : k.mem (startCell j) = c.cell (startCell j) := by
    unfold startCell
    apply hm <;> omega
  have hcursor : 0 ≤ k.mem 23 ∧ k.mem 23 ≤ n := by omega
  cases hexam with
  | ready pc base state =>
      left
      obtain ⟨e, hpath, hd⟩ := hr.dispatched h.loaded pc h23 hj₁ (by omega) base (by omega)
      exact ⟨e, hvisit.trans hpath, .inl state, hd⟩
  | terminated pc state =>
      right
      obtain ⟨hagain, hcells⟩ := h.again hr pc hm hcursor hn'
      use d
      constructor
      · apply hvisit
      · apply Or.inl state
      · apply hagain
      · rw [hr.mem (by decide) (by decide) (by decide) (by decide), h23]
      · rw [hr.clock]
        apply hclock
      · apply hcells
      · omega
  | blocked pc base start time state =>
      obtain ⟨pc₀, t, m⟩ := k
      obtain rfl : pc₀ = 756 := pc
      have hdstart : d.cell (startCell j) = c.cell (startCell j) := by
        have hcell := cell_startCell hj₁ (show j ≤ 10 by omega)
        rw [hr.mem hcell.1 hcell.2.1 hcell.2.2.1 hcell.2.2.2, hstart]
      have h24 : m 24 = 0 := (hm 24 (by omega) (by omega) (by omega) (by omega)).trans h.flag
      have hlead : Leads Kernel.step (Quiet AnyThread NoThread) (fun k' => t < k'.clock
        ∧ k'.mem 23 = j
          ∧ SameButScan c.cell k'.mem
          ∧ ((k'.pc = 780 ∧ k'.mem 53 = 500 + 10 * j ∧ 100 ≤ t - c.cell (startCell j))
            ∨ (k'.pc = 700 ∧ t - c.cell (startCell j) < 100))) ⟨756, t, m⟩ := by
        apply Kernel.elapsed hj₁ (by omega) h24 base start
        · intro t' m' ht h23' h53 hm' hle
          apply Leads.here ⟨ht, h23'.trans h23, hm.trans hm', .inl ⟨rfl, h53, time ▸ hle⟩⟩
        · intro t' m' ht h23' hm' hlt
          apply Leads.here ⟨ht, h23'.trans h23, hm.trans hm', .inr ⟨rfl, time ▸ hlt⟩⟩
      obtain ⟨e, k', hpath, hr', hclock', h23', hm', ⟨hpc, hbase, hdue⟩ | ⟨hpc, hwait⟩⟩ :=
        hr.onward h.loaded hlead
      · left
        have hstate' : k'.mem (stateCell j) = c.cell (stateCell j) := by
          unfold stateCell
          apply hm' <;> omega
        obtain ⟨e', hpath', hd⟩ :=
          hr'.dispatched h.loaded hpc h23' hj₁ (by omega) hbase (by omega)
        refine ⟨e', (hvisit.trans hpath).trans hpath', .inr ⟨state, ?_⟩, hd⟩
        use d, hvisit, hpath.trans hpath', hr.pc
        rw [hr.clock, hdstart]
        apply hdue
      · right
        obtain ⟨hagain, hcells⟩ := h.again hr' hpc hm' (by omega) hn'
        use e
        constructor
        · apply hvisit.trans hpath
        · refine .inr ⟨state, d, hvisit, hpath, hr.pc, ?_⟩
          rw [hr.clock, hdstart]
          apply hwait
        · apply hagain
        · rw [hr'.mem (by decide) (by decide) (by decide) (by decide), h23']
        · rw [hr'.clock]
          apply hclock.trans hclock'
        · apply hcells
        · intro _
          change c.cell 3 < t at hclock
          omega

/-! ### The scheduler dispatches -/

/-- How long the thread `i` can still be passed over: first by the time its block lasts,
then by the distance of the cursor. -/
def remaining (n i : Int) (c : CPU) : Int :=
  10 * max 0 (100 - (c.cell 3 - c.cell (startCell i)))
    + (if c.cell 23 < i then i - c.cell 23 - 1 else n - c.cell 23 + i - 1)

theorem remaining_nonneg (hcursor : c.cell 23 ≤ n) {i : Int} (hi : 1 ≤ i) :
  0 ≤ remaining n i c
  := by
  unfold remaining
  split <;> omega

/-- Skipping a thread brings the turn of every thread that has not terminated closer. -/
theorem Skipped.remaining_lt (h : Skipped n (next n (c.cell 23)) c d)
    (hcursor : 0 ≤ c.cell 23 ∧ c.cell 23 ≤ n) (hn' : n ≤ 9) {i : Int} (hi : 1 ≤ i) (hi' : i ≤ n)
    (hstate : c.cell (stateCell i) ≠ 3) :
  remaining n i d < remaining n i c
  := by
  have hclock := h.clock
  have hstart := (h.states i hi hi').2
  have hd := h.cursor
  have hwait := h.waiting
  have hunfit := h.unfit
  unfold remaining
  by_cases hij : next n (c.cell 23) = i
  · have hblocked : c.cell (stateCell i) = 2 := by
      rw [hij] at hunfit
      obtain h3 | ⟨h2, -⟩ := hunfit
      · exact absurd h3 hstate
      · apply h2
    rw [hij] at hwait hd
    have := hwait hblocked
    unfold next at hij
    split at hij <;> split <;> split <;> omega
  · unfold next at hij hd
    split at hij <;> split <;> split <;> omega

/-- With at least two threads, one of which has not terminated, a thread is dispatched. -/
theorem Schedulable.dispatches (h : Schedulable n c) (hn : 2 ≤ n) (hn' : n ≤ 9) {i : Int}
    (hi : 1 ≤ i) (hi' : i ≤ n) (hstate : c.cell (stateCell i) ≠ 3) :
  ∃ k d, 1 ≤ k ∧ k ≤ n ∧ Scan n c k d
  := by
  generalize hμ : (remaining n i c).toNat = μ
  induction μ using Nat.strong_induction_on generalizing c with
  | _ μ ih =>
      obtain ⟨hj₁, hj'⟩ := next_bounds (n := n) (by omega) h.cursor.1
      obtain ⟨d, hvisit, hfit, hd⟩ | ⟨d, hskip⟩ := h.visit hn hn'
      · use next n (c.cell 23), d, hj₁, hj'
        apply Scan.select hvisit hfit hd
      · have hlt := hskip.remaining_lt h.cursor hn' hi hi' hstate
        have h₀ := remaining_nonneg hskip.again.cursor.2 hi
        have hstate' : d.cell (stateCell i) ≠ 3 := by
          rw [(hskip.states i hi hi').1]
          apply hstate
        obtain ⟨k, e, hk, hk', hscan⟩ :=
          ih (remaining n i d).toNat (by omega) hskip.again hstate' rfl
        use k, e, hk, hk'
        apply Scan.skip hskip.visit hskip.unfit hskip.again.toAtScheduler hskip.cursor hscan

/-! ### A single thread -/

/-- The CPU is halted, or about to be by the instruction at 902. -/
def Ending (d : CPU) : Prop :=
  d.halted = true ∨ ∃ c₀ k, Loaded c₀ ∧ Runs c₀ d k ∧ k.pc = 902

/-- With a single thread the scheduler arrives at the end of the system. -/
theorem Schedulable.ends (h : Schedulable n c) (hn : n ≤ 1) {c₁ : CPU} (hstep : c.step = some c₁) :
  Leads CPU.step (KernelStep AnyThread AnyThread) Ending c₁
  := by
  have hr := runs_ofCPU h.kernelMode h.halted
  have hk : Kernel.ofCPU c = ⟨700, c.cell 3, c.cell⟩ := by rw [Kernel.ofCPU, h.pc]
  rw [hk] at hr
  obtain ⟨c₂, hstep', hr₁, -⟩ := hr.step h.loaded Kernel.step_scheduler
  cases hstep.symm.trans hstep'
  have hlead : Leads Kernel.step (Quiet AnyThread AnyThread) (fun k => k.pc = 902)
      ⟨701, c.cell 3 + 1, Function.update c.cell 23 (c.cell 23 + 1)⟩ := by
    apply Kernel.scan_wrap
    · simp [h.flag]
    · intro t' m' _ _ _ hm'
      have h21 : m' 21 = n := by
        rw [hm' 21 (by omega) (by omega) (by omega) (by omega)]
        simp [h.threads]
      apply Kernel.scan_safety
      · rw [hm' 24 (by omega) (by omega) (by omega) (by omega)]
        simp [h.flag]
      · intro t'' m'' _ _ _ _ hlt
        omega
      · intro t'' m'' _ _ _
        exact Leads.here rfl
  apply (hr₁.leads h.loaded hlead).mono (fun _ _ h => h)
  rintro d ⟨k, hrd, hpc⟩
  exact .inr ⟨c, k, h.loaded, hrd, hpc⟩

/-- An instruction `HLT` of the kernel. -/
theorem Runs.halts (hl : Loaded c₀) (h : Runs c₀ c k) (hcode : kernelCode k.pc = some (.of .HLT []))
    (hstep : c.step = some d) :
  d = ({ c.bumped with halted := true } : CPU).advance k.pc
  := by
  rw [CPU.step, h.execute hl hcode] at hstep
  cases hstep
  rfl

/-- The end of the system halts the CPU. -/
theorem Ending.step (h : Ending c) (hstep : c.step = some d) :
  d.halted = true
  := by
  obtain hh | ⟨c₀, k, hl, hr, hpc⟩ := h
  · obtain ⟨-, rfl⟩ | ⟨hh', -⟩ | ⟨instr, hh', -⟩ := CPU.step_cases hstep
    · rw [CPU.bumped_halted, hh]
    · rw [hh] at hh'
      cases hh'
    · rw [hh] at hh'
      cases hh'
  · rw [hr.halts hl (hpc ▸ rfl) hstep, (CPU.advance_fields _ _).2.1]

theorem Scan.reaches {k : Int} (h : Scan n c k d) :
  Reaches CPU.step c d ∧ Dispatched k d
  := by
  induction h with
  | select visit _ dispatched => exact ⟨visit.reaches, dispatched⟩
  | skip visit _ _ _ _ ih => exact ⟨visit.reaches.trans ih.1, ih.2⟩

/-- With a single thread no thread is dispatched. -/
theorem Schedulable.not_dispatched (h : Schedulable n c) (hn : n ≤ 1) {k : Int}
    (hreach : Reaches CPU.step c d) :
  ¬ Dispatched k d
  := by
  have hc : ¬ Dispatched k c := by
    intro hd
    have h700 := h.pc
    rw [hd.pc] at h700
    cases h700
  have hending : ∀ d, Ending d → ¬ Dispatched k d := by
    rintro d (hh | ⟨c₀, k₀, -, hr, hpc⟩) hd
    · rw [hd.halted] at hh
      cases hh
    · have h902 := hr.pc
      rw [hd.pc, hpc] at h902
      cases h902
  have hlead : Leads CPU.step (fun s _ => ¬ Dispatched k s) (fun s => s = c ∨ Ending s) d := by
    apply Reaches.leads _ (.inl rfl) hreach
    intro s t hs hst
    obtain rfl | hs := hs
    · use hc
      apply (h.ends hn hst).mono
      · intro a b hab hd
        apply hab.pc.2.2.1 hd.pc
      · intro a ha
        exact .inr ha
    · use hending s hs
      exact .here (.inr (.inl (hs.step hst)))
  cases hlead with
  | here hs =>
      obtain rfl | hs := hs
      · apply hc
      · apply hending d hs
  | next _ hd _ => apply hd

/-- The scheduler dispatches a thread that is ready or blocked for long enough, after
skipping threads that are not, exactly when there are at least two threads. -/
theorem scheduler_dispatches_iff (h : Schedulable n c) (hn : 1 ≤ n) (hn' : n ≤ 9)
    (hsome : ∃ i, 1 ≤ i ∧ i ≤ n ∧ c.cell (stateCell i) ≠ 3) :
  (∃ k d, 1 ≤ k ∧ k ≤ n ∧ Scan n c k d) ↔ 2 ≤ n
  := by
  constructor
  · rintro ⟨k, d, -, -, hscan⟩
    by_contra hlt
    obtain ⟨hreach, hd⟩ := hscan.reaches
    apply h.not_dispatched (by omega) hreach hd
  · intro hn₂
    obtain ⟨i, hi, hi', hstate⟩ := hsome
    apply h.dispatches hn₂ hn' hi hi' hstate

theorem no_data :
  ∀ entry ∈ ([] : List (Int × Int)), 1000 ≤ entry.1 ∧ entry.1 < 10000
  := nofun

/-- A system without instructions and data for its threads. -/
def idle (n : Int) : System := ⟨n, fun _ => none, [], no_data⟩

theorem schedulable_entered (s : System) (h₀ : 0 ≤ s.threads) (h₉ : s.threads ≤ 9) :
  Schedulable s.threads s.entered
  := by
  have hr := s.entered_runs
  refine ⟨⟨hr.kernelMode, hr.halted, hr.pc⟩, ?_, ?_, ?_, ?_, ?_⟩
  · intro a instr hcode
    rw [hr.instructions, s.boot_loaded a instr hcode]
  · rw [s.entered_mem (by decide), s.boot_threads]
  · rw [s.entered_mem (by decide), s.boot_variable (by omega)]
    omega
  · rw [s.entered_mem (by decide), s.boot_variable (by omega)]
  · intro j hj hj'
    rw [s.entered_mem (cell_stateCell (by omega) (by omega)), (s.boot_entry hj (by omega)).1]
    exact .inl rfl

theorem entered_entry (s : System) {j : Int} (hj : 1 ≤ j) (hj' : j ≤ 10) :
  s.entered.cell (stateCell j) = 0 ∧ s.entered.cell (startCell j) = 0
    ∧ s.entered.cell (pcCell j) = 1000 * j
  := by
  obtain ⟨h₁, h₂, h₃, -⟩ := s.boot_entry hj hj'
  refine ⟨?_, ?_, ?_⟩
  · rw [s.entered_mem (cell_stateCell (by omega) hj'), h₁]
  · rw [s.entered_mem (cell_startCell hj hj'), h₂]
  · rw [s.entered_mem (cell_pcCell (by omega) hj'), h₃]

theorem scheduler_dispatches_iff_idle :
  (∃ k d, 1 ≤ k ∧ k ≤ 2 ∧ Scan 2 (idle 2).entered k d) ↔ (2 : Int) ≤ 2
  := by
  apply scheduler_dispatches_iff (schedulable_entered (idle 2) (by decide) (by decide))
    (by decide) (by decide)
  use 1, by decide, by decide
  rw [(entered_entry (idle 2) (by decide) (by decide)).1]
  decide

/-- The scheduler of a system with one thread, which is ready, dispatches no thread. -/
theorem single_thread_not_dispatched :
  ¬ ∀ (n : Int) (c : CPU), 1 ≤ n → n ≤ 9 → Schedulable n c →
      (∀ j, 1 ≤ j → j ≤ n → c.cell (startCell j) ≤ c.cell 3
        ∧ 1000 ≤ c.cell (pcCell j) ∧ c.cell (pcCell j) < 10000) →
      (∃ i, 1 ≤ i ∧ i ≤ n ∧ c.cell (stateCell i) ≠ 3) →
      ∃ k d, 1 ≤ k ∧ k ≤ n ∧ Scan n c k d
  := by
  intro h
  have hs : Schedulable 1 (idle 1).entered := schedulable_entered (idle 1) (by decide) (by decide)
  obtain ⟨k, d, -, -, hscan⟩ := h 1 (idle 1).entered (by decide) (by decide) hs
    (by
      intro j hj hj'
      obtain ⟨-, h₂, h₃⟩ := entered_entry (idle 1) hj (by omega)
      rw [h₂, h₃, (idle 1).entered_runs.clock]
      dsimp only
      omega)
    (by
      use 1, by decide, by decide
      rw [(entered_entry (idle 1) (by decide) (by decide)).1]
      decide)
  obtain ⟨hreach, hd⟩ := hscan.reaches
  apply hs.not_dispatched (by decide) hreach hd

end OperatingSystem
