import Homeworks.OperatingSystem.Isolation
import Mathlib.Algebra.Order.BigOperators.Group.Finset

/-!
# Systems whose threads complete

A thread that on its own completes by `SYSCALL HLT`, within its segment all the way, does so in
every system: the scheduler dispatches a thread as long as one has not terminated, and a step of a
thread leaves the others as they are.  When all have terminated the system ends, and what has been
observed of each thread is what the thread does on its own.
-/

open Simulator StateTransition Transition Relation

namespace OperatingSystem

variable {s : System} {k : Int} {c d : CPU} {m m' : Int → Int} {instr : Instruction}
  {l : List Event}

/-! ### A thread on its own -/

namespace Solo

/-- The instruction lies in the segment of the thread, and so do the cells that it accesses. -/
structure Within (k : Int) (m : Int → Int) (instr : Instruction) : Prop where
  code : InSegment k (m CPU.PC)
  data : ∀ a ∈ CPU.accesses m instr, InSegment k a

/-- From the memory `m` the thread executes a number of instructions, each of them within its
segment, and completes by `SYSCALL HLT`; this is observed. -/
inductive Completes (k : Int) (program : Int → Option Instruction) :
    ℕ → (Int → Int) → List Event → Prop where
  | halt {m : Int → Int} {instr : Instruction} (current : program (m CPU.PC) = some instr)
      (code : InSegment k (m CPU.PC)) (type : instr.type = .SYSCALL)
      (call : instr.syscallType = some .HLT) : Completes k program 1 m [⟨segment k m, []⟩]
  | next {n : ℕ} {m m' : Int → Int} {instr : Instruction} {l l' : List Event}
      (current : program (m CPU.PC) = some instr) (within : Within k m instr)
      (result : result k instr m = (l, some m')) (rest : Completes k program n m' l') :
      Completes k program (n + 1) m (l ++ l')

/-- What is left to be done by a thread with a memory, or by one that has ended. -/
inductive Remains (k : Int) (program : Int → Option Instruction) :
    ℕ → Option (Int → Int) → List Event → Prop where
  | ended : Remains k program 0 none []
  | living {n : ℕ} {m : Int → Int} {l : List Event} (h : Completes k program n m l) :
      Remains k program n (some m) l

section

variable {program : Int → Option Instruction} {n : ℕ}

theorem Completes.code (h : Completes k program n m l) :
  InSegment k (m CPU.PC)
  := by
  cases h with
  | halt _ code _ _ => exact code
  | next _ within _ _ => exact within.code

theorem Remains.toCompletes (h : Remains k program n (some m) l) :
  Completes k program n m l
  := by
  cases h with
  | living h => exact h

theorem Remains.nothing (h : Remains k program n none l) :
  l = []
  := by
  cases h with
  | ended => rfl

end

end Solo

/-! ### A step of the running thread -/

/-- The running thread has the memory `m`, and executes an instruction within its segment. -/
structure Executes (s : System) (c : CPU) (m : Int → Int) (instr : Instruction) : Prop where
  thread : InThread s c
  running : c.halted = false
  holds : Holds (c.cell 22) c m
  current : s.code (c.cell 22) (m CPU.PC) = some instr
  within : Solo.Within (c.cell 22) m instr

namespace Executes

theorem pc (h : Executes s c m instr) :
  c.cell 0 = m CPU.PC
  := h.holds _ (own_iff.mpr (.inl rfl))

theorem fetched (h : Executes s c m instr) :
  c.current = some instr
  := by
  have hcode := h.within.code
  have h₁ := h.thread.table.thread
  have hcurrent := h.current
  rw [System.code, if_pos hcode] at hcurrent
  unfold InSegment at hcode
  have hpc := h.pc
  rw [CPU.current, h.thread.instructions, hpc, sizeT_of_nonneg (by omega), System.instructionMap,
    if_neg (by omega), hcurrent]

theorem disciplined (h : Executes s c m instr) :
  Disciplined c
  := by
  constructor
  · rw [h.pc]
    apply h.within.code
  · intro instr' hi a ha
    cases h.fetched.symm.trans hi
    rw [CPU.accesses_congr (h.holds _ (own_iff.mpr (.inr (.inl rfl))))] at ha
    · apply h.within.data a ha
    · intro b hb
      apply h.holds b (own_iff.mpr (.inr (.inr (h.within.data b hb))))

theorem bounds (hn' : s.threads ≤ 9) (h : Executes s c m instr) :
  1 ≤ c.cell 22 ∧ c.cell 22 ≤ 9
  := ⟨h.thread.table.thread, h.thread.table.running.2.trans hn'⟩

/-- The step is what the handler of the instruction does. -/
theorem step_eq (hn' : s.threads ≤ 9) (h : Executes s c m instr)
    {r : EStateM.Result Stop CPU Unit}
    (hr : (CPU.instructionHandlers instr.type instr).run c.bumped = r)
    (hfinish : CPU.finish (c.cell CPU.PC) r = .ok () d) :
  c.step = some d
  := by
  obtain ⟨h₁, h₁'⟩ := h.bounds hn'
  have hcount : c.InSegment → sizeT c.countAddr < 10000 := by
    intro _
    apply (countAddr_bounds h₁ (by omega)).1
  rw [CPU.step, CPU.step_of_current hcount h.running h.fetched, hr, hfinish]

/-- An instruction other than a system call that the thread does not end by is carried out. -/
theorem steps (hn' : s.threads ≤ 9) (h : Executes s c m instr) (hcall : instr.type ≠ .SYSCALL)
    (hresult : Solo.result (c.cell 22) instr m = (l, some m')) :
  l = [] ∧ ∃ d, c.step = some d ∧ d.halted = false
  := by
  obtain ⟨h₁, h₁'⟩ := h.bounds hn'
  have hu := h.thread.kernelMode
  have hbumped : c.bumped.halted = false := c.bumped_halted.trans h.running
  by_cases hp : CPU.Plain instr
  · have heffect := effect_disciplined hu h₁ h₁' h.disciplined h.fetched h.holds
    have hrun := CPU.handler_run c.bumped instr hp
    rw [heffect] at hrun
    obtain ⟨hH, hU, hS⟩ := hp
    unfold Solo.result at hresult
    split at hresult
    · contradiction
    · contradiction
    · contradiction
    · split at hresult
      · rename_i stores he
        rw [he] at hrun
        cases hresult
        refine ⟨rfl, _, h.step_eq hn' hrun rfl, ?_⟩
        rw [(CPU.advance_fields _ _).2.1, (CPU.setAll_fields _ _).2.1, hbumped]
      · cases hresult
  · cases ht : instr.type with
    | HLT =>
        simp only [Solo.result, ht] at hresult
        cases hresult
    | SYSCALL => exact absurd ht hcall
    | USER =>
        simp only [Solo.result, ht] at hresult
        have hhandler : (CPU.instructionHandlers instr.type instr).run c.bumped
            = (CPU.executeUSER instr).run c.bumped := by rw [ht, CPU.instructionHandlers]
        by_cases hl : instr.operands.length = 1
        · obtain ⟨a, ha⟩ := List.length_eq_one_iff.mp hl
          rw [ha] at hresult
          dsimp only at hresult
          split at hresult
          · rename_i hv
            cases hresult
            have hown : InSegment (c.cell 22) a := by
              apply h.within.data
              simp [CPU.accesses, ht, ha]
            have hcell : c.bumped.cell a = m a :=
              h.holds.bumped h₁ h₁' rfl a (own_iff.mpr (.inr (.inr hown)))
            unfold InSegment at hown
            rw [CPU.executeUSER_one _ _ a ha, CPU.userResult,
              if_pos (sizeT_lt_iff.mpr ⟨by omega, by omega⟩), hcell,
              if_pos (isAddressValid_user.mpr hv)] at hhandler
            refine ⟨rfl, _, h.step_eq hn' hhandler rfl, ?_⟩
            rw [(CPU.advance_fields _ _).2.1]
            exact hbumped
          · cases hresult
        · rw [CPU.executeUSER_other _ _ hl] at hhandler
          split at hresult
          · rename_i a ha
            rw [ha] at hl
            exact absurd rfl hl
          · cases hresult
            refine ⟨rfl, _, h.step_eq hn' hhandler rfl, ?_⟩
            rw [(CPU.advance_fields _ _).2.1]
            exact hbumped
    | _ => exact absurd ⟨by simp [ht], by simp [ht], by simp [ht]⟩ hp

/-- `SYSCALL PRN` is carried out. -/
theorem prints (hn' : s.threads ≤ 9) (h : Executes s c m instr) (ht : instr.type = .SYSCALL)
    (hst : instr.syscallType = some .PRN) {a : Int} (ho : instr.operands[0]? = some a) :
  ∃ d, c.step = some d ∧ Printed a c d
  := by
  obtain ⟨h₁, h₁'⟩ := h.bounds hn'
  have ha := h.disciplined.operand h.fetched ht hst ho
  unfold InSegment at ha
  have hsize : ∀ b : Int, 0 ≤ b → b < 10000 → ¬ 10000 ≤ sizeT b := by
    intro b hb hb'
    rw [sizeT_of_nonneg hb]
    omega
  obtain ⟨e, he⟩ : ∃ e, (c.bumped.inMode true).prnResult instr = .ok () e := by
    rw [CPU.prnResult, (threadTable_bumped h₁ (by omega)).2,
      if_neg (hsize _ (by omega) (by omega)), if_neg (hsize _ (by omega) (by omega)), ho]
    dsimp only
    rw [if_neg (hsize _ (by omega) (by omega))]
    exact ⟨_, rfl⟩
  obtain ⟨d, hstep⟩ : ∃ d, c.step = some d := by
    refine ⟨_, h.step_eq hn' (r := .ok () e) ?_ rfl⟩
    rw [ht, CPU.instructionHandlers, CPU.executeSYSCALL_run, CPU.syscallResult, hst]
    exact he
  use d, hstep
  cases h.thread.threadStep hn' hstep with
  | stays _ call => exact absurd ⟨h.running, instr, h.fetched, ht⟩ call
  | prints instr' _ _ current _ _ operand printed =>
      cases h.fetched.symm.trans current
      cases ho.symm.trans operand
      exact printed
  | enters instr' _ _ current _ call ne _ =>
      cases h.fetched.symm.trans current
      cases hst.symm.trans call
      exact absurd rfl ne
  | stops instr' _ current _ call _ =>
      exfalso
      cases h.fetched.symm.trans current
      obtain ⟨call, -⟩ | ⟨b, -, operand, hb⟩ := call
      · cases hst.symm.trans call
      · cases ho.symm.trans operand
        apply hsize a (by omega) (by omega) hb

/-- The other system calls enter the kernel. -/
theorem enters (hn' : s.threads ≤ 9) (h : Executes s c m instr) (ht : instr.type = .SYSCALL)
    {st : SyscallType} (hst : instr.syscallType = some st) (hne : st ≠ .PRN) :
  ∃ d, Entered (handler st) c d
  := by
  obtain ⟨h₁, h₁'⟩ := h.bounds hn'
  have hcode := h.disciplined.code
  unfold InSegment at hcode
  have hhandler : handler st < 1000 := by
    cases st <;> decide
  apply entered_of_syscall (fun _ => (countAddr_bounds h₁ (by omega)).1) h.running h.fetched ht hst
    hne
  omega

end Executes

/-! ### The threads of a system -/

/-- A thread is to execute its next instruction, the scheduler is entered, or the system ends. -/
inductive Position (s : System) (c : CPU) : Prop where
  | thread (h : InThread s c) (running : c.halted = false)
  | entrance (h : AtEntrance s c)
  | last (h : AtEnd s c)

/-- From `c` the system has come to a position where the thread `k` is left with `y`, and the
other threads are as they were. -/
structure Outcome (s : System) (k : Int) (y : Option (Int → Int)) (c d : CPU) : Prop where
  position : Position s d
  self : View k d y
  others : ∀ j y', 1 ≤ j → j ≤ s.threads → j ≠ k → View j c y' → View j d y'

/-- A step in user mode does not concern the other threads. -/
theorem View.other (hn' : s.threads ≤ 9) (hh : c.halted = false)
    (h22 : d.cell 22 = c.cell 22)
    (hcell : ∀ a, CPU.KernelCell a → ¬ Touched c a → d.cell a = c.cell a)
    (huser : ∀ a, 1000 ≤ a → a < 10000 → ¬ InSegment (c.cell 22) a → d.cell a = c.cell a)
    {y : Option (Int → Int)} (hk : 1 ≤ k) (hk' : k ≤ s.threads) (hne : k ≠ c.cell 22)
    (hy : View k c y) :
  View k d y
  := by
  obtain ⟨hst, hsta, hpc, hsp, hin⟩ := entry_cells k
  obtain ⟨hst', hsta', -⟩ := entry_cells (c.cell 22)
  have hentry : ∀ a, InEntry k a → d.cell a = c.cell a := by
    intro a ha
    rw [hin] at ha
    apply hcell a ⟨by omega, by omega⟩
    unfold Touched
    omega
  apply hy.same hh (fun _ => hne.symm)
  · intro _
    rw [h22]
    apply hne.symm
  · rw [hentry _ ((hin _).mpr (by omega)), hentry _ ((hin _).mpr (by omega))]
    exact ⟨rfl, rfl⟩
  · rw [hentry _ ((hin _).mpr (by omega))]
  · intro a ha
    have hseg := id ha
    unfold InSegment at hseg
    apply huser a (by omega) (by omega)
    unfold InSegment
    omega

namespace Executes

variable (hn' : s.threads ≤ 9) (h : Executes s c m instr)

include hn' h

/-- An instruction other than a system call. -/
theorem outcome_plain (hcall : instr.type ≠ .SYSCALL)
    (hresult : Solo.result (c.cell 22) instr m = (l, some m')) :
  ∃ d, c.step = some d ∧ event (c.cell 22) c d = l ∧ Outcome s (c.cell 22) (some m') c d
  := by
  obtain ⟨rfl, d, hstep, hh⟩ := h.steps hn' hcall hresult
  have hcall' : ¬ c.AtSyscall := by
    rintro ⟨-, instr', hi, ht⟩
    cases h.fetched.symm.trans hi
    exact hcall ht
  use d, hstep, event_of_not_call hcall'
  have hcarried := h.thread.carried hn' h.disciplined h.running hcall' h.holds hstep
  cases h.thread.threadStep hn' hstep with
  | stays same call =>
      obtain ⟨hd, h22, -⟩ := h.thread.stays hn' same
      obtain ⟨instr', m'', hi, hresult', hm''⟩ := hcarried.memory hh
      cases h.fetched.symm.trans hi
      cases hresult.symm.trans hresult'
      use .thread hd hh
      · apply View.running hd.kernelMode h22 hm''
      · intro j y' hj hj' hne
        apply View.other hn' h.running h22 _ hcarried.frame hj hj' hne
        intro a ha hne
        unfold Touched at hne
        rw [same.cell a ha, CPU.cell_bumped_kernel c ha (by omega)]
  | prints instr' _ running current type | enters instr' _ running current type
      | stops instr' running current type => exact absurd ⟨running, instr', current, type⟩ hcall'

/-- `SYSCALL PRN`. -/
theorem outcome_print (ht : instr.type = .SYSCALL) (hst : instr.syscallType = some .PRN) {a : Int}
    (ho : instr.operands[0]? = some a)
    (hresult : Solo.result (c.cell 22) instr m = (l, some m')) :
  ∃ d, c.step = some d ∧ event (c.cell 22) c d = l ∧ Outcome s (c.cell 22) (some m') c d
  := by
  obtain ⟨h₁, h₁'⟩ := h.bounds hn'
  obtain ⟨d, hstep, printed⟩ := h.prints hn' ht hst ho
  obtain ⟨hd, h22, -⟩ := h.thread.prints hn' printed
  have ha := h.disciplined.operand h.fetched ht hst ho
  have hma : c.cell a = m a := h.holds a (own_iff.mpr (.inr (.inr ha)))
  unfold InSegment at ha
  obtain ⟨v, hout, hv⟩ := printed.cout
  rw [hv (by omega), hma] at hout
  rw [Solo.result_print ht hst ho] at hresult
  cases hresult
  use d, hstep, event_of_call h.thread.kernelMode h.running h.fetched ht h.holds hout
  obtain ⟨hst', hsta', -⟩ := entry_cells (c.cell 22)
  use .thread hd printed.halted
  · apply View.running hd.kernelMode h22
    apply h.holds.next printed.pc
    intro b hb h0
    have hb' := own_bounds h₁ (by omega) hb
    apply printed.cell b (by omega) (by omega) (by omega)
    unfold Touched
    omega
  · intro j y' hj hj' hne
    apply View.other hn' h.running h22 _ _ hj hj' hne
    · rintro b ⟨hb, hb'⟩ hne
      apply printed.cell b (by omega) (by omega) (by omega) hne
    · intro b hb hb' _
      apply printed.cell b (by omega) (by omega) (by omega)
      unfold Touched
      omega

/-- `SYSCALL YIELD`. -/
theorem outcome_yield (ht : instr.type = .SYSCALL) (hst : instr.syscallType = some .YIELD)
    (hresult : Solo.result (c.cell 22) instr m = (l, some m')) :
  ∃ d, c.step = some d ∧ event (c.cell 22) c d = l
    ∧ Leads CPU.step (KernelStep AnyThread NoThread) (Outcome s (c.cell 22) (some m') c) d
  := by
  obtain ⟨h₁, h₁'⟩ := h.bounds hn'
  obtain ⟨d, entered⟩ := h.enters hn' ht hst (by decide)
  rw [Solo.result_yield ht hst] at hresult
  cases hresult
  use d, entered.step, event_of_call h.thread.kernelMode h.running h.fetched ht h.holds
    (entered.cout.trans c.cout.append_nil.symm)
  apply (h.thread.yields hn' entered).mono (fun _ _ h => h)
  rintro u ⟨hu, hkept, hupc, husp, h3⟩
  have hkernel : u.kernelMode = false → u.cell 22 ≠ c.cell 22 := by
    intro hmode
    rw [hu.kernelMode] at hmode
    cases hmode
  use .entrance hu
  · apply View.suspended hkernel h3
    constructor
    · rw [hupc, h.pc, Function.update_self]
    · rw [husp, h.holds 1 (own_iff.mpr (.inr (.inl rfl)))]
      apply (Function.update_of_ne _ _ _).symm
      decide
    · intro a ha
      have hseg := id ha
      unfold InSegment at hseg
      rw [hkept.user a (by omega) (by omega), h.holds a (own_iff.mpr (.inr (.inr ha))),
        Function.update_of_ne]
      change a ≠ 0
      omega
  · intro j y' hj hj' hne hy
    apply hy.kept h.running (fun _ => hne.symm) _ hkept hne hj hj' hn'
    intro hmode
    rw [hu.kernelMode] at hmode
    cases hmode

/-- `SYSCALL HLT`. -/
theorem outcome_halt (ht : instr.type = .SYSCALL) (hst : instr.syscallType = some .HLT) :
  ∃ d, c.step = some d ∧ event (c.cell 22) c d = [⟨segment (c.cell 22) m, []⟩]
    ∧ Leads CPU.step (KernelStep AnyThread NoThread) (Outcome s (c.cell 22) none c) d
  := by
  obtain ⟨d, entered⟩ := h.enters hn' ht hst (by decide)
  use d, entered.step, event_of_call h.thread.kernelMode h.running h.fetched ht h.holds
    (entered.cout.trans c.cout.append_nil.symm)
  apply (h.thread.halts hn' entered).mono (fun _ _ h => h)
  rintro u ⟨hu, hkept, h3⟩
  have hmode : u.kernelMode = true := by
    obtain hu | hu := hu
    · apply hu.kernelMode
    · apply hu.kernelMode
  use hu.elim .entrance .last, .ended h3
  intro j y' hj hj' hne hy
  apply hy.kept h.running (fun _ => hne.symm) _ hkept hne hj hj' hn'
  intro hu
  rw [hmode] at hu
  cases hu

/-- A thread that goes on is left with its next memory. -/
theorem outcome (hresult : Solo.result (c.cell 22) instr m = (l, some m')) :
  ∃ d, c.step = some d ∧ event (c.cell 22) c d = l
    ∧ Leads CPU.step (KernelStep AnyThread NoThread) (Outcome s (c.cell 22) (some m') c) d
  := by
  by_cases ht : instr.type = .SYSCALL
  · have hsyscall := hresult
    simp only [Solo.result, ht, Solo.syscall] at hsyscall
    split at hsyscall
    · rename_i hst
      split at hsyscall
      · rename_i ho
        obtain ⟨d, hstep, he, hd⟩ := h.outcome_print hn' ht hst ho hresult
        exact ⟨d, hstep, he, .here hd⟩
      · cases hsyscall
    · rename_i hst
      apply h.outcome_yield hn' ht hst hresult
    · cases hsyscall
    · cases hsyscall
  · obtain ⟨d, hstep, he, hd⟩ := h.outcome_plain hn' ht hresult
    exact ⟨d, hstep, he, .here hd⟩

end Executes

/-! ### The scheduler -/

/-- A thread has not terminated. -/
theorem exists_living {n : Int} (h : Table n m) (hn : 0 ≤ n) :
  ∃ i, 1 ≤ i ∧ i ≤ n ∧ m (stateCell i) ≠ 3
  := by
  by_contra hall
  push Not at hall
  have hcount : terminatedCount n m = (Finset.Icc 1 n).card := by
    unfold terminatedCount
    rw [Finset.filter_true_of_mem]
    intro j hj
    obtain ⟨hj₁, hj'⟩ := Finset.mem_Icc.mp hj
    apply hall j hj₁ hj'
  have hliving := h.living
  rw [h.terminated, hcount, Int.card_Icc] at hliving
  omega

theorem AtEntrance.schedulable (h : AtEntrance s c) :
  Schedulable s.threads c
  := by
  use h.toAtScheduler
  · apply loaded_of_instructions h.instructions
  · apply h.table.threads
  · apply h.table.cursor
  · apply h.table.flag
  · intro j hj hj'
    have hidle := h.table.idle j hj hj'
    have hstates := h.table.states j hj hj'
    omega

theorem Kept.trans {X : Int → Prop} {e : CPU} (h : Kept s X c d) (h' : Kept s X d e) :
  Kept s X c e
  := by
  constructor
  · intro j hj hj' hX
    obtain ⟨h₁, h₂⟩ := h.registers j hj hj' hX
    obtain ⟨h₁', h₂'⟩ := h'.registers j hj hj' hX
    exact ⟨h₁'.trans h₁, h₂'.trans h₂⟩
  · intro j hj hj' hX
    apply (h'.terminated j hj hj' hX).trans (h.terminated j hj hj' hX)
  · intro a ha ha'
    rw [h'.user a ha ha', h.user a ha ha']

/-- From its entrance the scheduler comes to dispatch a thread. -/
theorem AtEntrance.dispatches (hn : 2 ≤ s.threads) (hn' : s.threads ≤ 9) (h : AtEntrance s c) :
  Leads CPU.step (fun c _ => c.kernelMode = true)
    (fun d => AtSwitched s d ∧ Kept s AnyThread c d) c
  := by
  obtain ⟨i, hi, hi', hstate⟩ := exists_living h.table.toTable (by omega)
  generalize hμ : (remaining s.threads i c).toNat = μ
  induction μ using Nat.strong_induction_on generalizing c with
  | _ μ ih =>
      -- the next thread is dispatched, or skipped
      have hvisit : ∃ d, Visit c d ∧ (d.cell 0 = 796 ∨ (d.cell 0 = 700
          ∧ Skipped s.threads (next s.threads (c.cell 23)) c d)) := by
        obtain ⟨d, hd, -, hdispatched⟩ | ⟨d, hskip⟩ := h.schedulable.visit hn hn'
        · use d, hd, .inl hdispatched.pc
        · use d, hskip.visit, .inr ⟨hskip.again.pc, hskip⟩
      obtain ⟨d, ⟨c', hstep, hpath⟩, hd⟩ := hvisit
      apply Leads.next hstep h.kernelMode
      obtain ⟨u, hu⟩ | hlead := (h.visit hn hn' hstep).split hpath
      · have hpc := hu.pc
        omega
      apply (hlead.mono (fun _ _ hab => hab.kernelMode) (fun _ h => h)).trans
      rintro u ⟨⟨hu | hu, hkept⟩, hpath⟩
      · -- back at the entrance: the path from there on is empty
        obtain rfl | ⟨v, ⟨-, h700⟩, -⟩ := ReflTransGen.cases_head hpath
        · obtain hd | ⟨-, hskip⟩ := hd
          · rw [hu.pc] at hd
            cases hd
          have hlt := hskip.remaining_lt h.table.cursor hn' hi hi' hstate
          have h₀ := remaining_nonneg hskip.again.cursor.2 hi
          have hstate' : u.cell (stateCell i) ≠ 3 := by
            rw [(hskip.states i hi hi').1]
            apply hstate
          apply (ih (remaining s.threads i u).toNat (by omega) hu hstate' rfl).mono (fun _ _ h => h)
          rintro v ⟨hv, hkept'⟩
          exact ⟨hv, hkept.trans hkept'⟩
        · exact absurd hu.pc h700
      · exact .here ⟨hu, hkept⟩

/-! ### Runs of a system -/

/-- The threads of a system have come to `Y`. -/
structure Stage (s : System) (Y : Int → Option (Int → Int)) (c : CPU) : Prop where
  position : Position s c
  view : ∀ j, 1 ≤ j → j ≤ s.threads → View j c (Y j)

theorem Stage.of_outcome {Y : Int → Option (Int → Int)} {y : Option (Int → Int)}
    (h : Stage s Y c) (hd : Outcome s k y c d) :
  Stage s (Function.update Y k y) d
  := by
  use hd.position
  intro j hj hj'
  by_cases hjk : j = k
  · rw [hjk, Function.update_self]
    apply hd.self
  · rw [Function.update_of_ne hjk]
    apply hd.others j _ hj hj' hjk (h.view j hj hj')

/-- The thread that is dispatched is resumed. -/
theorem AtSwitched.resumes {y : Option (Int → Int)} (hn' : s.threads ≤ 9) (h : AtSwitched s c)
    (hy : View (c.cell 22) c y) (hcode : ∀ m, y = some m → InSegment (c.cell 22) (m CPU.PC)) :
  ∃ d, c.step = some d ∧ d.halted = false
  := by
  have h₁ := h.table.thread
  have h₂ := h.table.running
  have huser : UserAddress (c.cell 19) := by
    cases hy with
    | halted _ hh =>
        rw [h.halted] at hh
        cases hh
    | ended h3 =>
        have hone := h.state
        rw [h3] at hone
        cases hone
    | running mode _ _ =>
        rw [h.kernelMode] at mode
        cases mode
    | suspended _ _ stored =>
        have hpc := hcode _ rfl
        rw [h.saved.1, stored.pc]
        unfold InSegment at hpc
        unfold UserAddress
        omega
  have hr := runs_ofCPU h.kernelMode h.halted
  rw [Kernel.ofCPU, h.pc] at hr
  obtain ⟨d, hd⟩ := hr.resumed (loaded_of_instructions h.instructions) rfl huser
  exact ⟨d, hd.step, hd.halted⟩

/-- The view of every thread after the end of the context switch. -/
theorem AtSwitched.view {y : Option (Int → Int)} (hn' : s.threads ≤ 9) (h : AtSwitched s c)
    (hstep : c.step = some d) (hd : d.halted = false) (hk : 1 ≤ k) (hk' : k ≤ s.threads)
    (hy : View k c y) :
  View k d y
  := by
  obtain ⟨hthread, h22, hkept, -, hresumed⟩ := h.resume hn' hstep
  obtain ⟨hpc, hsp⟩ := hresumed hd
  have hc : c.kernelMode = false → c.cell 22 ≠ k := by
    intro hu
    rw [h.kernelMode] at hu
    cases hu
  by_cases hj : c.cell 22 = k
  · cases hy with
    | halted _ hh =>
        rw [h.halted] at hh
        cases hh
    | ended h3 =>
        have hone := h.state
        rw [hj, h3] at hone
        cases hone
    | running mode thread _ => exact absurd thread (hc mode)
    | suspended _ _ stored =>
        apply View.running hthread.kernelMode (h22.trans hj)
        intro a ha
        obtain rfl | rfl | ha := own_iff.mp ha
        · rw [hpc, h.saved.1, hj]
          apply stored.pc
        · rw [hsp, h.saved.2, hj]
          apply stored.sp
        · rw [hkept.user a (by omega) (by omega), stored.segment a ha]
  · apply hy.kept h.halted hc _ hkept trivial hk hk' hn'
    intro _
    rw [h22]
    apply hj

/-- From the entrance of the scheduler a thread is served. -/
theorem AtEntrance.serves {Y : Int → Option (Int → Int)} (hn : 2 ≤ s.threads) (hn' : s.threads ≤ 9)
    (h : AtEntrance s c) (hY : ∀ j, 1 ≤ j → j ≤ s.threads → View j c (Y j))
    (hcode : ∀ j m, 1 ≤ j → j ≤ s.threads → Y j = some m → InSegment j (m CPU.PC)) :
  Leads CPU.step (fun c _ => c.kernelMode = true)
    (fun d => (InThread s d ∧ d.halted = false) ∧ ∀ j, 1 ≤ j → j ≤ s.threads → View j d (Y j)) c
  := by
  apply (h.dispatches hn hn').trans
  rintro u ⟨hu, hkept⟩
  have huY : ∀ j, 1 ≤ j → j ≤ s.threads → View j u (Y j) := by
    intro j hj hj'
    apply (hY j hj hj').kept h.halted _ _ hkept trivial hj hj' hn'
    · intro hmode
      rw [h.kernelMode] at hmode
      cases hmode
    · intro hmode
      rw [hu.kernelMode] at hmode
      cases hmode
  have h₁ := hu.table.thread
  have h₂ := hu.table.running.2
  obtain ⟨d, hstep, hd⟩ := hu.resumes hn' (huY _ h₁ h₂) (fun m => hcode _ m h₁ h₂)
  refine .next hstep hu.kernelMode (.here ⟨⟨(hu.resume hn' hstep).1, hd⟩, ?_⟩)
  intro j hj hj'
  apply hu.view hn' hstep hd hj hj' (huY j hj hj')

/-- All threads have terminated, and the CPU is halted. -/
structure Finished (s : System) (c : CPU) : Prop extends Over s c where
  terminated : ∀ j, 1 ≤ j → j ≤ s.threads → c.cell (stateCell j) = 3

/-- The run from `c` finishes, and `out` is observed on the way. -/
def Finishes (s : System) (out : Int → List Event) (c : CPU) : Prop :=
  ∃ d, Finished s d ∧ ∀ j, 1 ≤ j → j ≤ s.threads →
    ∀ l, Reaches (logged CPU.step (event j)) (c, l) (d, l ++ out j)

theorem Finishes.of_leads {out : Int → List Event} {R : CPU → CPU → Prop} {P : CPU → Prop}
    (h : Leads CPU.step R P c) (hR : ∀ a b, R a b → a.kernelMode = true)
    (hP : ∀ d, P d → Finishes s out d) :
  Finishes s out c
  := by
  obtain ⟨d, hd, hlogged⟩ := h.logged (ε := Event)
  obtain ⟨e, he, hout⟩ := hP d hd
  use e, he
  intro j hj hj' l
  apply (hlogged (event j) (fun a b hab => event_of_kernel (hR a b hab)) l).trans
  apply hout j hj hj'

/-- A thread runs at a stage: it has a memory and goes on from there. -/
theorem InThread.next {y : Option (Int → Int)} (h : InThread s c) (hh : c.halted = false)
    (hy : View (c.cell 22) c y) :
  ∃ m, y = some m ∧ Holds (c.cell 22) c m
  := by
  cases hy with
  | halted _ hh' =>
      rw [hh] at hh'
      cases hh'
  | ended h3 =>
      have hstate := h.table.state
      omega
  | running _ _ holds => exact ⟨_, rfl, holds⟩
  | suspended away _ _ => exact absurd rfl (away h.kernelMode)

/-- A stage at which all threads have ended. -/
theorem AtEnd.finishes {Y : Int → Option (Int → Int)} {N : Int → ℕ} {out : Int → List Event}
    (hn' : s.threads ≤ 9) (h : AtEnd s c)
    (hview : ∀ j, 1 ≤ j → j ≤ s.threads → View j c (Y j))
    (hY : ∀ j, 1 ≤ j → j ≤ s.threads → Solo.Remains j (s.code j) (N j) (Y j) (out j)) :
  Finishes s out c
  := by
  have hout : ∀ j, 1 ≤ j → j ≤ s.threads → out j = [] := by
    intro j hj hj'
    have hview := hview j hj hj'
    have hremains := hY j hj hj'
    have h3 := h.terminated j hj hj'
    generalize Y j = y at hview hremains
    cases hview with
    | halted _ hh =>
        rw [h.halted] at hh
        cases hh
    | ended _ => apply hremains.nothing
    | running mode _ _ =>
        rw [h.kernelMode] at mode
        cases mode
    | suspended _ state _ => exact absurd h3 state
  have hr := runs_ofCPU h.kernelMode h.halted
  rw [Kernel.ofCPU, h.pc] at hr
  obtain ⟨d, hstep⟩ : ∃ d, c.step = some d := by
    have hrun := hr.execute (loaded_of_instructions h.instructions)
      (show kernelCode 449 = some (.of .HLT []) from rfl)
    rw [CPU.step, hrun]
    exact ⟨_, rfl⟩
  obtain ⟨hd, hstay⟩ := h.halts hn' hstep
  use d, ⟨hd, fun j hj hj' => hstay j hj hj' (h.terminated j hj hj')⟩
  intro j hj hj' l
  apply Reaches.logged_head hstep
  rw [event_of_kernel h.kernelMode, hout j hj hj']
  exact Relation.ReflTransGen.refl

/-- The running thread executes one of the instructions that it has left. -/
theorem InThread.serves {p : ℕ} (hn' : s.threads ≤ 9) (h : InThread s c) (hh : c.halted = false)
    (holds : Holds (c.cell 22) c m)
    (hcompletes : Solo.Completes (c.cell 22) (s.code (c.cell 22)) p m l) :
  ∃ q y l₁ l₂ d, l = l₁ ++ l₂ ∧ q < p ∧ Solo.Remains (c.cell 22) (s.code (c.cell 22)) q y l₂
    ∧ c.step = some d ∧ event (c.cell 22) c d = l₁
    ∧ Leads CPU.step (KernelStep AnyThread NoThread) (Outcome s (c.cell 22) y c) d
  := by
  cases hcompletes with
  | halt current code type call =>
      rename_i instr
      have hdata : ∀ a ∈ CPU.accesses m instr, InSegment (c.cell 22) a := by
        rw [CPU.accesses, type]
        cases instr.operands with
        | nil =>
            intro a ha
            cases ha
        | cons => simp [call]
      have hexecutes : Executes s c m instr := ⟨h, hh, holds, current, code, hdata⟩
      obtain ⟨d, hstep, hevent, hlead⟩ := hexecutes.outcome_halt hn' type call
      refine ⟨0, none, _, [], d, ?_, by decide, .ended, hstep, hevent, hlead⟩
      rw [List.append_nil]
  | next current within result rest =>
      have hexecutes : Executes s c m _ := ⟨h, hh, holds, current, within⟩
      obtain ⟨d, hstep, hevent, hlead⟩ := hexecutes.outcome hn' result
      exact ⟨_, _, _, _, d, rfl, Nat.lt_succ_self _, .living rest, hstep, hevent, hlead⟩

section

variable (hn : 2 ≤ s.threads) (hn' : s.threads ≤ 9)

include hn hn'

/-- From every stage at which the threads have instructions left that they complete by, the
system finishes. -/
theorem Stage.finishes {Y : Int → Option (Int → Int)} {N : Int → ℕ} {out : Int → List Event}
    (h : Stage s Y c)
    (hY : ∀ j, 1 ≤ j → j ≤ s.threads → Solo.Remains j (s.code j) (N j) (Y j) (out j)) :
  Finishes s out c
  := by
  generalize hμ : ∑ j ∈ Finset.Icc 1 s.threads, N j = μ
  induction μ using Nat.strong_induction_on generalizing c Y N out with
  | _ μ ih =>
      -- the step of a thread: less is left to be executed
      have hthread : ∀ d, Stage s Y d → InThread s d → d.halted = false → Finishes s out d := by
        intro d hd hin hh
        have h₁ := hin.table.thread
        have h₂ := hin.table.running.2
        obtain ⟨m, hm, holds⟩ := hin.next hh (hd.view _ h₁ h₂)
        have hremains := hY _ h₁ h₂
        rw [hm] at hremains
        obtain ⟨p, y, l, l', e, hout, hN, hremains', hstep, hevent, hlead⟩ :=
          hin.serves hn' hh holds hremains.toCompletes
        generalize hk : d.cell 22 = k at *
        have hothers : ∀ j, 1 ≤ j → j ≤ s.threads → j ≠ k → ∀ l,
            Reaches (logged CPU.step (event j)) (d, l) (e, l) := by
          intro j hj hj' hne l
          apply Reaches.logged_head hstep
          rw [event_of_other (by omega), List.append_nil]
          exact Relation.ReflTransGen.refl
        have hfinishes : Finishes s (Function.update out k l') e := by
          apply Finishes.of_leads hlead (fun _ _ hab => hab.kernelMode)
          intro u hu
          apply ih (∑ j ∈ Finset.Icc 1 s.threads,
            Function.update N k p j) _ (hd.of_outcome hu) _ rfl
          · rw [← hμ]
            apply Finset.sum_lt_sum
            · intro j _
              rw [Function.update_apply]
              split
              · rename_i hj
                rw [hj]
                exact hN.le
              · rfl
            · use k, Finset.mem_Icc.mpr ⟨h₁, h₂⟩
              rw [Function.update_self]
              exact hN
          · intro j hj hj'
            by_cases hjk : j = k
            · rw [hjk, Function.update_self, Function.update_self, Function.update_self]
              exact hremains'
            · rw [Function.update_of_ne hjk, Function.update_of_ne hjk, Function.update_of_ne hjk]
              apply hY j hj hj'
        obtain ⟨f, hf, hout'⟩ := hfinishes
        use f, hf
        intro j hj hj' l₀
        have hrest := hout' j hj hj'
        by_cases hjk : j = k
        · rw [hjk] at hrest ⊢
          rw [Function.update_self] at hrest
          rw [hout, ← List.append_assoc]
          apply Reaches.logged_head hstep
          rw [hevent]
          apply hrest
        · rw [Function.update_of_ne hjk] at hrest
          apply (hothers j hj hj' hjk l₀).trans (hrest l₀)
      cases h.position with
      | thread hin hh => apply hthread c h hin hh
      | last hend => apply hend.finishes hn' h.view hY
      | entrance hentrance =>
          have hserves := hentrance.serves hn hn' h.view (by
            intro j m hj hj' hm
            have hremains := hY j hj hj'
            rw [hm] at hremains
            apply hremains.toCompletes.code)
          apply Finishes.of_leads hserves (fun _ _ h => h)
          rintro d ⟨⟨hin, hh⟩, hview⟩
          apply hthread d ⟨.thread hin hh, hview⟩ hin hh

omit hn in
/-- The stage at which the scheduler is entered for the first time. -/
theorem stage_entered (hpos : 1 ≤ s.threads) :
  Stage s (fun k => some (startMemory k s.boot.cell)) s.entered
  := by
  use .entrance (atEntrance_entered hpos hn')
  intro k hk hk'
  obtain ⟨-, -, hpc, hsp⟩ := s.boot_entry hk (by omega)
  obtain ⟨hstate, -, -⟩ := entered_entry s hk (by omega)
  apply View.suspended
  · intro hu
    rw [s.entered_runs.kernelMode] at hu
    cases hu
  · omega
  · constructor
    · rw [s.entered_mem (cell_pcCell (by omega) (by omega)), hpc, startMemory, if_neg, if_pos rfl]
      change ¬ (1000 * k ≤ 0 ∧ _)
      omega
    · rw [s.entered_mem (cell_spCell (by omega) (by omega)), hsp, startMemory, if_neg,
        if_neg (by decide)]
      change ¬ (1000 * k ≤ 1 ∧ _)
      omega
    · intro a ha
      rw [startMemory, if_pos ha, s.entered_mem]
      unfold InSegment at ha
      unfold Cell
      omega

/-- The run of a system whose threads complete on their own. -/
theorem System.finishes {N : Int → ℕ} {out : Int → List Event}
    (h : ∀ k, 1 ≤ k → k ≤ s.threads →
      Solo.Completes k (s.code k) (N k) (startMemory k s.boot.cell) (out k)) :
  ∃ c, Finished s c ∧ ∀ k, 1 ≤ k → k ≤ s.threads →
    Reaches (logged CPU.step (event k)) (s.boot, []) (c, out k)
  := by
  obtain ⟨c, hc, hout⟩ := (stage_entered hn' (by omega)).finishes hn hn'
    (fun j hj hj' => .living (h j hj hj'))
  use c, hc
  intro k hk hk'
  apply Reaches.logged_head s.boot_step
  rw [event_of_kernel s.boot_fields.1]
  apply hout k hk hk'

omit hn in
/-- Nothing is observed once a system has finished. -/
theorem Finished.observes {l l' : List Event} (h : Finished s c)
    (hl : Reaches (logged CPU.step (event k)) (s.boot, []) (c, l)) (hl' : s.Observes k l') :
  l' <+: l
  := by
  obtain ⟨d, hd⟩ := hl'
  refine Reaches.logged_prefix (I := Over s) ?_ hl h.toOver hd
  intro a b ha hab
  exact ⟨(ha.again hn' hab).1, event_of_kernel ha.kernelMode⟩

/-- A system finishes if each of its threads, on its own, completes within its segment; and of each
thread no more is ever observed than what it does on its own. -/
theorem System.completes {N : Int → ℕ} {out : Int → List Event}
    (h : ∀ k, 1 ≤ k → k ≤ s.threads →
      Solo.Completes k (s.code k) (N k) (startMemory k s.boot.cell) (out k)) :
  ∃ c, Finished s c ∧ ∀ k, 1 ≤ k → k ≤ s.threads →
    Reaches (logged CPU.step (event k)) (s.boot, []) (c, out k)
    ∧ ∀ l, s.Observes k l → l <+: out k
  := by
  obtain ⟨c, hc, hout⟩ := System.finishes hn hn' h
  use c, hc
  intro k hk hk'
  use hout k hk hk'
  intro l hl
  apply hc.observes hn' (hout k hk hk') hl

omit hn hn'

/-! ### Threads that terminate at once -/

theorem startMemory_pc (hk : 1 ≤ k) (cell : Int → Int) : startMemory k cell CPU.PC = 1000 * k
  := by
  rw [startMemory, if_neg, if_pos rfl]
  change ¬ (1000 * k ≤ 0 ∧ _)
  omega

/-- The first instruction of a thread. -/
theorem brief_code (n : Int) (hk : 1 ≤ k) :
  (brief n).code k (startMemory k (brief n).boot.cell CPU.PC) = some (.syscall .HLT [])
    ∧ InSegment k (startMemory k (brief n).boot.cell CPU.PC)
  := by
  have hcode : InSegment k (1000 * k) := by
    unfold InSegment
    omega
  rw [startMemory_pc hk, System.code, if_pos hcode]
  refine ⟨if_pos ?_, hcode⟩
  omega

theorem brief_completes (n : Int) (hk : 1 ≤ k) :
  Solo.Completes k ((brief n).code k) 1 (startMemory k (brief n).boot.cell)
    [⟨segment k (startMemory k (brief n).boot.cell), []⟩]
  := .halt (brief_code n hk).1 (brief_code n hk).2 rfl rfl

theorem System.completes_brief :
  ∃ c, Finished (brief 2) c ∧ ∀ k, 1 ≤ k → k ≤ 2 →
    Reaches (logged CPU.step (event k)) ((brief 2).boot, [])
      (c, [⟨segment k (startMemory k (brief 2).boot.cell), []⟩])
    ∧ ∀ l, (brief 2).Observes k l →
      l <+: [⟨segment k (startMemory k (brief 2).boot.cell), []⟩]
  := System.completes (s := brief 2) (by decide) (by decide) (N := fun _ => 1)
    fun _ hk _ => brief_completes 2 hk

theorem brief_observes {n : Int} (hn : 2 ≤ n) (hn' : n ≤ 9) (hk : 1 ≤ k) (hk' : k ≤ n) :
  (brief n).Observes k [⟨segment k (startMemory k (brief n).boot.cell), []⟩]
  := by
  obtain ⟨c, -, hout⟩ := System.finishes (s := brief n) hn hn' (N := fun _ => 1)
    fun _ hk _ => brief_completes n hk
  use c, hout k hk hk'

/-- The end of the first thread, in a system of two threads and in one of three. -/
theorem isolation_brief :
  ∃ e₁ e₂, (brief 2).Observes 1 [e₁] ∧ (brief 3).Observes 1 [e₂]
    ∧ ([e₁] <+: [e₂] ∨ [e₂] <+: [e₁])
  := by
  have h₁ := brief_observes (n := 2) (k := 1) (by decide) (by decide) (by decide) (by decide)
  have h₂ := brief_observes (n := 3) (k := 1) (by decide) (by decide) (by decide) (by decide)
  refine ⟨_, _, h₁, h₂, ?_⟩
  apply isolation (brief 2) (brief 3) (by decide) (by decide) (by decide) (by decide) (by decide)
    (by decide) (by decide) (fun _ _ => rfl) _ (brief_confined 2 (by decide) (by decide))
    (brief_confined 3 (by decide) (by decide)) h₁ h₂
  intro a ha
  unfold InSegment at ha
  rw [brief_cell 2 (by omega) (by omega), brief_cell 3 (by omega) (by omega)]

/-- The scheduler is entered again when the first of two threads has terminated. -/
theorem brief_arrives :
  ∃ c k, Reaches CPU.step (brief 2).boot c ∧ AtEntrance (brief 2) c ∧ 1 ≤ k ∧ k ≤ 2
    ∧ c.cell (stateCell k) = 3
  := by
  have hn : 2 ≤ (brief 2).threads := by decide
  have hn' : (brief 2).threads ≤ 9 := by decide
  have hentrance : AtEntrance (brief 2) (brief 2).entered :=
    atEntrance_entered (by decide) hn'
  have hstage := stage_entered (s := brief 2) hn' (by decide)
  -- a thread is dispatched
  obtain ⟨c, hc, ⟨hthread, hh⟩, hview⟩ := (hentrance.serves hn hn' hstage.view (by
    intro j m hj _ hm
    cases hm
    exact (brief_code 2 hj).2)).reaches
  have h₁ := hthread.table.thread
  have h₂ : c.cell 22 ≤ 2 := hthread.table.running.2
  obtain ⟨m, hm, holds⟩ := hthread.next hh (hview _ h₁ h₂)
  cases hm
  -- it calls the kernel
  obtain ⟨hcurrent, hcode⟩ := brief_code 2 h₁
  have hexecutes : Executes (brief 2) c _ (.syscall .HLT []) :=
    ⟨hthread, hh, holds, hcurrent, hcode, fun _ ha => by cases ha⟩
  obtain ⟨d, entered⟩ := hexecutes.enters hn' rfl rfl (by decide)
  obtain ⟨u, hu, hposition, hkept, h3⟩ := (hthread.halts hn' entered).reaches
  have hreach : Reaches CPU.step (brief 2).boot u :=
    (Reaches.head (brief 2).boot_step hc).trans (Reaches.head entered.step hu)
  rcases hposition with hu | hu
  · exact ⟨u, c.cell 22, hreach, hu, h₁, h₂, h3⟩
  · -- the other thread has not terminated
    have hother : ∃ j : Int, 1 ≤ j ∧ j ≤ 2 ∧ j ≠ c.cell 22 := by
      use 3 - c.cell 22
      omega
    obtain ⟨j, hj, hj', hne⟩ := hother
    have hstate := (hkept.terminated j hj hj' hne).mp (hu.terminated j hj hj')
    cases hview j hj hj' with
    | halted _ hh' =>
        rw [hh] at hh'
        cases hh'
    | running _ thread _ => exact absurd thread.symm hne
    | suspended _ state _ => exact absurd hstate state

/-- The second arrival at the scheduler. -/
theorem thread_table_invariant_brief :
  ∃ c k, Reaches CPU.step (brief 2).boot c ∧ c.cell 0 = 700 ∧ 1 ≤ k ∧ k ≤ 2
    ∧ c.cell (stateCell k) = 3 ∧ c.cell 201 = terminatedCount 2 c.cell ∧ c.cell 201 < 2
    ∧ ∀ d, Reaches CPU.step c d → d.cell (stateCell k) = 3
  := by
  obtain ⟨c, k, hc, hentrance, hk, hk', h3⟩ := brief_arrives
  obtain ⟨harrival, hterminated, -⟩ :=
    thread_table_invariant (s := brief 2) (by decide) (by decide) hc
  obtain ⟨hcount, hliving, -⟩ := harrival hentrance.kernelMode hentrance.pc
  refine ⟨c, k, hc, hentrance.pc, hk, hk', h3, hcount, hliving, ?_⟩
  intro d hd
  exact (hterminated k hk hk' h3 d hd).1

end

end OperatingSystem
