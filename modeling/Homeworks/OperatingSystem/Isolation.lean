import Homeworks.OperatingSystem.Confinement

/-!
# Isolation of the threads

Where every thread stays within its segment, a system carries out each of its threads as
if the thread were on its own.  What is observed at the system calls of a thread therefore
does not depend on the other threads: of two systems that give a thread the same program
and data, one observes no more than a prefix of what the other does.
-/

open Simulator StateTransition Transition Relation

namespace OperatingSystem

variable {s : System} {k : Int} {c d : CPU} {m : Int → Int} {instr : Instruction}

/-! ### The threads of a system -/

/-- What the state of a system says of the thread `k`: its memory, or that it has ended. -/
inductive View (k : Int) (c : CPU) : Option (Int → Int) → Prop where
  | halted (y : Option (Int → Int)) (h : c.halted = true) : View k c y
  | ended (h : c.cell (stateCell k) = 3) : View k c none
  | running {m : Int → Int} (mode : c.kernelMode = false) (thread : c.cell 22 = k)
      (holds : Holds k c m) : View k c (some m)
  | suspended {m : Int → Int} (away : c.kernelMode = false → c.cell 22 ≠ k)
      (state : c.cell (stateCell k) ≠ 3) (stored : Stored k c m) : View k c (some m)

/-- What is observed of the thread `k` in a step. -/
def event (k : Int) (c d : CPU) : List Event :=
  if c.kernelMode = false ∧ c.cell 22 = k ∧ c.AtSyscall then
    [⟨segment k c.cell, d.cout.drop c.cout.length⟩]
  else []

theorem event_of_kernel (h : c.kernelMode = true) :
  event k c d = []
  := by
  apply if_neg
  rw [h]
  rintro ⟨h, -⟩
  cases h

theorem event_of_not_call (h : ¬ c.AtSyscall) :
  event k c d = []
  := if_neg fun h' => h h'.2.2

theorem event_of_other (h : c.cell 22 ≠ k) :
  event k c d = []
  := if_neg fun h' => h h'.2.1

theorem event_of_call (hu : c.kernelMode = false) (hh : c.halted = false)
    (hi : c.current = some instr) (ht : instr.type = .SYSCALL) (hm : Holds (c.cell 22) c m)
    {items : List Output} (ho : d.cout = c.cout ++ items) :
  event (c.cell 22) c d = [⟨segment (c.cell 22) m, items⟩]
  := by
  have hseg : segment (c.cell 22) c.cell = segment (c.cell 22) m := by
    apply segment_congr
    intro a ha
    apply hm a (own_iff.mpr (.inr (.inr ha)))
  rw [event, if_pos ⟨hu, rfl, hh, instr, hi, ht⟩, ho, List.drop_left, hseg]

/-- The view of a thread that is away, and whose context is the same. -/
theorem View.same {y : Option (Int → Int)} (h : View k c y) (hh : c.halted = false)
    (hc : c.kernelMode = false → c.cell 22 ≠ k) (hd : d.kernelMode = false → d.cell 22 ≠ k)
    (hregisters : d.cell (pcCell k) = c.cell (pcCell k) ∧ d.cell (spCell k) = c.cell (spCell k))
    (hstate : d.cell (stateCell k) = 3 ↔ c.cell (stateCell k) = 3)
    (hsegment : ∀ a, InSegment k a → d.cell a = c.cell a) :
  View k d y
  := by
  cases h with
  | halted _ h =>
      rw [hh] at h
      cases h
  | ended h => exact .ended (hstate.mpr h)
  | running mode thread _ => exact absurd thread (hc mode)
  | suspended _ state stored =>
      apply View.suspended hd
      · intro h3
        apply state (hstate.mp h3)
      · constructor
        · rw [hregisters.1, stored.pc]
        · rw [hregisters.2, stored.sp]
        · intro a ha
          rw [hsegment a ha, stored.segment a ha]

theorem View.kept {X : Int → Prop} {y : Option (Int → Int)} (h : View k c y)
    (hh : c.halted = false) (hc : c.kernelMode = false → c.cell 22 ≠ k)
    (hd : d.kernelMode = false → d.cell 22 ≠ k) (hkept : Kept s X c d) (hX : X k) (hk : 1 ≤ k)
    (hk' : k ≤ s.threads) (hn' : s.threads ≤ 9) :
  View k d y
  := by
  apply h.same hh hc hd (hkept.registers k hk hk' hX) (hkept.terminated k hk hk' hX)
  intro a ha
  unfold InSegment at ha
  apply hkept.user <;> omega

/-- The code of the thread `k`. -/
def System.code (s : System) (k a : Int) : Option Instruction :=
  if InSegment k a then s.program a else none

/-- The state of a system is a checkpoint, with the given view of the thread `k`. -/
def Viewed (s : System) (k : Int) (c : CPU) (y : Option (Int → Int)) : Prop :=
  Checkpoint s c ∧ View k c y

/-- After a step of a system the run leads, without further events of the thread `k`, to a
checkpoint where the thread has done what the events of the step say. -/
def Advances (s : System) (k : Int) (c d : CPU) (y : Option (Int → Int)) : Prop :=
  Leads CPU.step (fun c d => event k c d = [])
    (fun u => ∃ y', Viewed s k u y' ∧ Trace (Solo.Step k (s.code k)) y (event k c d) y') d

theorem Advances.of_silent {y : Option (Int → Int)} (he : event k c d = [])
    (h : Leads CPU.step (KernelStep AnyThread NoThread) (fun u => Viewed s k u y) d) :
  Advances s k c d y
  := by
  apply h.mono
  · intro a b hab
    apply event_of_kernel hab.kernelMode
  · intro u hu
    rw [he]
    exact ⟨y, hu, .nil y⟩

theorem Over.advances {y : Option (Int → Int)} (h : Over s d) (he : event k c d = []) :
  Advances s k c d y
  := by
  apply Leads.here
  rw [he]
  exact ⟨y, ⟨.over h, .halted y h.halted⟩, .nil y⟩

section

variable (hn : 2 ≤ s.threads) (hn' : s.threads ≤ 9) (hk : 1 ≤ k) (hk' : k ≤ s.threads)

include hn hn' hk hk'

theorem advances_boot {y : Option (Int → Int)} (hy : View k s.boot y) :
  Advances s k s.boot s.entered y
  := by
  have hr := s.entered_runs
  apply Advances.of_silent (event_of_kernel s.boot_fields.1)
  apply Leads.here
  use .entrance (atEntrance_entered (by omega) hn')
  apply hy.kept (X := AnyThread) s.boot_fields.2.1 _ _ _ trivial hk hk' hn'
  · intro hu
    rw [s.boot_fields.1] at hu
    cases hu
  · intro hu
    rw [hr.kernelMode] at hu
    cases hu
  · apply kept_of_frame 0 hn'
    · intro a ha ha' _
      apply s.entered_mem
      unfold Cell
      omega
    · intro a ha ha'
      apply s.entered_mem
      unfold Cell
      omega
    · intro _
      rw [s.entered_mem (cell_pcCell le_rfl (by decide)),
        s.entered_mem (cell_spCell le_rfl (by decide)),
        s.entered_mem (cell_stateCell le_rfl (by decide))]
      exact ⟨rfl, rfl, Iff.rfl⟩

theorem AtEntrance.advances {y : Option (Int → Int)} (h : AtEntrance s c) (hy : View k c y)
    (hstep : c.step = some d) :
  Advances s k c d y
  := by
  apply Advances.of_silent (event_of_kernel h.kernelMode)
  apply (h.visit hn hn' hstep).mono (fun _ _ h => h)
  rintro u ⟨hu, hkept⟩
  have hmode : u.kernelMode = true := by
    obtain hu | hu := hu
    · apply hu.kernelMode
    · apply hu.kernelMode
  constructor
  · obtain hu | hu := hu
    · apply Checkpoint.entrance hu
    · apply Checkpoint.switched hu
  · apply hy.kept h.halted _ _ hkept trivial hk hk' hn'
    · intro hu
      rw [h.kernelMode] at hu
      cases hu
    · intro hu
      rw [hmode] at hu
      cases hu

theorem AtSwitched.advances {y : Option (Int → Int)} (h : AtSwitched s c) (hy : View k c y)
    (hstep : c.step = some d) :
  Advances s k c d y
  := by
  obtain ⟨hd, h22, hkept, hstates, hresumed⟩ := h.resume hn' hstep
  apply Advances.of_silent (event_of_kernel h.kernelMode)
  apply Leads.here
  use .thread hd
  have hc : c.kernelMode = false → c.cell 22 ≠ k := by
    intro hu
    rw [h.kernelMode] at hu
    cases hu
  by_cases hj : c.cell 22 = k
  · cases hhalt : d.halted with
    | true => exact .halted y hhalt
    | false =>
        obtain ⟨hpc, hsp⟩ := hresumed hhalt
        cases hy with
        | halted _ hh =>
            rw [h.halted] at hh
            cases hh
        | ended h3 =>
            have hone := h.state
            rw [hj, h3] at hone
            cases hone
        | running mode _ _ =>
            rw [h.kernelMode] at mode
            cases mode
        | suspended _ _ stored =>
            apply View.running hd.kernelMode (h22.trans hj)
            intro a ha
            obtain rfl | rfl | ha := own_iff.mp ha
            · rw [hpc, h.saved.1, hj]
              apply stored.pc
            · rw [hsp, h.saved.2, hj]
              apply stored.sp
            · rw [hkept.user a (by omega) (by omega), stored.segment a ha]
  · apply hy.kept h.halted hc _ hkept trivial hk hk' hn'
    intro _
    rw [h22]
    apply hj

/-- A step of another thread. -/
theorem InThread.advances_other {y : Option (Int → Int)} (h : InThread s c)
    (hdis : Disciplined c) (hh : c.halted = false) (hj : c.cell 22 ≠ k) (hy : View k c y)
    (hstep : c.step = some d) :
  Advances s k c d y
  := by
  have he : event k c d = [] := event_of_other hj
  have hsegment : ∀ a, InSegment k a → 1000 ≤ a ∧ a < 10000 ∧ ¬ InSegment (c.cell 22) a := by
    unfold InSegment
    omega
  obtain ⟨hst, hsta, hpc, hsp, hin⟩ := entry_cells k
  have hc : c.kernelMode = false → c.cell 22 ≠ k := fun _ => hj
  -- in user mode the entry of the thread is not touched
  have haway : ∀ d, InThread s d → d.cell 22 = c.cell 22 →
      (∀ a, CPU.KernelCell a → ¬ Touched c a → d.cell a = c.cell a) →
      (∀ a, InSegment k a → d.cell a = c.cell a) → Viewed s k d y := by
    intro d hd h22 hcell hseg
    have hentry : ∀ a, InEntry k a → d.cell a = c.cell a := by
      intro a ha
      rw [hin] at ha
      obtain ⟨hst', hsta', -⟩ := entry_cells (c.cell 22)
      apply hcell a ⟨by omega, by omega⟩
      unfold Touched
      omega
    use .thread hd
    apply hy.same hh hc _ _ _ hseg
    · intro _
      rw [h22]
      apply hj
    · rw [hentry _ ((hin _).mpr (by omega)), hentry _ ((hin _).mpr (by omega))]
      exact ⟨rfl, rfl⟩
    · rw [hentry _ ((hin _).mpr (by omega))]
  cases h.threadStep hn' hstep with
  | stays same call =>
      obtain ⟨hd, h22, -⟩ := h.stays hn' same
      apply Advances.of_silent he
      apply Leads.here
      apply haway d hd h22
      · intro a ha hne
        unfold Touched at hne
        rw [same.cell a ha, CPU.cell_bumped_kernel c ha (by omega)]
      · intro a ha
        obtain ⟨h₁, h₂, h₃⟩ := hsegment a ha
        apply (h.carried hn' hdis hh call (fun _ _ => rfl) hstep).frame a h₁ h₂ h₃
  | prints _ _ _ _ _ _ _ printed =>
      obtain ⟨hd, h22, -⟩ := h.prints hn' printed
      apply Advances.of_silent he
      apply Leads.here
      apply haway d hd h22
      · rintro a ⟨ha, ha'⟩ hne
        apply printed.cell a (by omega) (by omega) (by omega) hne
      · intro a ha
        obtain ⟨h₁, h₂, -⟩ := hsegment a ha
        have h22' := h.table.running
        obtain ⟨hst', hsta', -⟩ := entry_cells (c.cell 22)
        apply printed.cell a (by omega) h₂ (by omega)
        unfold Touched
        omega
  | stops instr running current type _ stopped =>
      apply (h.stops hn' ⟨running, instr, current, type⟩ stopped).1.advances he
  | enters instr st _ _ _ _ ne entered =>
      apply Advances.of_silent he
      cases st with
      | PRN => exact absurd rfl ne
      | YIELD =>
          apply (h.yields hn' entered).mono (fun _ _ h => h)
          rintro u ⟨hu, hkept, -⟩
          use .entrance hu
          apply hy.kept hh hc _ hkept hj.symm hk hk' hn'
          intro hmode
          rw [hu.kernelMode] at hmode
          cases hmode
      | HLT =>
          apply (h.halts hn' entered).mono (fun _ _ h => h)
          rintro u ⟨hu, hkept, -⟩
          have hmode : u.kernelMode = true := by
            obtain hu | hu := hu
            · apply hu.kernelMode
            · apply hu.kernelMode
          constructor
          · obtain hu | hu := hu
            · apply Checkpoint.entrance hu
            · apply Checkpoint.last hu
          · apply hy.kept hh hc _ hkept hj.symm hk hk' hn'
            intro hu
            rw [hmode] at hu
            cases hu

end

/-- The memory of the running thread after its program counter has moved on. -/
theorem Holds.next (h : Holds k c m) (hpc : d.cell 0 = c.cell 0 + 1)
    (hcell : ∀ a, own k a = true → a ≠ 0 → d.cell a = c.cell a) :
  Holds k d (Function.update m CPU.PC (m CPU.PC + 1))
  := by
  have hm : c.cell 0 = m CPU.PC := h _ (own_iff.mpr (.inl rfl))
  intro a ha
  by_cases h0 : a = CPU.PC
  · rw [h0, Function.update_self, ← hm]
    apply hpc
  · rw [Function.update_of_ne h0, hcell a ha h0, h a ha]

/-- A step of the thread itself. -/
theorem InThread.advances_own (hn' : s.threads ≤ 9) (h : InThread s c) (hdis : Disciplined c)
    (hh : c.halted = false) (hm : Holds (c.cell 22) c m) (hstep : c.step = some d) :
  Advances s (c.cell 22) c d (some m)
  := by
  have h₁ := h.table.thread
  have h₂ := h.table.running
  have hpc : c.cell 0 = m CPU.PC := hm _ (own_iff.mpr (.inl rfl))
  have hsp : c.cell 1 = m CPU.SP := hm _ (own_iff.mpr (.inr (.inl rfl)))
  have hcode : ∀ instr, c.current = some instr →
      s.code (c.cell 22) (m CPU.PC) = some instr := by
    intro instr hi
    rw [← hpc, System.code, if_pos hdis.code]
    apply h.current hdis hi
  have hsolo : ∀ instr l y, c.current = some instr → Solo.result (c.cell 22) instr m = (l, y) →
      Trace (Solo.Step (c.cell 22) (s.code (c.cell 22))) (some m) l y := by
    intro instr l y hi hresult
    have hs := Solo.Step.of (k := c.cell 22) (hcode instr hi)
    rw [hresult] at hs
    apply Trace.single hs
  cases h.threadStep hn' hstep with
  | stays same call =>
      obtain ⟨hd, h22, -⟩ := h.stays hn' same
      apply Leads.here
      rw [event_of_not_call call]
      have hcarried := h.carried hn' hdis hh call hm hstep
      cases hhalt : d.halted with
      | true => exact ⟨some m, ⟨.thread hd, .halted _ hhalt⟩, .nil _⟩
      | false =>
          obtain ⟨instr, m', hi, hresult, hm'⟩ := hcarried.memory hhalt
          exact ⟨some m', ⟨.thread hd, .running hd.kernelMode h22 hm'⟩, hsolo _ _ _ hi hresult⟩
  | prints instr a _ hi ht hst ho printed =>
      obtain ⟨hd, h22, -⟩ := h.prints hn' printed
      have ha := hdis.operand hi ht hst ho
      have hma : c.cell a = m a := hm a (own_iff.mpr (.inr (.inr ha)))
      obtain ⟨v, hout, hv⟩ := printed.cout
      have h1000 : 1000 ≤ a := by
        unfold InSegment at ha
        omega
      rw [hv h1000, hma] at hout
      apply Leads.here
      rw [event_of_call h.kernelMode hh hi ht hm hout]
      refine ⟨some (Function.update m CPU.PC (m CPU.PC + 1)), ⟨.thread hd, ?_⟩, ?_⟩
      · apply View.running hd.kernelMode h22
        apply hm.next printed.pc
        intro b hb h0
        have hb' := own_bounds h₁ (by omega) hb
        obtain ⟨hst', hsta', -⟩ := entry_cells (c.cell 22)
        apply printed.cell b (by omega) (by omega) (by omega)
        unfold Touched
        omega
      · apply hsolo instr _ _ hi (Solo.result_print ht hst ho m)
  | stops instr _ hi ht call stopped =>
      obtain ⟨hd, -⟩ := h.stops hn' ⟨hh, instr, hi, ht⟩ stopped
      obtain ⟨hst, hout⟩ | ⟨a, hst, ho, hsize⟩ := call
      · apply Leads.here
        rw [event_of_call h.kernelMode hh hi ht hm (hout.trans c.cout.append_nil.symm)]
        refine ⟨none, ⟨.over hd, .halted _ hd.halted⟩, ?_⟩
        apply hsolo instr _ _ hi (Solo.result_halt ht (.inr hst) m)
      · exfalso
        have ha := hdis.operand hi ht hst ho
        unfold InSegment at ha
        rw [sizeT_of_nonneg (by omega)] at hsize
        omega
  | enters instr st _ hi ht hst ne entered =>
      have he := event_of_call h.kernelMode hh hi ht hm (entered.cout.trans c.cout.append_nil.symm)
      cases st with
      | PRN => exact absurd rfl ne
      | YIELD =>
          apply (h.yields hn' entered).mono
          · intro a b hab
            apply event_of_kernel hab.kernelMode
          · rintro u ⟨hu, hkept, hupc, husp, h3⟩
            rw [he]
            refine ⟨some (Function.update m CPU.PC (m CPU.PC + 1)), ⟨.entrance hu, ?_⟩, ?_⟩
            · apply View.suspended _ h3
              · constructor
                · rw [hupc, hpc, Function.update_self]
                · rw [husp, hsp]
                  apply (Function.update_of_ne _ _ _).symm
                  decide
                · intro a ha
                  have hseg := id ha
                  unfold InSegment at hseg
                  rw [hkept.user a (by omega) (by omega), hm a (own_iff.mpr (.inr (.inr ha))),
                    Function.update_of_ne]
                  change a ≠ 0
                  omega
              · intro hmode
                rw [hu.kernelMode] at hmode
                cases hmode
            · apply hsolo instr _ _ hi (Solo.result_yield ht hst m)
      | HLT =>
          apply (h.halts hn' entered).mono
          · intro a b hab
            apply event_of_kernel hab.kernelMode
          · rintro u ⟨hu, -, h3⟩
            rw [he]
            refine ⟨none, ⟨?_, .ended h3⟩, ?_⟩
            · obtain hu | hu := hu
              · apply Checkpoint.entrance hu
              · apply Checkpoint.last hu
            · apply hsolo instr _ _ hi (Solo.result_halt ht (.inl hst) m)

/-- A step of a halted CPU. -/
theorem advances_halted {y : Option (Int → Int)} (hd : Checkpoint s d) (hh : c.halted = true)
    (hstep : c.step = some d) :
  Advances s k c d y
  := by
  have hcall : ¬ c.AtSyscall := by
    rintro ⟨hh', -⟩
    rw [hh] at hh'
    cases hh'
  have hdh : d.halted = true := by
    obtain ⟨-, rfl⟩ | ⟨hh', -⟩ | ⟨instr, hh', -⟩ := CPU.step_cases hstep
    · rw [CPU.bumped_halted, hh]
    · rw [hh] at hh'
      cases hh'
    · rw [hh] at hh'
      cases hh'
  apply Leads.here
  rw [event_of_not_call hcall]
  exact ⟨y, ⟨hd, .halted y hdh⟩, .nil y⟩

/-! ### Runs -/

/-- A system carries out the thread `k` as the thread on its own. -/
theorem Viewed.advances (hn : 2 ≤ s.threads) (hn' : s.threads ≤ 9) (hk : 1 ≤ k)
    (hk' : k ≤ s.threads) (hs : s.Confined) {y : Option (Int → Int)}
    (hreach : Reaches CPU.step s.boot c) (h : Viewed s k c y) (hstep : c.step = some d) :
  Advances s k c d y
  := by
  obtain ⟨hc, hy⟩ := h
  cases hc with
  | boot h =>
      rw [h] at hy hstep ⊢
      obtain rfl : s.entered = d := Option.some_inj.mp (s.boot_step.symm.trans hstep)
      apply advances_boot hn hn' hk hk' hy
  | entrance h => apply h.advances hn hn' hk hk' hy hstep
  | switched h => apply h.advances hn hn' hk hk' hy hstep
  | last h => apply (h.halts hn' hstep).1.advances (event_of_kernel h.kernelMode)
  | «over» h => apply (h.again hn' hstep).1.advances (event_of_kernel h.kernelMode)
  | thread h =>
      cases hh : c.halted with
      | true =>
          apply advances_halted _ hh hstep
          cases h.threadStep hn' hstep with
          | stays same _ => exact .thread (h.stays hn' same).1
          | prints _ _ running | stops _ running | enters _ _ running =>
              rw [hh] at running
              cases running
      | false =>
          have hdis := hs c hreach h.kernelMode hh
          by_cases hj : c.cell 22 = k
          · subst hj
            cases hy with
            | halted _ hh' =>
                rw [hh] at hh'
                cases hh'
            | ended h3 =>
                have := h.table.state
                omega
            | suspended away _ _ => exact absurd rfl (away h.kernelMode)
            | running _ _ holds => apply h.advances_own hn' hdis hh holds hstep
          · apply h.advances_other hn hn' hk hk' hdis hh hj hy hstep

/-- What is observed of the thread `k` over a run of a system. -/
def System.Observes (s : System) (k : Int) (l : List Event) : Prop :=
  ∃ c, Reaches (logged CPU.step (event k)) (s.boot, []) (c, l)

/-- The memory a thread starts with, given that of the system. -/
def startMemory (k : Int) (cell : Int → Int) (a : Int) : Int :=
  if InSegment k a then cell a else if a = CPU.PC then 1000 * k else 1000 * k + 100

/-- What a system observes of a thread, the thread does on its own. -/
theorem System.Observes.trace (hn : 2 ≤ s.threads) (hn' : s.threads ≤ 9) (hk : 1 ≤ k)
    (hk' : k ≤ s.threads) (hs : s.Confined) {l : List Event} (h : s.Observes k l) :
  ∃ y, Trace (Solo.Step k (s.code k)) (some (startMemory k s.boot.cell)) l y
  := by
  obtain ⟨c, hrun⟩ := h
  apply Trace.of_logged (V := Viewed s k) (fun c d y hreach hc hstep =>
    hc.advances hn hn' hk hk' hs hreach hstep) _ hrun
  use .boot rfl
  obtain ⟨h₁, -, h₃, h₄⟩ := s.boot_entry hk (by omega)
  apply View.suspended
  · intro hu
    rw [s.boot_fields.1] at hu
    cases hu
  · omega
  · constructor
    · rw [h₃, startMemory, if_neg, if_pos rfl]
      change ¬ (1000 * k ≤ 0 ∧ _)
      omega
    · rw [h₄, startMemory, if_neg, if_neg (by decide)]
      change ¬ (1000 * k ≤ 1 ∧ _)
      omega
    · intro a ha
      rw [startMemory, if_pos ha]

/-- Isolation: of two systems that give a thread the same program and data, and whose
threads stay within their segments, what is observed of the thread in one is a prefix of
what is observed in the other. -/
theorem isolation (s₁ s₂ : System) (h₁ : 2 ≤ s₁.threads) (h₁' : s₁.threads ≤ 9)
    (h₂ : 2 ≤ s₂.threads) (h₂' : s₂.threads ≤ 9) (hk : 1 ≤ k) (hk₁ : k ≤ s₁.threads)
    (hk₂ : k ≤ s₂.threads) (hprogram : ∀ a, InSegment k a → s₁.program a = s₂.program a)
    (hdata : ∀ a, InSegment k a → s₁.boot.cell a = s₂.boot.cell a) (hs₁ : s₁.Confined)
    (hs₂ : s₂.Confined) {l₁ l₂ : List Event} (hl₁ : s₁.Observes k l₁) (hl₂ : s₂.Observes k l₂) :
  l₁ <+: l₂ ∨ l₂ <+: l₁
  := by
  obtain ⟨y₁, htrace₁⟩ := hl₁.trace h₁ h₁' hk hk₁ hs₁
  obtain ⟨y₂, htrace₂⟩ := hl₂.trace h₂ h₂' hk hk₂ hs₂
  have hcode : s₁.code k = s₂.code k := by
    funext a
    unfold System.code
    split
    · rename_i ha
      apply hprogram a ha
    · rfl
  have hmemory : startMemory k s₁.boot.cell = startMemory k s₂.boot.cell := by
    funext a
    unfold startMemory
    split
    · rename_i ha
      apply hdata a ha
    · rfl
  rw [hcode, hmemory] at htrace₁
  apply Trace.comparable (Solo.functional k (s₂.code k)) htrace₁ htrace₂

/-! ### Threads that terminate at once -/

/-- A system whose threads start with `SYSCALL HLT`. -/
def brief (n : Int) : System :=
  ⟨n, fun a => if a % 1000 = 0 then some (.syscall .HLT []) else none, [], no_data⟩

/-- A system without data has zeros in user space. -/
theorem brief_cell (n : Int) {a : Int} (ha : 1000 ≤ a) (ha' : a < 10000) :
  (brief n).boot.cell a = 0
  := by
  unfold System.boot
  rw [CPU.cell_set _ _ _ (by omega) (by omega), if_neg (by omega),
    CPU.cell_set _ _ _ (by omega) (by omega), if_neg (by omega),
    CPU.cell_set _ _ _ (by omega) (by omega), if_neg (by omega)]
  apply System.cell_setAll_of _ (by omega) (by omega)
  · intro entry hmem hea
    rw [show (brief n).data = [] from rfl, List.append_nil] at hmem
    obtain h | rfl | h | ⟨-, h⟩ | h := System.kernelData_cases hmem
    · omega
    · change 21 = a at hea
      omega
    · omega
    · omega
    · omega
  · exact .inl rfl

/-- No thread has moved on before it terminated. -/
structure Unmoved (n : Int) (c : CPU) : Prop where
  checkpoint : Checkpoint (brief n) c
  saved : c.halted = false → ∀ j, 1 ≤ j → j ≤ n → c.cell (stateCell j) ≠ 3 →
    c.cell (pcCell j) = 1000 * j
  pc : c.halted = false → c.kernelMode = false → c.cell 0 = 1000 * c.cell 22

theorem unmoved_of_halted {n : Int} (h : Checkpoint (brief n) c) (hh : c.halted = true) :
  Unmoved n c
  := by
  use h
  · intro hh'
    rw [hh] at hh'
    cases hh'
  · intro hh'
    rw [hh] at hh'
    cases hh'

theorem unmoved_of_kernel {n : Int} (h : Checkpoint (brief n) c) (hk : c.kernelMode = true)
    (hsaved : ∀ j, 1 ≤ j → j ≤ n → c.cell (stateCell j) ≠ 3 → c.cell (pcCell j) = 1000 * j) :
  Unmoved n c
  := by
  use h
  · intro _
    apply hsaved
  · intro _ hu
    rw [hk] at hu
    cases hu

/-- The instruction with which a thread starts. -/
theorem InThread.brief_current {n : Int} (h : InThread (brief n) c)
    (hpc : c.cell 0 = 1000 * c.cell 22) :
  c.current = some (.syscall .HLT [])
  := by
  have h₁ := h.table.thread
  rw [CPU.current, h.instructions, sizeT_of_nonneg (by omega), System.instructionMap,
    if_neg (by omega)]
  apply if_pos
  omega

theorem Unmoved.step {n : Int} (hn : 2 ≤ n) (hn' : n ≤ 9) (h : Unmoved n c)
    (hstep : c.step = some d) :
  Leads CPU.step (fun c _ => c.kernelMode = true) (Unmoved n) d
  := by
  obtain ⟨hc, hsaved, hpc⟩ := h
  cases hc with
  | boot h =>
      rw [h] at hstep
      obtain rfl : (brief n).entered = d :=
        Option.some_inj.mp ((brief n).boot_step.symm.trans hstep)
      apply Leads.here
      apply unmoved_of_kernel (.entrance (atEntrance_entered (by change 1 ≤ n; omega) hn'))
        (brief n).entered_runs.kernelMode
      intro j hj hj' _
      apply (entered_entry _ hj (by omega)).2.2
  | entrance h =>
      apply (h.visit hn hn' hstep).mono
      · intro a b hab
        apply hab.kernelMode
      · rintro u ⟨hu, hkept⟩
        have hregisters : ∀ j, 1 ≤ j → j ≤ n → u.cell (stateCell j) ≠ 3 →
            u.cell (pcCell j) = 1000 * j := by
          intro j hj hj' h3
          rw [(hkept.registers j hj hj' trivial).1, hsaved h.halted j hj hj']
          intro h3'
          apply h3 ((hkept.terminated j hj hj' trivial).mpr h3')
        obtain hu | hu := hu
        · apply unmoved_of_kernel (.entrance hu) hu.kernelMode hregisters
        · apply unmoved_of_kernel (.switched hu) hu.kernelMode hregisters
  | switched h =>
      obtain ⟨hd, h22, hkept, hstates, hresumed⟩ := h.resume hn' hstep
      have h₁ := h.table.thread
      have h₂ := h.table.running
      have hstate := h.state
      apply Leads.here
      use .thread hd
      · intro _ j hj hj' h3
        rw [hstates j hj hj'] at h3
        rw [(hkept.registers j hj hj' trivial).1, hsaved h.halted j hj hj' h3]
      · intro hh _
        rw [(hresumed hh).1, h.saved.1, h22, hsaved h.halted _ h₁ h₂.2 (by omega)]
  | thread h =>
      have hcurrent : c.halted = false → c.current = some (.syscall .HLT []) :=
        fun hh => h.brief_current (hpc hh h.kernelMode)
      cases h.threadStep hn' hstep with
      | stays same call =>
          obtain ⟨hh, rfl⟩ | ⟨hh, hi, -⟩ | ⟨instr, hh, hi, -⟩ := CPU.step_cases hstep
          · apply Leads.here (unmoved_of_halted _ (c.bumped_halted.trans hh))
            exact .thread (h.stays hn' same).1
          · rw [hcurrent hh] at hi
            cases hi
          · exact absurd ⟨hh, _, hcurrent hh, rfl⟩ call
      | prints instr a hh hi _ hst =>
          rw [hcurrent hh] at hi
          cases hi
          cases hst
      | stops instr hh hi ht _ stopped =>
          obtain ⟨hd, -⟩ := h.stops hn' ⟨hh, instr, hi, ht⟩ stopped
          apply Leads.here (unmoved_of_halted (.over hd) hd.halted)
      | enters instr st hh hi _ hst _ entered =>
          rw [hcurrent hh] at hi
          cases hi
          cases hst
          apply (h.halts hn' entered).mono
          · intro a b hab
            apply hab.kernelMode
          · rintro u ⟨hu, hkept, h3⟩
            have hregisters : ∀ j, 1 ≤ j → j ≤ n → u.cell (stateCell j) ≠ 3 →
                u.cell (pcCell j) = 1000 * j := by
              intro j hj hj' hj3
              by_cases hjk : j = c.cell 22
              · rw [hjk] at hj3
                exact absurd h3 hj3
              · rw [(hkept.registers j hj hj' hjk).1, hsaved hh j hj hj']
                intro h3'
                apply hj3 ((hkept.terminated j hj hj' hjk).mpr h3')
            obtain hu | hu := hu
            · apply unmoved_of_kernel (.entrance hu) hu.kernelMode hregisters
            · apply unmoved_of_kernel (.last hu) hu.kernelMode hregisters
  | last h =>
      obtain ⟨hd, -⟩ := h.halts hn' hstep
      apply Leads.here (unmoved_of_halted (.over hd) hd.halted)
  | «over» h =>
      obtain ⟨hd, -⟩ := h.again hn' hstep
      apply Leads.here (unmoved_of_halted (.over hd) hd.halted)

theorem brief_confined (n : Int) (hn : 2 ≤ n) (hn' : n ≤ 9) :
  (brief n).Confined
  := by
  intro c hreach hu hh
  have hunmoved : Unmoved n c := by
    have hboot : Unmoved n (brief n).boot := by
      apply unmoved_of_kernel (.boot rfl) (brief n).boot_fields.1
      intro j hj hj' _
      apply ((brief n).boot_entry hj (by omega)).2.2.1
    have hlead : Leads CPU.step (fun c _ => c.kernelMode = true) (Unmoved n) c := by
      apply Reaches.invariant (I := Leads CPU.step (fun c _ => c.kernelMode = true) (Unmoved n))
        _ hreach (.here hboot)
      intro c d hc hstep
      cases hc with
      | here hc => apply hc.step hn hn' hstep
      | next hf _ hlead =>
          cases hf.symm.trans hstep
          exact hlead
    cases hlead with
    | here h => exact h
    | next _ hk _ =>
        rw [hu] at hk
        cases hk
  have hpc := hunmoved.pc hh hu
  constructor
  · unfold InSegment
    omega
  · intro instr hi a ha
    rw [(hunmoved.checkpoint.sound.thread hu).brief_current hpc] at hi
    cases hi
    cases ha

end OperatingSystem
