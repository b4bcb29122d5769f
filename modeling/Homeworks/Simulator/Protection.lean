import Homeworks.Simulator.Step
import Mathlib.Logic.Relation

/-!
# Protection of kernel memory

In user mode no instruction but `SYSCALL` stores to the kernel cells 21 to 999, so over
any run without system calls they keep their contents, the counter cell of the running
thread apart, which `execute` itself updates.  `SYSCALL PRN` stores in addition to the
state cell and the start-time cell of the running thread.
-/

open Relation

namespace Simulator

namespace CPU

/-- The addresses of the kernel cells. -/
def KernelCell (a : Int) : Prop := 21 ≤ a ∧ a ≤ 999

/-- `c'` has the mode, the instructions and the kernel cells of `c`. -/
structure SameKernel (c c' : CPU) : Prop where
  kernelMode : c'.kernelMode = c.kernelMode
  instructions : c'.instructions = c.instructions
  cell : ∀ a, KernelCell a → c'.cell a = c.cell a

theorem SameKernel.refl (c : CPU) : SameKernel c c := ⟨rfl, rfl, fun _ _ => rfl⟩

theorem SameKernel.trans {c₁ c₂ c₃ : CPU} (h : SameKernel c₁ c₂) (k : SameKernel c₂ c₃) :
  SameKernel c₁ c₃
  := by
  constructor
  · rw [k.kernelMode, h.kernelMode]
  · rw [k.instructions, h.instructions]
  · intro a ha
    rw [k.cell a ha, h.cell a ha]

theorem sameKernel_set (c : CPU) {a : Int} (v : Int) (h : ¬ KernelCell a) :
  SameKernel c (c.set a v)
  := by
  constructor
  · rfl
  · rfl
  · intro b hb
    have hne : b ≠ a := by
      rintro rfl
      apply h hb
    obtain ⟨hb₁, hb₂⟩ := hb
    rw [cell_set _ _ _ (by omega) (by omega), if_neg hne]

theorem sameKernel_setAll (c : CPU) (stores : List (Int × Int))
    (h : ∀ store ∈ stores, ¬ KernelCell store.1) :
  SameKernel c (c.setAll stores)
  := by
  induction stores generalizing c with
  | nil => apply SameKernel.refl
  | cons store stores ih =>
      apply (sameKernel_set c store.2 (h store List.mem_cons_self)).trans
      apply ih
      intro s hs
      apply h s (List.mem_cons_of_mem _ hs)

theorem sameKernel_halting (c : CPU) (message : List Output) :
  SameKernel c (c.halting message)
  := ⟨rfl, rfl, fun _ _ => rfl⟩

theorem sameKernel_advance (c : CPU) (pc : Int) :
  SameKernel c (c.advance pc)
  := by
  obtain ⟨hk, -, hi, -, -⟩ := c.advance_fields pc
  constructor
  · apply hk
  · apply hi
  · rintro a ⟨ha, ha'⟩
    apply cell_advance <;> omega

/-- In user mode a valid address is not that of a kernel cell. -/
theorem not_kernelCell_of_valid {c : CPU} (hu : c.kernelMode = false) {a : Int}
    (h : c.valid a = true) :
  ¬ KernelCell a
  := by
  rw [valid_iff_user hu] at h
  rintro ⟨h₁, h₂⟩
  omega

/-! ### The instructions in user mode -/

/-- The state in which an action ends. -/
def finalState : EStateM.Result Stop CPU Unit → CPU
  | .ok _ c => c
  | .error _ c => c

theorem sameKernel_effect {c : CPU} {e : Effect} (h : e.StoresIn (fun a => ¬ KernelCell a)) :
  SameKernel c (finalState (e.result c))
  := by
  cases e with
  | throws what => apply SameKernel.refl
  | violation message => apply sameKernel_halting
  | writes stores => apply sameKernel_setAll c stores h

theorem sameKernel_user {c : CPU} (hu : c.kernelMode = false) (a : Int) :
  SameKernel c (c.userResult a)
  := by
  have hm : c.inMode false = c := by rw [inMode, ← hu]
  unfold userResult
  rw [hm]
  split
  · split
    · apply sameKernel_set
      rintro ⟨h, -⟩
      exact absurd h (by decide)
    · apply sameKernel_halting
  · apply sameKernel_halting

/-- In user mode an instruction other than `SYSCALL` leaves the kernel cells and the mode
as they are. -/
theorem sameKernel_handler {c : CPU} (hu : c.kernelMode = false) {instr : Instruction}
    (h : instr.type ≠ .SYSCALL) :
  SameKernel c (finalState ((instructionHandlers instr.type instr).run c))
  := by
  by_cases hp : Plain instr
  · rw [handler_run c instr hp]
    apply sameKernel_effect
    apply (effect_storesIn _ _ instr (valid_PC c) (valid_SP c)).mono
    intro stores hv store hs
    apply not_kernelCell_of_valid hu (hv store hs)
  · cases ht : instr.type with
    | HLT => exact ⟨rfl, rfl, fun _ _ => rfl⟩
    | USER =>
        by_cases hl : instr.operands.length = 1
        · obtain ⟨a, ha⟩ := List.length_eq_one_iff.mp hl
          simp only [instructionHandlers, executeUSER_one c instr a ha]
          apply sameKernel_user hu
        · simp only [instructionHandlers, executeUSER_other c instr hl, finalState]
          rw [inMode, ← hu]
          apply SameKernel.refl
    | SYSCALL => cases h ht
    | _ => exact absurd ⟨by simp [ht], by simp [ht], by simp [ht]⟩ hp

/-- What `execute` does after the handler changes the instruction count and the program
counter only. -/
theorem cell_finish {pc : Int} {r : EStateM.Result Stop CPU Unit} {c' : CPU}
    (hr : finish pc r = .ok () c') {a : Int} (ha : 0 ≤ a) (ha' : a < 10000) (h0 : a ≠ 0)
    (h3 : a ≠ 3) :
  c'.cell a = (finalState r).cell a
  := by
  cases r with
  | ok _ c₁ =>
      cases hr
      apply cell_advance _ _ ha ha' h0 h3
  | error stop c₁ =>
      cases stop with
      | exception what =>
          cases hr
          rfl
      | undefined => cases hr

theorem sameKernel_finish {pc : Int} {r : EStateM.Result Stop CPU Unit} {c c' : CPU}
    (h : SameKernel c (finalState r)) (hr : finish pc r = .ok () c') :
  SameKernel c c'
  := by
  cases r with
  | ok _ c₁ =>
      cases hr
      apply h.trans (sameKernel_advance _ _)
  | error stop c₁ =>
      cases stop with
      | exception what =>
          cases hr
          apply h.trans (sameKernel_halting _ _)
      | undefined => cases hr

/-! ### Runs in user mode -/

/-- The step from this state executes a system call. -/
def AtSyscall (c : CPU) : Prop :=
  c.halted = false ∧ ∃ instr, c.current = some instr ∧ instr.type = .SYSCALL

instance (c : CPU) : Decidable c.AtSyscall :=
  decidable_of_iff (c.halted = false ∧ c.current.any (fun instr => instr.type = .SYSCALL) = true)
    (by simp [AtSyscall, Option.any_eq_true])

/-- `execute` returns, and executes no system call. -/
def UserStep (c c' : CPU) : Prop := c.step = some c' ∧ ¬ c.AtSyscall

/-- In user mode a step without system call changes no kernel cell but the counter. -/
theorem sameKernel_userStep {c c' : CPU} (hu : c.kernelMode = false) (h : UserStep c c') :
  SameKernel c.bumped c'
  := by
  obtain ⟨hstep, hs⟩ := h
  obtain ⟨-, rfl⟩ | ⟨-, -, rfl⟩ | ⟨instr, hh, hi, hr⟩ := step_cases hstep
  · apply SameKernel.refl
  · apply sameKernel_halting
  · apply sameKernel_finish _ hr
    apply sameKernel_handler
    · rw [bumped_kernelMode, hu]
    · intro ht
      apply hs ⟨hh, instr, hi, ht⟩

/-- Before the step and apart from the counter cell, `bumped` has the kernel cells of `c`. -/
theorem cell_bumped_kernel (c : CPU) {a : Int} (h : KernelCell a) (hc : a ≠ 502 + 10 * c.cell 22) :
  c.bumped.cell a = c.cell a
  := by
  obtain ⟨h₁, h₂⟩ := h
  rw [cell_bumped c (by omega) (by omega), if_neg]
  rintro ⟨-, rfl⟩
  apply hc
  unfold countAddr
  omega

/-- Over a run without system calls the CPU stays in user mode. -/
theorem userRun_mode {c c' : CPU} (hu : c.kernelMode = false) (h : ReflTransGen UserStep c c') :
  c'.kernelMode = false
  := by
  induction h with
  | refl => exact hu
  | tail _ hstep ih => rw [(sameKernel_userStep ih hstep).kernelMode, bumped_kernelMode, ih]

/-- Over a run in user mode without system calls the kernel cells keep their contents,
the counter cell of the running thread apart. -/
theorem userRun_frame {c c' : CPU} (hu : c.kernelMode = false) (h22 : c.cell 22 ≠ -48)
    (h : ReflTransGen UserStep c c') :
  (∀ a, KernelCell a → a ≠ 502 + 10 * c.cell 22 → c'.cell a = c.cell a)
    ∧ c'.cell 22 = c.cell 22
  := by
  induction h with
  | refl => exact ⟨fun _ _ _ => rfl, rfl⟩
  | @tail d d' hrun hstep ih =>
      obtain ⟨hcells, hthread⟩ := ih
      have hframe := sameKernel_userStep (userRun_mode hu hrun) hstep
      have hcell : ∀ a, KernelCell a → a ≠ 502 + 10 * c.cell 22 → d'.cell a = d.cell a := by
        intro a ha hne
        rw [hframe.cell a ha, cell_bumped_kernel d ha]
        rw [hthread]
        apply hne
      constructor
      · intro a ha hne
        rw [hcell a ha hne, hcells a ha hne]
      · rw [hcell 22 ⟨by omega, by omega⟩ (by omega), hthread]

/-! ### The print system call -/

theorem cell_marked_of_ne (c : CPU) {a : Int} (h₀ : 0 ≤ a) (h₁ : a < 10000) (hne : a ≠ 0) :
  c.marked.cell a =
    if a = c.threadTable + 1 then (c.set (c.threadTable + 3) 2).cell 3
    else if a = c.threadTable + 3 then 2 else c.cell a
  := by
  simp only [marked]
  rw [cell_set _ _ _ h₀ h₁, if_neg hne, cell_set _ _ _ h₀ h₁, cell_set _ _ _ h₀ h₁]

/-- `SYSCALL PRN` marks the running thread: of the kernel cells it changes the state cell
and the start-time cell of the thread. -/
theorem cell_marked (c : CPU) {a : Int} (h : KernelCell a) (hstate : a ≠ c.threadTable + 3)
    (hstart : a ≠ c.threadTable + 1) :
  c.marked.cell a = c.cell a
  := by
  obtain ⟨h₁, h₂⟩ := h
  rw [cell_marked_of_ne c (by omega) (by omega) (by omega), if_neg hstart, if_neg hstate]

/-- However `SYSCALL PRN` ends, of the kernel cells it changes the state cell and the
start-time cell of the running thread only. -/
theorem cell_prnResult (c : CPU) (instr : Instruction) {a : Int} (h : KernelCell a)
    (hstate : a ≠ c.threadTable + 3) (hstart : a ≠ c.threadTable + 1) :
  (finalState (c.prnResult instr)).cell a = c.cell a
  := by
  have hm := cell_marked c h hstate hstart
  obtain ⟨h₁, h₂⟩ := h
  unfold prnResult
  split
  · rfl
  · split
    · simp only [finalState]
      rw [cell_set _ _ _ (by omega) (by omega), if_neg hstate]
    · split
      · apply hm
      · split
        · apply hm
        · apply hm

/-- Thread 1 in user mode, about to store to its segment and then to print. -/
def storing : CPU :=
  { ((new.set 0 1000).set 22 1).inMode false with
    instructions := fun a =>
      if a = 1000 then some (.of .SET [7, 1500])
      else if a = 1001 then some (.syscall .PRN [1500])
      else none }

/-- A state in which the counter cell of the running thread is cell 22. -/
def counting : CPU := ((new.set 0 (-48000)).set 22 (-48)).inMode false

end CPU

end Simulator
