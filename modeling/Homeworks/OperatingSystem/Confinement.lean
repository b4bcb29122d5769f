import Homeworks.OperatingSystem.Invariant
import Homeworks.OperatingSystem.Solo

/-!
# Threads that stay within their segments

A step of a thread whose code, operands and stack lie within its segment is what the
thread does on its own, and changes nothing outside of the segment.
-/

open Simulator StateTransition Transition Relation

namespace OperatingSystem

variable {s : System} {k : Int} {c d : CPU} {m : Int → Int} {instr : Instruction}

/-! ### The discipline -/

/-- In user mode: the instruction lies in the segment of the running thread, and so do the
cells that it accesses. -/
structure Disciplined (c : CPU) : Prop where
  code : InSegment (c.cell 22) (c.cell 0)
  data : ∀ instr, c.current = some instr →
    ∀ a ∈ CPU.accesses c.cell instr, InSegment (c.cell 22) a

/-- A disciplined thread prints a cell of its segment. -/
theorem Disciplined.operand {a : Int} (h : Disciplined c) (hi : c.current = some instr)
    (ht : instr.type = .SYSCALL) (hst : instr.syscallType = some .PRN)
    (ho : instr.operands[0]? = some a) :
  InSegment (c.cell 22) a
  := by
  apply h.data instr hi
  cases hops : instr.operands with
  | nil =>
      rw [hops] at ho
      cases ho
  | cons b ops =>
      rw [hops] at ho
      cases ho
      simp [CPU.accesses, ht, hops, hst]

/-- Over all runs of a system the threads stay within their segments. -/
def System.Confined (s : System) : Prop :=
  ∀ c, Reaches CPU.step s.boot c → c.kernelMode = false → c.halted = false → Disciplined c

/-! ### The memory of a thread in the system -/

/-- The running thread has the memory `m`. -/
def Holds (k : Int) (c : CPU) (m : Int → Int) : Prop := ∀ a, own k a = true → c.cell a = m a

/-- A thread that is not running has the memory `m`. -/
structure Stored (k : Int) (c : CPU) (m : Int → Int) : Prop where
  pc : c.cell (pcCell k) = m CPU.PC
  sp : c.cell (spCell k) = m CPU.SP
  segment : ∀ a, InSegment k a → c.cell a = m a

theorem own_bounds (hk : 1 ≤ k) (hk' : k ≤ 9) {a : Int} (h : own k a = true) :
  0 ≤ a ∧ (a ≤ 20 ∨ 1000 ≤ a) ∧ a < 10000 ∧ a ≠ 3 ∧ a ≠ 502 + 10 * k
  := by
  rw [own_iff] at h
  omega

section

variable (hk : 1 ≤ k) (hk' : k ≤ 9)

include hk hk'

theorem Holds.bumped (h22 : c.cell 22 = k) (h : Holds k c m) :
  Holds k c.bumped m
  := by
  intro a ha
  have hb := own_bounds hk hk' ha
  rw [cell_bumped_of_ne hb.1 hb.2.2.1 (by omega), h a ha]

theorem Holds.setAll (h : Holds k c m) (stores : List (Int × Int)) :
  Holds k (c.setAll stores) (Solo.storeAll m stores)
  := by
  induction stores generalizing c m with
  | nil => apply h
  | cons store stores ih =>
      apply ih
      intro a ha
      have hb := own_bounds hk hk' ha
      dsimp only
      rw [CPU.cell_set _ _ _ hb.1 hb.2.2.1, Function.update_apply, h a ha]

theorem Holds.advance (h : Holds k c m) (pc : Int) :
  Holds k (c.advance pc) (Solo.advance pc m)
  := by
  have hPC : c.cell CPU.PC = m CPU.PC := h _ (own_iff.mpr (.inl rfl))
  intro a ha
  have hb := own_bounds hk hk' ha
  unfold Solo.advance
  by_cases h0 : a = CPU.PC
  · rw [h0, CPU.cell_PC_advance, hPC]
    split
    · rw [Function.update_self]
    · rfl
  · rw [CPU.cell_advance _ _ hb.1 hb.2.2.1 h0 hb.2.2.2.1, h a ha]
    split
    · rw [Function.update_of_ne h0]
    · rfl

end

/-! ### A step of the running thread -/

theorem InThread.current (h : InThread s c) (hd : Disciplined c) (hi : c.current = some instr) :
  s.program (c.cell 0) = some instr
  := by
  have hcode := hd.code
  have h₁ := h.table.thread
  unfold InSegment at hcode
  rw [CPU.current, h.instructions, sizeT_of_nonneg (by omega), System.instructionMap,
    if_neg (by omega)] at hi
  apply hi

/-- The effect of a disciplined instruction is that on the memory of the thread. -/
theorem effect_disciplined (hu : c.kernelMode = false) (h₁ : 1 ≤ c.cell 22) (h₁' : c.cell 22 ≤ 9)
    (hd : Disciplined c) (hi : c.current = some instr) (hm : Holds (c.cell 22) c m) :
  CPU.effect c.bumped.valid c.bumped.cell instr = CPU.effect (own (c.cell 22)) m instr
  := by
  have hvalid : c.bumped.valid = c.valid := by
    funext a
    unfold CPU.valid
    rw [CPU.bumped_kernelMode]
  have hown : ∀ a, own (c.cell 22) a = true → c.valid a = true := by
    intro a ha
    have hb := own_bounds h₁ h₁' ha
    apply (CPU.valid_iff_user hu a).mpr ⟨hb.1, hb.2.1, hb.2.2.1⟩
  calc CPU.effect c.bumped.valid c.bumped.cell instr
    _ = CPU.effect c.valid c.bumped.cell instr := by rw [hvalid]
    _ = CPU.effect c.valid c.cell instr := by
        apply CPU.effect_congr instr c.valid_PC c.valid_SP
        intro a ha
        rw [CPU.valid_iff_user hu] at ha
        apply cell_bumped_of_ne ha.1 ha.2.2
        omega
    _ = CPU.effect (own (c.cell 22)) c.cell instr := by
        apply CPU.effect_of_accesses
        intro a ha
        have hseg : own (c.cell 22) a = true := own_iff.mpr (.inr (.inr (hd.data instr hi a ha)))
        rw [hseg, hown a hseg]
    _ = CPU.effect (own (c.cell 22)) m instr :=
        CPU.effect_congr instr (own_iff.mpr (.inl rfl)) (own_iff.mpr (.inr (.inl rfl))) hm

/-- What a step of the thread `k` amounts to on its memory `m`. -/
structure Carried (k : Int) (m : Int → Int) (c d : CPU) : Prop where
  frame : ∀ a, 1000 ≤ a → a < 10000 → ¬ InSegment k a → d.cell a = c.cell a
  memory : d.halted = false → ∃ instr m', c.current = some instr
    ∧ Solo.result k instr m = ([], some m') ∧ Holds k d m'

theorem frame_bumped {a : Int} (h₁ : 1 ≤ c.cell 22) (h₁' : c.cell 22 ≤ 9) (ha : 1000 ≤ a)
    (ha' : a < 10000) :
  c.bumped.cell a = c.cell a
  := by
  apply cell_bumped_of_ne <;> omega

/-- A step that halts the CPU and stores nothing. -/
theorem carried_of_halted (hcell : ∀ a, 1000 ≤ a → a < 10000 → d.cell a = c.cell a)
    (hh : d.halted = true) :
  Carried k m c d
  := by
  constructor
  · intro a ha ha' _
    apply hcell a ha ha'
  · intro hh'
    rw [hh] at hh'
    cases hh'

section

variable (h₁ : 1 ≤ c.cell 22) (h₁' : c.cell 22 ≤ 9) (hi : c.current = some instr)
  (hm : Holds (c.cell 22) c m) (hd : Disciplined c)

include h₁ h₁' hi hm

/-- The stores of an instruction, and the advance of the program counter after them. -/
theorem carried_of_stores (stores : List (Int × Int))
    (hin : ∀ store ∈ stores, own (c.cell 22) store.1 = true) {b : Bool}
    (hresult : Solo.result (c.cell 22) instr m
      = ([], some (Solo.advance (m CPU.PC) (Solo.storeAll m stores)))) :
  Carried (c.cell 22) m c (((c.bumped.inMode b).setAll stores).advance (c.cell CPU.PC))
  := by
  have hpc : c.cell CPU.PC = m CPU.PC := hm _ (own_iff.mpr (.inl rfl))
  have hb : Holds (c.cell 22) (c.bumped.inMode b) m := hm.bumped h₁ h₁' rfl
  constructor
  · intro a ha ha' hne
    rw [CPU.cell_advance _ _ (by omega) ha' (by omega) (by omega),
      CPU.cell_setAll _ (by omega) ha', CPU.cell_inMode, frame_bumped h₁ h₁' ha ha']
    rintro store hmem rfl
    have := own_iff.mp (hin store hmem)
    unfold InSegment at hne
    omega
  · intro _
    refine ⟨instr, _, hi, hresult, ?_⟩
    rw [hpc]
    apply (hb.setAll h₁ h₁' stores).advance h₁ h₁'

include hd

theorem carried_plain (hu : c.kernelMode = false) (hp : CPU.Plain instr)
    (hr : CPU.finish (c.cell CPU.PC) ((CPU.instructionHandlers instr.type instr).run c.bumped)
      = .ok () d) :
  Carried (c.cell 22) m c d
  := by
  have hframe := fun a => frame_bumped (a := a) h₁ h₁'
  have hmode : c.bumped.inMode false = c.bumped := by
    rw [CPU.inMode, ← hu, ← c.bumped_kernelMode]
  have hresult : ∀ stores, CPU.effect (own (c.cell 22)) m instr = .writes stores →
      Solo.result (c.cell 22) instr m
        = ([], some (Solo.advance (m CPU.PC) (Solo.storeAll m stores))) := by
    intro stores he
    obtain ⟨hH, hU, hS⟩ := hp
    unfold Solo.result
    split
    · contradiction
    · contradiction
    · contradiction
    · rw [he]
  have hin := CPU.effect_storesIn (own (c.cell 22)) m instr (own_iff.mpr (.inl rfl))
    (own_iff.mpr (.inr (.inl rfl)))
  rw [CPU.handler_run _ _ hp, effect_disciplined hu h₁ h₁' hd hi hm] at hr
  cases he : CPU.effect (own (c.cell 22)) m instr with
  | throws what =>
      rw [he] at hr
      cases hr
      exact carried_of_halted hframe rfl
  | violation message =>
      rw [he] at hr
      cases hr
      apply carried_of_halted _ (CPU.advance_fields _ _).2.1
      intro a ha ha'
      rw [CPU.cell_advance _ _ (by omega) ha' (by omega) (by omega)]
      apply hframe a ha ha'
  | writes stores =>
      rw [he] at hr hin
      cases hr
      have hcarried := carried_of_stores h₁ h₁' hi hm stores (b := false) hin (hresult stores he)
      rw [hmode] at hcarried
      exact hcarried

theorem carried_user (ht : instr.type = .USER)
    (hr : CPU.finish (c.cell CPU.PC) ((CPU.executeUSER instr).run c.bumped) = .ok () d) :
  Carried (c.cell 22) m c d
  := by
  have hframe := fun a => frame_bumped (a := a) h₁ h₁'
  by_cases hl : instr.operands.length = 1
  · obtain ⟨a, ha⟩ := List.length_eq_one_iff.mp hl
    have hown : InSegment (c.cell 22) a := by
      apply hd.data instr hi
      simp [CPU.accesses, ht, ha]
    have hcell : c.bumped.cell a = m a :=
      hm.bumped h₁ h₁' rfl a (own_iff.mpr (.inr (.inr hown)))
    unfold InSegment at hown
    rw [CPU.executeUSER_one _ _ a ha, CPU.userResult,
      if_pos (sizeT_lt_iff.mpr ⟨by omega, by omega⟩), hcell] at hr
    by_cases hv : UserAddress (m a)
    · rw [if_pos (isAddressValid_user.mpr hv)] at hr
      cases hr
      apply carried_of_stores h₁ h₁' hi hm [(CPU.PC, m a)]
      · intro store hmem
        obtain rfl := List.mem_singleton.mp hmem
        exact own_iff.mpr (.inl rfl)
      · unfold Solo.result
        rw [ht, ha]
        exact if_pos hv
    · rw [if_neg (fun hv' => hv (isAddressValid_user.mp hv'))] at hr
      cases hr
      apply carried_of_halted _ (CPU.advance_fields _ _).2.1
      intro b hb hb'
      rw [CPU.cell_advance _ _ (by omega) hb' (by omega) (by omega)]
      apply hframe b hb hb'
  · rw [CPU.executeUSER_other _ _ hl] at hr
    cases hr
    apply carried_of_stores h₁ h₁' hi hm []
    · intro store hmem
      cases hmem
    · unfold Solo.result
      rw [ht]
      dsimp only
      split
      · rename_i a ha
        rw [ha] at hl
        exact absurd rfl hl
      · rfl

end

/-- A disciplined step without system call is that of the thread on its own. -/
theorem InThread.carried (h : InThread s c) (hn' : s.threads ≤ 9) (hd : Disciplined c)
    (hh : c.halted = false) (hcall : ¬ c.AtSyscall) (hm : Holds (c.cell 22) c m)
    (hstep : c.step = some d) :
  Carried (c.cell 22) m c d
  := by
  have h₁ := h.table.thread
  have h₁' : c.cell 22 ≤ 9 := h.table.running.2.trans hn'
  have hframe := fun a => frame_bumped (a := a) h₁ h₁'
  obtain ⟨hh', -⟩ | ⟨-, -, rfl⟩ | ⟨instr, -, hi, hr⟩ := CPU.step_cases hstep
  · rw [hh] at hh'
    cases hh'
  · exact carried_of_halted hframe rfl
  by_cases hp : CPU.Plain instr
  · apply carried_plain h₁ h₁' hi hm hd h.kernelMode hp hr
  · cases ht : instr.type with
    | HLT =>
        simp only [ht, CPU.instructionHandlers] at hr
        cases hr
        apply carried_of_halted _ (CPU.advance_fields _ _).2.1
        intro a ha ha'
        rw [CPU.cell_advance _ _ (by omega) ha' (by omega) (by omega)]
        apply hframe a ha ha'
    | SYSCALL => exact absurd ⟨hh, instr, hi, ht⟩ hcall
    | USER =>
        simp only [ht, CPU.instructionHandlers] at hr
        apply carried_user h₁ h₁' hi hm hd ht hr
    | _ => exact absurd ⟨by simp [ht], by simp [ht], by simp [ht]⟩ hp

end OperatingSystem
