import Homeworks.OperatingSystem.Rules
import Mathlib.Tactic.Ring

/-!
# The handlers of the system calls

`SYSCALL YIELD` saves the program counter and the stack pointer of the running thread in
its entry, and marks the thread as ready unless it is blocked.  `SYSCALL HLT` marks it as
terminated.  The offset of a thread in the thread table is computed by repeated addition, with
the same code in both handlers and in the scheduler.
-/

/-! ### The entry of a thread -/

open Simulator StateTransition Transition

namespace OperatingSystem

/-- Only the cells 50 to 61 differ. -/
def SameButScratch (m m' : Int → Int) : Prop := ∀ a, a < 50 ∨ 61 < a → m' a = m a

theorem SameButScratch.refl (m : Int → Int) : SameButScratch m m := fun _ _ => rfl

theorem SameButScratch.trans {m m' m'' : Int → Int} (h : SameButScratch m m')
    (h' : SameButScratch m' m'') :
  SameButScratch m m''
  := fun a ha => (h' a ha).trans (h a ha)

@[simp] theorem sameButScratch_update {m m' : Int → Int} {a v : Int} (ha : 50 ≤ a)
    (ha' : a ≤ 61) :
  SameButScratch m (Function.update m' a v) ↔ SameButScratch m m'
  := by
  apply forall_congr'
  intro b
  constructor
  · intro h hb
    rw [← h hb, Function.update_of_ne (by omega)]
  · intro h hb
    rw [Function.update_of_ne (by omega), h hb]

namespace Kernel

variable {T S : Int → Prop} {P : Kernel → Prop} {t : Int} {m : Int → Int}

/-- The code at `b` that multiplies the number in cell `c` by ten. -/
structure EntryCode (b c : Int) : Prop where
  load : kernelCode b = some (.of .CPY [c, 50])
  size : kernelCode (b + 1) = some (.of .SET [10, 51])
  result : kernelCode (b + 2) = some (.of .SET [0, 52])
  counter : kernelCode (b + 3) = some (.of .CPY [50, 53])
  exit : kernelCode (b + 4) = some (.of .JIF [53, b + 8])
  sum : kernelCode (b + 5) = some (.of .ADDI [52, 51])
  decrement : kernelCode (b + 6) = some (.of .ADD [53, -1])
  again : kernelCode (b + 7) = some (.of .JIF [24, b + 4])
  apart : b + 7 < 700 ∨ 700 < b

theorem entryCode_yield : EntryCode 400 22 := ⟨rfl, rfl, rfl, rfl, rfl, rfl, rfl, rfl, by decide⟩

theorem entryCode_hlt : EntryCode 430 22 := ⟨rfl, rfl, rfl, rfl, rfl, rfl, rfl, rfl, by decide⟩

theorem entryCode_scheduler : EntryCode 730 23 :=
  ⟨rfl, rfl, rfl, rfl, rfl, rfl, rfl, rfl, by decide⟩

theorem scratch_of_apart {pc a : Int} (hpc : pc ≠ 700) (ha : 0 < a ∧ a < 500 ∧ a ≠ 3 ∧ a ≠ 22) :
  Scratch pc a
  := ⟨hpc, ha⟩

/-- The loop adds cell 51 to cell 52 as many times as cell 53 says. -/
theorem sumLoop {b c : Int} (hc : EntryCode b c) (n : Nat) (h24 : m 24 = 0) (h53 : m 53 = n)
    (h : ∀ m', m' 52 = m 52 + n * m 51 → SameButScratch m m' →
      Leads step (Quiet T S) P ⟨b + 8, t + (4 * n + 1), m'⟩) :
  Leads step (Quiet T S) P ⟨b + 4, t, m⟩
  := by
  have ha := hc.apart
  induction n generalizing t m with
  | zero =>
      apply jif hc.exit (by decide) ⟨by omega, by omega⟩ h53.le
      apply h m _ (SameButScratch.refl m)
      simp
  | succ n ih =>
      apply jifNot hc.exit (by decide) (by omega) (by omega)
      rw [show b + 4 + 1 = b + 5 by ring]
      apply addi hc.sum (scratch_of_apart (by omega) (by decide)) (by decide)
      rw [show b + 5 + 1 = b + 6 by ring]
      apply add hc.decrement (scratch_of_apart (by omega) (by decide))
      rw [show b + 6 + 1 = b + 7 by ring]
      apply jif hc.again (by decide) ⟨by omega, by omega⟩
      · simp [h24]
      · apply ih
        · simp [h24]
        · simp [h53]
        · intro m' h52 hm'
          have hs : SameButScratch m m' := by
            apply SameButScratch.trans _ hm'
            simp [SameButScratch.refl]
          have ht : t + 1 + 1 + 1 + 1 + (4 * n + 1) = t + (4 * ((n + 1 : Nat) : Int) + 1) := by
            push_cast
            ring
          rw [ht]
          apply h m' _ hs
          rw [h52]
          simp
          ring

/-- The code leaves ten times the number of the thread in cell 52. -/
theorem entryAddress {b c : Int} (hc : EntryCode b c) (hcell : Cell c ∧ c < 50) (h24 : m 24 = 0)
    (hk : 0 ≤ m c)
    (h : ∀ m', m' 52 = 10 * m c → SameButScratch m m' →
      Leads step (Quiet T S) P ⟨b + 8, t + (4 * m c + 5), m'⟩) :
  Leads step (Quiet T S) P ⟨b, t, m⟩
  := by
  have ha := hc.apart
  apply cpy hc.load (scratch_of_apart (by omega) (by decide)) hcell.1
  apply set hc.size (scratch_of_apart (by omega) (by decide))
  rw [show b + 1 + 1 = b + 2 by ring]
  apply set hc.result (scratch_of_apart (by omega) (by decide))
  rw [show b + 2 + 1 = b + 3 by ring]
  apply cpy hc.counter (scratch_of_apart (by omega) (by decide)) (by decide)
  rw [show b + 3 + 1 = b + 4 by ring]
  obtain ⟨n, hn⟩ := Int.eq_ofNat_of_zero_le hk
  apply sumLoop hc n
  · simp [h24]
  · simp [hn]
  · intro m' h52 hm'
    rw [show t + 1 + 1 + 1 + 1 + (4 * n + 1) = t + (4 * m c + 5) by rw [hn]; ring]
    apply h
    · rw [h52, hn]
      simp
      ring
    · apply SameButScratch.trans _ hm'
      simp [SameButScratch.refl]

end Kernel

end OperatingSystem

/-! ### The handlers of the system calls -/

open Simulator StateTransition Transition

namespace OperatingSystem

/-- The cell with the saved program counter of a thread. -/
def pcCell (j : Int) : Int := 504 + 10 * j

/-- The cell with the saved stack pointer of a thread. -/
def spCell (j : Int) : Int := 505 + 10 * j

/-- The handler of `SYSCALL YIELD` takes the memory `m` to `m'`. -/
structure Saved (m m' : Int → Int) : Prop where
  state : m' (stateCell (m 22))
    = if 2 ≤ m (stateCell (m 22)) then m (stateCell (m 22)) else 0
  pc : m' (pcCell (m 22)) = m 4
  sp : m' (spCell (m 22)) = m 1
  frame : ∀ a, a < 50 ∨ 61 < a → a ≠ stateCell (m 22) → a ≠ pcCell (m 22) →
    a ≠ spCell (m 22) → m' a = m a

/-- The thread table lies above the scratch cells. -/
theorem table_apart {k : Int} (hk : 0 ≤ k) :
  (∀ a, a ≤ 500 → a ≠ stateCell k) ∧ (∀ a, a ≤ 500 → a ≠ pcCell k)
    ∧ (∀ a, a ≤ 500 → a ≠ spCell k)
  := by
  unfold stateCell pcCell spCell
  refine ⟨?_, ?_, ?_⟩ <;> omega

/-- The start times are in cells of their own. -/
theorem startCell_apart (k j : Int) :
  stateCell k ≠ startCell j ∧ pcCell k ≠ startCell j ∧ spCell k ≠ startCell j
  := by
  unfold stateCell pcCell spCell startCell
  omega

theorem cell_pcCell {k : Int} (hk : 0 ≤ k) (hk' : k ≤ 10) :
  Cell (pcCell k)
  := by
  unfold pcCell Cell
  omega

theorem cell_spCell {k : Int} (hk : 0 ≤ k) (hk' : k ≤ 10) :
  Cell (spCell k)
  := by
  unfold spCell Cell
  omega

namespace Kernel

variable {T S : Int → Prop} {P : Kernel → Prop} {t k : Int} {m : Int → Int}

/-- The code at 400 asks whether the running thread is blocked. -/
theorem yield_state (hk : m 22 = k) (hk₀ : 0 ≤ k) (hk' : k ≤ 10) (h24 : m 24 = 0)
    (hready : ∀ t' m', t < t' → m' 52 = stateCell k → SameButScratch m m' →
      m (stateCell k) < 2 → Leads step (Quiet T S) P ⟨417, t', m'⟩)
    (hblocked : ∀ t' m', t < t' → m' 52 = stateCell k → SameButScratch m m' →
      2 ≤ m (stateCell k) → Leads step (Quiet T S) P ⟨420, t', m'⟩) :
  Leads step (Quiet T S) P ⟨400, t, m⟩
  := by
  apply entryAddress entryCode_yield (by decide) h24 (by omega)
  intro m₁ h52 hm₁
  have haddr : m₁ 52 + 500 + 3 = stateCell k := by
    unfold stateCell
    omega
  have hne : stateCell k ≠ 52 := ((table_apart hk₀).1 52 (by decide)).symm
  have hstate : m₁ (stateCell k) = m (stateCell k) := by
    apply hm₁
    unfold stateCell
    omega
  apply add rfl (by decide)
  apply add rfl (by decide)
  apply cpyi rfl (by decide) (by decide) (x := stateCell k)
  · simp [haddr]
  · apply cell_stateCell hk₀ hk'
  apply set rfl (by decide)
  apply subi rfl (by decide) (by decide)
  rcases lt_or_ge (m (stateCell k)) 2 with hlt | hge
  · apply jifNot rfl (by decide) (by decide)
    · simpa [hne, hstate] using hlt
    apply jif rfl (by decide) (by decide)
    · simp [hm₁ 24, h24]
    apply hready _ _ (by omega) _ _ hlt
    · simp [haddr]
    · simpa using hm₁
  · apply jif rfl (by decide) (by decide)
    · simpa [hne, hstate] using hge
    apply hblocked _ _ (by omega) _ _ hge
    · simp [haddr]
    · simpa using hm₁

/-- The code at 417 marks the running thread as ready. -/
theorem yield_ready (hk₀ : 0 ≤ k) (hk' : k ≤ 10) (h52 : m 52 = stateCell k)
    (hlt : m (stateCell k) < 2)
    (h : ∀ t' m', t < t' → SameButScratch (Function.update m (stateCell k) 0) m' → m' 52 = m 52 →
      Leads step (Quiet T S) P ⟨420, t', m'⟩) :
  Leads step (Quiet T S) P ⟨417, t, m⟩
  := by
  obtain ⟨hlow, -, -⟩ := table_apart hk₀
  have hne : ∀ a, 50 ≤ a → a ≤ 61 → stateCell k ≠ a := by
    intro a _ ha
    apply (hlow a (by omega)).symm
  apply set rfl (by decide)
  apply set rfl (by decide)
  apply cpyi2 rfl (by decide) (by decide) (by decide) (x := 54) (y := stateCell k)
  · simp
  · simpa using h52
  · decide
  · apply cell_stateCell hk₀ hk'
  · intro j _ _ _ h3
    simp [hne] at h3
    omega
  · intro j _ _
    apply (startCell_apart k j).1
  · apply (hlow 22 (by decide)).symm
  apply h _ _ (by omega)
  · rw [Function.update_comm (hne 55 (by omega) (by omega)).symm,
      Function.update_comm (hne 54 (by omega) (by omega)).symm]
    simp [SameButScratch.refl]
  · simp [hlow]

/-- The code at 420 saves the program counter and the stack pointer. -/
theorem yield_registers (hk₀ : 0 ≤ k) (hk' : k ≤ 10) (h24 : m 24 = 0) (h52 : m 52 = stateCell k)
    (h : ∀ t' m', t < t' →
      SameButScratch (Function.update (Function.update m (pcCell k) (m 4)) (spCell k) (m 1)) m' →
      Leads step (Quiet T S) P ⟨700, t', m'⟩) :
  Leads step (Quiet T S) P ⟨420, t, m⟩
  := by
  obtain ⟨-, hlow, hlow'⟩ := table_apart hk₀
  have hpc : m 52 + 1 = pcCell k := by
    rw [h52]
    unfold stateCell pcCell
    ring
  have hsp : pcCell k + 1 = spCell k := by
    unfold spCell pcCell
    ring
  apply cpy rfl (by decide) (by decide)
  apply add rfl (by decide)
  apply set rfl (by decide)
  apply cpyi2 rfl (by decide) (by decide) (by decide) (x := 53) (y := pcCell k)
  · simp
  · simp [hpc]
  · decide
  · apply cell_pcCell hk₀ hk'
  · intro j _ _ hj
    unfold pcCell stateCell at hj
    omega
  · intro j _ _
    apply (startCell_apart k j).2.1
  · apply (hlow 22 (by decide)).symm
  apply cpy rfl (by decide) (by decide)
  apply add rfl (by decide)
  apply set rfl (by decide)
  apply cpyi2 rfl (by decide) (by decide) (by decide) (x := 53) (y := spCell k)
  · simp
  · simp [hlow, hpc, hsp]
  · decide
  · apply cell_spCell hk₀ hk'
  · intro j _ _ hj
    unfold spCell stateCell at hj
    omega
  · intro j _ _
    apply (startCell_apart k j).2.2
  · apply (hlow' 22 (by decide)).symm
  apply jif rfl (by decide) (by decide)
  · simp [hlow, hlow', h24]
  apply h _ _ (by omega)
  intro a ha
  have hne : ∀ b, 50 ≤ b → b ≤ 61 → a ≠ b := by omega
  simp [Function.update_apply, hne, hlow]

theorem saved_of_registers {m₁ m' : Int → Int} (hk₀ : 0 ≤ m 22)
    (hstate : m₁ (stateCell (m 22))
      = if 2 ≤ m (stateCell (m 22)) then m (stateCell (m 22)) else 0)
    (hm₁ : ∀ a, a < 50 ∨ 61 < a → a ≠ stateCell (m 22) → m₁ a = m a)
    (hm' : SameButScratch (Function.update (Function.update m₁ (pcCell (m 22)) (m₁ 4))
      (spCell (m 22)) (m₁ 1)) m') :
  Saved m m'
  := by
  obtain ⟨hlow, -, -⟩ := table_apart hk₀
  have hsp : spCell (m 22) ≠ pcCell (m 22) := by
    unfold spCell pcCell
    omega
  have hst : stateCell (m 22) ≠ pcCell (m 22) ∧ stateCell (m 22) ≠ spCell (m 22) := by
    unfold stateCell pcCell spCell
    omega
  have hhigh : 61 < stateCell (m 22) ∧ 61 < pcCell (m 22) ∧ 61 < spCell (m 22) := by
    unfold stateCell pcCell spCell
    omega
  constructor
  · rw [hm' _ (.inr hhigh.1), Function.update_of_ne hst.2, Function.update_of_ne hst.1, hstate]
  · rw [hm' _ (.inr hhigh.2.1), Function.update_of_ne hsp.symm, Function.update_self,
      hm₁ 4 (.inl (by decide)) (hlow 4 (by decide))]
  · rw [hm' _ (.inr hhigh.2.2), Function.update_self,
      hm₁ 1 (.inl (by decide)) (hlow 1 (by decide))]
  · intro a ha h₁ h₂ h₃
    rw [hm' a ha, Function.update_of_ne h₃, Function.update_of_ne h₂, hm₁ a ha h₁]

/-- The handler of `SYSCALL YIELD` saves the registers of the running thread. -/
theorem save (hk₀ : 0 ≤ m 22) (hk' : m 22 ≤ 10) (h24 : m 24 = 0)
    (h : ∀ t' m', t < t' → Saved m m' → Leads step (Quiet T S) P ⟨700, t', m'⟩) :
  Leads step (Quiet T S) P ⟨400, t, m⟩
  := by
  obtain ⟨hlow, -, -⟩ := table_apart hk₀
  have hhigh : 61 < stateCell (m 22) := by
    unfold stateCell
    omega
  apply yield_state rfl hk₀ hk' h24
  · intro t₁ m₁ ht₁ h52 hm₁ hlt
    have hstate := hm₁ _ (.inr hhigh)
    apply yield_ready hk₀ hk' h52 (hstate ▸ hlt)
    intro t₂ m₂ ht₂ hm₂ h52'
    have h24' : m₂ 24 = 0 := by
      rw [hm₂ 24 (.inl (by decide)), Function.update_of_ne (hlow 24 (by decide)),
        hm₁ 24 (.inl (by decide)), h24]
    apply yield_registers hk₀ hk' h24' (h52'.trans h52)
    intro t₃ m₃ ht₃ hm₃
    apply h _ _ (by omega)
    apply saved_of_registers hk₀ _ _ hm₃
    · rw [hm₂ _ (.inr hhigh), Function.update_self, if_neg (by omega)]
    · intro a ha hne
      rw [hm₂ a ha, Function.update_of_ne hne, hm₁ a ha]
  · intro t₁ m₁ ht₁ h52 hm₁ hge
    have h24' : m₁ 24 = 0 := (hm₁ 24 (.inl (by decide))).trans h24
    apply yield_registers hk₀ hk' h24' h52
    intro t₂ m₂ ht₂ hm₂
    apply h _ _ (by omega)
    apply saved_of_registers hk₀ _ _ hm₂
    · rw [hm₁ _ (.inr hhigh), if_pos hge]
    · intro a ha _
      rw [hm₁ a ha]

/-- The memory after the running thread is marked as terminated and counted. -/
def terminate (m : Int → Int) : Int → Int :=
  Function.update (Function.update m (stateCell (m 22)) 3) 201 (m 201 + 1)

/-- The code at 430 marks the running thread as terminated. -/
theorem halt_mark (hk₀ : 0 ≤ m 22) (hk' : m 22 ≤ 10) (h24 : m 24 = 0)
    (h : ∀ t' m', t < t' → SameButScratch (terminate m) m' →
      Leads step (Quiet T S) P ⟨444, t', m'⟩) :
  Leads step (Quiet T S) P ⟨430, t, m⟩
  := by
  obtain ⟨hlow, -, -⟩ := table_apart hk₀
  apply entryAddress entryCode_hlt (by decide) h24 hk₀
  intro m₁ h52 hm₁
  have haddr : m₁ 52 + 500 + 3 = stateCell (m 22) := by
    unfold stateCell
    omega
  have h201 : m₁ 201 = m 201 := hm₁ 201 (.inr (by decide))
  apply add rfl (by decide)
  apply add rfl (by decide)
  apply set rfl (by decide)
  apply set rfl (by decide)
  apply cpyi2 rfl (by decide) (by decide) (by decide) (x := 54) (y := stateCell (m 22))
  · simp
  · simp [haddr]
  · decide
  · apply cell_stateCell hk₀ hk'
  · simp
  · intro j _ _
    apply (startCell_apart (m 22) j).1
  · apply (hlow 22 (by decide)).symm
  apply add rfl (by decide)
  apply h _ _ (by omega)
  intro a ha
  have hne : ∀ b, 50 ≤ b → b ≤ 61 → a ≠ b := by omega
  simp [terminate, Function.update_apply, hne, hlow, h201, hm₁ a ha]

/-- The code at 444 asks whether all threads have terminated. -/
theorem halt_check (h24 : m 24 = 0)
    (hlast : ∀ t' m', t < t' → SameButScratch m m' → m 21 ≤ m 201 →
      Leads step (Quiet T S) P ⟨449, t', m'⟩)
    (hmore : ∀ t' m', t < t' → SameButScratch m m' → m 201 < m 21 →
      Leads step (Quiet T S) P ⟨700, t', m'⟩) :
  Leads step (Quiet T S) P ⟨444, t, m⟩
  := by
  apply cpy rfl (by decide) (by decide)
  apply cpy rfl (by decide) (by decide)
  apply subi rfl (by decide) (by decide)
  rcases le_or_gt (m 21) (m 201) with hle | hgt
  · apply jif rfl (by decide) (by decide)
    · simpa using hle
    apply hlast _ _ (by omega) _ hle
    simp [SameButScratch.refl]
  · apply jifNot rfl (by decide) (by decide)
    · simpa using hgt
    apply jif rfl (by decide) (by decide)
    · simp [h24]
    apply hmore _ _ (by omega) _ hgt
    simp [SameButScratch.refl]

/-- The handler of `SYSCALL HLT` marks the running thread as terminated, and ends in the
scheduler unless all threads have terminated. -/
theorem halt (hk₀ : 0 ≤ m 22) (hk' : m 22 ≤ 10) (h24 : m 24 = 0)
    (hlast : ∀ t' m', t < t' → SameButScratch (terminate m) m' → m 21 ≤ m 201 + 1 →
      Leads step (Quiet T S) P ⟨449, t', m'⟩)
    (hmore : ∀ t' m', t < t' → SameButScratch (terminate m) m' → m 201 + 1 < m 21 →
      Leads step (Quiet T S) P ⟨700, t', m'⟩) :
  Leads step (Quiet T S) P ⟨430, t, m⟩
  := by
  obtain ⟨hlow, -, -⟩ := table_apart hk₀
  apply halt_mark hk₀ hk' h24
  intro t₁ m₁ ht₁ hm₁
  have h201 : m₁ 201 = m 201 + 1 := by
    rw [hm₁ 201 (.inr (by decide)), terminate, Function.update_self]
  have hlow₁ : ∀ a, a < 50 → m₁ a = m a := by
    intro a ha
    rw [hm₁ a (.inl ha), terminate, Function.update_of_ne (by omega),
      Function.update_of_ne (hlow a (by omega))]
  apply halt_check (by rw [hlow₁ 24 (by decide), h24])
  · intro t₂ m₂ ht₂ hm₂ hle
    rw [hlow₁ 21 (by decide), h201] at hle
    apply hlast _ _ (by omega) (hm₁.trans hm₂) hle
  · intro t₂ m₂ ht₂ hm₂ hlt
    rw [hlow₁ 21 (by decide), h201] at hlt
    apply hmore _ _ (by omega) (hm₁.trans hm₂) hlt

end Kernel

end OperatingSystem
