import Homeworks.OperatingSystem.System

/-!
# The scheduler and the context switch

The scheduler advances its cursor in the cyclic order of the threads and examines the
thread it arrives at.  A thread that is ready, or blocked for long enough, is selected, and
the context switch loads its registers.  With a single thread the safety counter ends the
system instead.
-/

open Simulator StateTransition Transition

namespace OperatingSystem

/-- The thread after `j` in the cyclic order of the threads 1 to `n`. -/
def next (n j : Int) : Int := if j + 1 ≤ n then j + 1 else 1

theorem next_bounds {n j : Int} (hn : 1 ≤ n) (hj : 0 ≤ j) :
  1 ≤ next n j ∧ next n j ≤ n
  := by
  unfold next
  split <;> omega

/-- Only the scratch cells and the cells 23, 25 and 26 of the scheduler differ. -/
def SameButScan (m m' : Int → Int) : Prop :=
  ∀ a, a < 50 ∨ 61 < a → a ≠ 23 → a ≠ 25 → a ≠ 26 → m' a = m a

theorem SameButScan.refl (m : Int → Int) : SameButScan m m := fun _ _ _ _ _ => rfl

theorem SameButScan.trans {m m' m'' : Int → Int} (h : SameButScan m m')
    (h' : SameButScan m' m'') :
  SameButScan m m''
  := fun a ha h₁ h₂ h₃ => (h' a ha h₁ h₂ h₃).trans (h a ha h₁ h₂ h₃)

theorem SameButScratch.scan {m m' : Int → Int} (h : SameButScratch m m') :
  SameButScan m m'
  := fun a ha _ _ _ => h a ha

@[simp] theorem sameButScan_update {m m' : Int → Int} {a v : Int}
    (ha : (50 ≤ a ∧ a ≤ 61) ∨ a = 23 ∨ a = 25 ∨ a = 26) :
  SameButScan m (Function.update m' a v) ↔ SameButScan m m'
  := by
  apply forall_congr'
  intro b
  constructor
  · intro h hb h₁ h₂ h₃
    rw [← h hb h₁ h₂ h₃, Function.update_of_ne (by omega)]
  · intro h hb h₁ h₂ h₃
    rw [Function.update_of_ne (by omega), h hb h₁ h₂ h₃]

namespace Kernel

variable {T S : Int → Prop} {P : Kernel → Prop} {t j : Int} {m : Int → Int}

/-- The first step of the scheduler. -/
theorem step_scheduler :
  step ⟨700, t, m⟩ = some ⟨701, t + 1, Function.update m 23 (m 23 + 1)⟩
  := by
  have hcode : kernelCode 700 = some (.of .ADD [23, 1]) := rfl
  apply step_assign hcode (plain_of (by decide)) _ (by decide)
  simp [CPU.effect, Instruction.of, CPU.twoOperands, CPU.check, look, usable]
  rfl

/-- The cursor starts again behind the last thread. -/
theorem scan_wrap (h24 : m 24 = 0)
    (h : ∀ t' m', t < t' → t' ≤ t + 6 → m' 23 = (if m 23 ≤ m 21 then m 23 else 1) →
      SameButScan m m' → Leads step (Quiet T S) P ⟨715, t', m'⟩) :
  Leads step (Quiet T S) P ⟨701, t, m⟩
  := by
  apply cpy rfl (by decide) (by decide)
  apply cpy rfl (by decide) (by decide)
  apply subi rfl (by decide) (by decide)
  rcases le_or_gt (m 23) (m 21) with hle | hgt
  · apply jif rfl (by decide) (by decide)
    · simpa using hle
    apply h _ _ (by omega) (by omega)
    · simp [hle]
    · simp [SameButScan.refl]
  · apply jifNot rfl (by decide) (by decide)
    · simpa using hgt
    apply set rfl (by decide)
    apply jif rfl (by decide) (by decide)
    · simp [h24]
    apply h _ _ (by omega) (by omega)
    · simp [hgt]
    · simp [SameButScan.refl]

/-- The safety counter, which is 1 at every test, ends a system of a single thread. -/
theorem scan_safety (h24 : m 24 = 0)
    (h : ∀ t' m', t < t' → t' ≤ t + 9 → m' 23 = m 23 → SameButScan m m' → 1 < m 21 →
      Leads step (Quiet T S) P ⟨730, t', m'⟩)
    (hhalt : ∀ t' m', t < t' → SameButScan m m' → m 21 ≤ 1 → Leads step
    (Quiet T S) P ⟨902, t', m'⟩) :
  Leads step (Quiet T S) P ⟨715, t, m⟩
  := by
  apply set rfl (by decide)
  apply set rfl (by decide)
  apply jif rfl (by decide) (by decide)
  · simp [h24]
  apply add rfl (by decide)
  apply cpy rfl (by decide) (by decide)
  apply cpy rfl (by decide) (by decide)
  apply subi rfl (by decide) (by decide)
  rcases le_or_gt (m 21) 1 with hle | hgt
  · apply jif rfl (by decide) (by decide)
    · simpa using hle
    apply hhalt _ _ (by omega) _ hle
    simp [SameButScan.refl]
  · apply jifNot rfl (by decide) (by decide)
    · simpa using hgt
    apply jif rfl (by decide) (by decide)
    · simp [h24]
    apply h _ _ (by omega) (by omega) _ _ hgt
    · simp
    · simp [SameButScan.refl]

/-- The thread `j` is examined: its entry is at hand. -/
structure Examining (j : Int) (m m' : Int → Int) : Prop where
  base : m' 52 = 500 + 10 * j
  state : m' 53 = stateCell j
  same : SameButScratch m m'

theorem Examining.stateCell {m' : Int → Int} (h : Examining j m m') (hj : 1 ≤ j) :
  m' (stateCell j) = m (stateCell j)
  := by
  apply h.same
  unfold OperatingSystem.stateCell
  omega

theorem Examining.trans {m' m'' : Int → Int} (h : Examining j m m') (h' : Examining j m' m'') :
  Examining j m m''
  := ⟨h'.base, h'.state, h.same.trans h'.same⟩

theorem Examining.refl {m' : Int → Int} (h : Examining j m m') :
  Examining j m' m'
  := ⟨h.base, h.state, SameButScratch.refl m'⟩

@[simp] theorem examining_update {m' : Int → Int} {a v : Int} (ha : 54 ≤ a) (ha' : a ≤ 61) :
  Examining j m (Function.update m' a v) ↔ Examining j m m'
  := by
  have h52 : (52 : Int) ≠ a := by omega
  have h53 : (53 : Int) ≠ a := by omega
  have hs : SameButScratch m (Function.update m' a v) ↔ SameButScratch m m' :=
    sameButScratch_update (by omega) ha'
  constructor
  · rintro ⟨h₁, h₂, h₃⟩
    rw [Function.update_of_ne h52] at h₁
    rw [Function.update_of_ne h53] at h₂
    exact ⟨h₁, h₂, hs.mp h₃⟩
  · rintro ⟨h₁, h₂, h₃⟩
    constructor
    · rw [Function.update_of_ne h52, h₁]
    · rw [Function.update_of_ne h53, h₂]
    · apply hs.mpr h₃

/-- The state cells lie above the scratch cells. -/
theorem stateCell_ne (hj : 1 ≤ j) :
  ∀ a, a ≤ 500 → stateCell j ≠ a
  := by
  unfold stateCell
  omega

theorem examine_entry (hj : m 23 = j) (hj₁ : 1 ≤ j) (h24 : m 24 = 0)
    (h : ∀ t' m', t < t' → t' ≤ t + (4 * j + 8) → Examining j m m' →
      Leads step (Quiet T S) P ⟨741, t', m'⟩) :
  Leads step (Quiet T S) P ⟨730, t, m⟩
  := by
  apply entryAddress entryCode_scheduler (by decide) h24 (by omega)
  intro m₁ h52 hm₁
  apply add rfl (by decide)
  apply cpy rfl (by decide) (by decide)
  apply add rfl (by decide)
  apply h _ _ (by omega) (by omega)
  constructor
  · simp only [ne_eq, Int.reduceEq, not_false_eq_true, Function.update_of_ne,
      Function.update_self]
    omega
  · simp only [Function.update_self, stateCell]
    omega
  · simpa using hm₁

/-- A thread that is ready is selected. -/
theorem examine_ready (he : Examining j m m) (hj₁ : 1 ≤ j) (hj' : j ≤ 10)
    (hready : ∀ t' m', t < t' → t' ≤ t + 4 → Examining j m m' → m (stateCell j) ≤ 0 →
      Leads step (Quiet T S) P ⟨768, t', m'⟩)
    (h : ∀ t' m', t < t' → Examining j m m' → 0 < m (stateCell j) →
      Leads step (Quiet T S) P ⟨745, t', m'⟩) :
  Leads step (Quiet T S) P ⟨741, t, m⟩
  := by
  apply cpyi rfl (by decide) (by decide) he.state (cell_stateCell (by omega) hj')
  apply set rfl (by decide)
  apply subi rfl (by decide) (by decide)
  rcases le_or_gt (m (stateCell j)) 0 with hle | hgt
  · apply jif rfl (by decide) (by decide)
    · simpa using hle
    apply hready _ _ (by omega) (by omega) _ hle
    simpa using he
  · apply jifNot rfl (by decide) (by decide)
    · simpa using hgt
    apply h _ _ (by omega) _ hgt
    simpa using he

/-- A thread that is terminated is skipped. -/
theorem examine_terminated (he : Examining j m m) (hj₁ : 1 ≤ j) (hj' : j ≤ 10)
    (hterminated : ∀ t' m', t < t' → Examining j m m' → 3 ≤ m (stateCell j) →
      Leads step (Quiet T S) P ⟨700, t', m'⟩)
    (h : ∀ t' m', t < t' → Examining j m m' → m (stateCell j) < 3 →
      Leads step (Quiet T S) P ⟨749, t', m'⟩) :
  Leads step (Quiet T S) P ⟨745, t, m⟩
  := by
  have hne := stateCell_ne hj₁
  apply set rfl (by decide)
  apply cpyi rfl (by decide) (by decide) (x := stateCell j) _ (cell_stateCell (by omega) hj')
  · apply subi rfl (by decide) (by decide)
    rcases le_or_gt 3 (m (stateCell j)) with hle | hlt
    · apply jif rfl (by decide) (by decide)
      · simpa [hne] using hle
      apply hterminated _ _ (by omega) _ hle
      simpa using he
    · apply jifNot rfl (by decide) (by decide)
      · simpa [hne] using hlt
      apply h _ _ (by omega) _ hlt
      simpa using he
  · simp [he.state]

/-- A thread that is neither ready, terminated nor blocked is skipped. -/
theorem examine_blocked (he : Examining j m m) (hj₁ : 1 ≤ j) (hj' : j ≤ 10) (h24 : m 24 = 0)
    (hother : ∀ t' m', t < t' → Examining j m m' → m (stateCell j) < 2 →
      Leads step (Quiet T S) P ⟨700, t', m'⟩)
    (h : ∀ t' m', t < t' → Examining j m m' → 2 ≤ m (stateCell j) →
      Leads step (Quiet T S) P ⟨754, t', m'⟩) :
  Leads step (Quiet T S) P ⟨749, t, m⟩
  := by
  have hne := stateCell_ne hj₁
  apply set rfl (by decide)
  apply cpyi rfl (by decide) (by decide) (x := stateCell j) _ (cell_stateCell (by omega) hj')
  · apply subi rfl (by decide) (by decide)
    rcases le_or_gt 2 (m (stateCell j)) with hle | hlt
    · apply jif rfl (by decide) (by decide)
      · simpa [hne] using hle
      apply h _ _ (by omega) _ hle
      simpa using he
    · apply jifNot rfl (by decide) (by decide)
      · simpa [hne] using hlt
      apply jif rfl (by decide) (by decide)
      · simp [h24]
      apply hother _ _ (by omega) _ hlt
      simpa using he
  · simp [he.state]

/-- The elapsed time of the thread `j` is about to be computed. -/
structure Timing (j : Int) (m m' : Int → Int) : Prop where
  base : m' 52 = 500 + 10 * j
  start : m' 53 = startCell j
  time : m' 54 = m (startCell j)
  same : SameButScratch m m'

theorem examine_start (he : Examining j m m) (hj₁ : 1 ≤ j) (hj' : j ≤ 10)
    (h : ∀ t' m', t < t' → Timing j m m' → Leads step (Quiet T S) P ⟨756, t', m'⟩) :
  Leads step (Quiet T S) P ⟨754, t, m⟩
  := by
  have haddr : m 53 + -2 = startCell j := by
    rw [he.state]
    unfold stateCell startCell
    ring
  have hne : startCell j ≠ 53 := by
    unfold startCell
    omega
  apply add rfl (by decide)
  apply cpyi rfl (by decide) (by decide) (x := startCell j) _ (cell_startCell hj₁ hj')
  · apply h _ _ (by omega)
    constructor
    · simp [he.base]
    · simp [haddr]
    · simp [hne]
    · simp [SameButScratch.refl]
  · simp [haddr]

/-- The code at 730 examines the thread at the cursor. -/
theorem examine (hj : m 23 = j) (hj₁ : 1 ≤ j) (hj' : j ≤ 10) (h24 : m 24 = 0)
    (hready : ∀ t' m', t < t' → t' ≤ t + (4 * j + 12) → m' 52 = 500 + 10 * j →
      SameButScratch m m' → m (stateCell j) ≤ 0 → Leads step (Quiet T S) P ⟨768, t', m'⟩)
    (hskip : ∀ t' m', t < t' → SameButScratch m m' →
      3 ≤ m (stateCell j) ∨ m (stateCell j) = 1 → Leads step (Quiet T S) P ⟨700, t', m'⟩)
    (hblocked : ∀ t' m', t < t' → Timing j m m' → m (stateCell j) = 2 →
      Leads step (Quiet T S) P ⟨756, t', m'⟩) :
  Leads step (Quiet T S) P ⟨730, t, m⟩
  := by
  apply examine_entry hj hj₁ h24
  intro t₁ m₁ ht₁ ht₁' he₁
  apply examine_ready he₁.refl hj₁ hj'
  · intro t₂ m₂ ht₂ ht₂' he₂ hle
    rw [he₁.stateCell hj₁] at hle
    apply hready _ _ (by omega) (by omega) he₂.base (he₁.trans he₂).same hle
  intro t₂ m₂ ht₂ he₂ hgt
  have he₂' := he₁.trans he₂
  rw [he₁.stateCell hj₁] at hgt
  apply examine_terminated he₂.refl hj₁ hj'
  · intro t₃ m₃ ht₃ he₃ hle
    rw [he₂'.stateCell hj₁] at hle
    apply hskip _ _ (by omega) (he₂'.trans he₃).same (.inl hle)
  intro t₃ m₃ ht₃ he₃ hlt
  have he₃' := he₂'.trans he₃
  rw [he₂'.stateCell hj₁] at hlt
  apply examine_blocked he₃.refl hj₁ hj' (by rw [he₃'.same 24 (.inl (by decide)), h24])
  · intro t₄ m₄ ht₄ he₄ hlt'
    rw [he₃'.stateCell hj₁] at hlt'
    apply hskip _ _ (by omega) (he₃'.trans he₄).same (.inr (by omega))
  intro t₄ m₄ ht₄ he₄ hge
  have he₄' := he₃'.trans he₄
  rw [he₃'.stateCell hj₁] at hge
  apply examine_start he₄.refl hj₁ hj'
  intro t₅ m₅ ht₅ hti
  apply hblocked _ _ (by omega) _ (by omega)
  constructor
  · apply hti.base
  · apply hti.start
  · rw [hti.time]
    apply he₄'.same
    unfold startCell
    omega
  · apply he₄'.same.trans hti.same

/-- The code at 756 compares the elapsed time with the threshold. -/
theorem elapse (hti : m 53 = startCell j) (hj₁ : 1 ≤ j) (hj' : j ≤ 10) (h24 : m 24 = 0)
    (hdue : ∀ t' m', t < t' → m' 52 = m 52 → SameButScratch m m' → 100 ≤ t - m 54 →
      Leads step (Quiet T S) P ⟨768, t', m'⟩)
    (hwait : ∀ t' m', t < t' → SameButScratch m m' → t - m 54 < 100 →
      Leads step (Quiet T S) P ⟨700, t', m'⟩) :
  Leads step (Quiet T S) P ⟨756, t, m⟩
  := by
  have haddr : m 53 + 2 = stateCell j := by
    rw [hti]
    unfold stateCell startCell
    ring
  apply cpyClock rfl (by decide)
  apply subi rfl (by decide) (by decide)
  apply set rfl (by decide)
  apply subi rfl (by decide) (by decide)
  rcases le_or_gt 100 (t - m 54) with hle | hgt
  · apply jif rfl (by decide) (by decide)
    · simpa using hle
    apply set rfl (by decide)
    apply add rfl (by decide)
    apply cpyi rfl (by decide) (by decide) (x := stateCell j) _ (cell_stateCell (by omega) hj')
    · apply jif rfl (by decide) (by decide)
      · simp [h24]
      apply hdue _ _ (by omega) _ _ hle
      · simp
      · simp [SameButScratch.refl]
    · simp [haddr]
  · apply jifNot rfl (by decide) (by decide)
    · simpa using hgt
    apply jif rfl (by decide) (by decide)
    · simp [h24]
    apply hwait _ _ (by omega) _ hgt
    simp [SameButScratch.refl]

theorem switch_prepare (hbase : m 52 = 500 + 10 * j) (h24 : m 24 = 0)
    (h : ∀ t' m', t < t' → t' ≤ t + 3 → m' 53 = 500 + 10 * j → SameButScan m m' → m' 23 = m 23 →
      Leads step (Quiet T S) P ⟨780, t', m'⟩) :
  Leads step (Quiet T S) P ⟨768, t, m⟩
  := by
  apply set rfl (by decide)
  apply cpy rfl (by decide) (by decide)
  apply jif rfl (by decide) (by decide)
  · simp [h24]
  apply h _ _ (by omega) (by omega)
  · simp [hbase]
  · simp [SameButScan.refl]
  · simp

/-- The scheduler examines the thread `j`, and selects it, skips it, or goes on to its
elapsed time. -/
theorem scan (hj : (if m 23 ≤ m 21 then m 23 else 1) = j) (hj₁ : 1 ≤ j) (hj' : j ≤ 10)
    (h24 : m 24 = 0) (hn : 1 < m 21)
    (hready : ∀ t' m', t < t' → t' ≤ t + (4 * j + 40) → m' 23 = j → m' 53 = 500 + 10 * j →
      SameButScan m m' → m (stateCell j) ≤ 0 → Leads step (Quiet T S) P ⟨780, t', m'⟩)
    (hskip : ∀ t' m', t < t' → m' 23 = j → SameButScan m m' →
      3 ≤ m (stateCell j) ∨ m (stateCell j) = 1 → Leads step (Quiet T S) P ⟨700, t', m'⟩)
    (hblocked : ∀ t' m', t < t' → m' 23 = j → SameButScan m m' → m' 52 = 500 + 10 * j →
      m' 53 = startCell j → m' 54 = m (startCell j) → m (stateCell j) = 2 →
      Leads step (Quiet T S) P ⟨756, t', m'⟩) :
  Leads step (Quiet T S) P ⟨701, t, m⟩
  := by
  have h61 : 61 < stateCell j ∧ 61 < startCell j := by
    unfold stateCell startCell
    omega
  apply scan_wrap h24
  intro t₁ m₁ ht₁ ht₁' h₁ hm₁
  rw [hj] at h₁
  have h24₁ : m₁ 24 = 0 := by
    rw [hm₁ 24 (by omega) (by omega) (by omega) (by omega), h24]
  apply scan_safety h24₁
  · intro t₂ m₂ ht₂ ht₂' h₂ hm₂ _
    have hm := hm₁.trans hm₂
    have h24₂ : m₂ 24 = 0 := by
      rw [hm 24 (by omega) (by omega) (by omega) (by omega), h24]
    have hstate : m₂ (stateCell j) = m (stateCell j) := by
      apply hm <;> omega
    have hstart : m₂ (startCell j) = m (startCell j) := by
      apply hm <;> omega
    rw [h₁] at h₂
    apply examine h₂ hj₁ hj' h24₂
    · intro t₃ m₃ ht₃ ht₃' h52 hm₃ hle
      have h24₃ : m₃ 24 = 0 := by rw [hm₃ 24 (by omega), h24₂]
      apply switch_prepare h52 h24₃
      intro t₄ m₄ ht₄ ht₄' h53 hm₄ h₄
      apply hready _ _ (by omega) (by omega) _ h53 ((hm.trans hm₃.scan).trans hm₄) (hstate ▸ hle)
      rw [h₄, hm₃ 23 (by omega), h₂]
    · intro t₃ m₃ ht₃ hm₃ hs
      rw [hstate] at hs
      apply hskip _ _ (by omega) _ (hm.trans hm₃.scan) hs
      rw [hm₃ 23 (by omega), h₂]
    · intro t₃ m₃ ht₃ hti hs
      apply hblocked _ _ (by omega) _ (hm.trans hti.same.scan) hti.base hti.start _ (hstate ▸ hs)
      · rw [hti.same 23 (by omega), h₂]
      · rw [hti.time, hstart]
  · intro t₂ m₂ _ _ hle
    rw [hm₁ 21 (by omega) (by omega) (by omega) (by omega)] at hle
    omega

/-- A blocked thread is selected when its elapsed time reaches the threshold. -/
theorem elapsed (hj₁ : 1 ≤ j) (hj' : j ≤ 10) (h24 : m 24 = 0) (h52 : m 52 = 500 + 10 * j)
    (h53 : m 53 = startCell j)
    (hdue : ∀ t' m', t < t' → m' 23 = m 23 → m' 53 = 500 + 10 * j → SameButScan m m' →
      100 ≤ t - m 54 → Leads step (Quiet T S) P ⟨780, t', m'⟩)
    (hwait : ∀ t' m', t < t' → m' 23 = m 23 → SameButScan m m' → t - m 54 < 100 →
      Leads step (Quiet T S) P ⟨700, t', m'⟩) :
  Leads step (Quiet T S) P ⟨756, t, m⟩
  := by
  apply elapse h53 hj₁ hj' h24
  · intro t₁ m₁ ht₁ h₁ hm₁ hle
    apply switch_prepare (h₁.trans h52) (by rw [hm₁ 24 (by omega), h24])
    intro t₂ m₂ ht₂ _ h53' hm₂ h₂
    apply hdue _ _ (by omega) _ h53' (hm₁.scan.trans hm₂) hle
    rw [h₂, hm₁ 23 (by omega)]
  · intro t₁ m₁ ht₁ hm₁ hlt
    apply hwait _ _ ht₁ (hm₁ 23 (by omega)) hm₁.scan hlt

/-! ### The context switch -/

/-- The thread at the cursor becomes the running one. -/
theorem switch_mark (hj : m 23 = j) (hj₁ : 1 ≤ j) (hj' : j ≤ 10) (hbase : m 53 = 500 + 10 * j)
    (hstate : T j → m (stateCell j) ≠ 3)
    (h : ∀ t' m', t < t' → t' ≤ t + 5 → m' 53 = stateCell j →
      SameButScratch (Function.update (Function.update m 22 j) (stateCell j) 1) m' →
      Leads step (Quiet T S) P ⟨785, t', m'⟩) :
  Leads step (Quiet T S) P ⟨780, t, m⟩
  := by
  have hne := stateCell_ne hj₁
  have hne' : ∀ a, a ≤ 500 → a ≠ stateCell j := fun a ha => (hne a ha).symm
  have haddr : m 53 + 3 = stateCell j := by
    unfold stateCell
    omega
  apply cpyThread rfl (by decide) (by decide) (by omega)
  apply add rfl (by decide)
  apply set rfl (by decide)
  apply set rfl (by decide)
  apply cpyi2 rfl (by decide) (by decide) (by decide) (x := 54) (y := stateCell j)
  · simp
  · simp [haddr]
  · decide
  · apply cell_stateCell (by omega) hj'
  · intro i _ hT heq h3
    obtain rfl : j = i := by
      unfold stateCell at heq
      omega
    simp [hne] at h3
    exact absurd h3 (hstate hT)
  · intro i _ _
    apply (startCell_apart j i).1
  · apply hne 22 (by decide)
  apply h _ _ (by omega) (by omega)
  · simp [hne', haddr]
  · intro a ha
    have hna : ∀ b, 50 ≤ b → b ≤ 61 → a ≠ b := by omega
    simp [Function.update_apply, hna, hj]

/-- The stack pointer of the thread is loaded. -/
theorem switch_stack (hj₁ : 1 ≤ j) (hj' : j ≤ 10) (h53 : m 53 = stateCell j)
    (h : ∀ t' m', t < t' → t' ≤ t + 4 → m' 53 = startCell j →
      SameButScratch (Function.update m 1 (m (spCell j))) m' →
      Leads step (Quiet T S) P ⟨789, t', m'⟩) :
  Leads step (Quiet T S) P ⟨785, t, m⟩
  := by
  have hne : ∀ a, a ≤ 500 → spCell j ≠ a := by
    unfold spCell
    omega
  have haddr : m 53 + 2 = spCell j := by
    rw [h53]
    unfold stateCell spCell
    ring
  have haddr' : spCell j + -4 = startCell j := by
    unfold startCell spCell
    ring
  apply add rfl (by decide)
  apply cpy rfl (by decide) (by decide)
  apply cpyi rfl (by decide) (by decide) (x := spCell j)
  · simp [haddr]
  · apply cell_spCell (by omega) hj'
  apply add rfl (by decide)
  apply h _ _ (by omega) (by omega)
  · simp [haddr, haddr']
  · intro a ha
    have hna : ∀ b, 50 ≤ b → b ≤ 61 → a ≠ b := by omega
    simp [Function.update_apply, hna, hne]

/-- The start time of the thread becomes the address of its cell: the time is in cell 54,
and the store is from cell 50. -/
theorem switch_start (hj₁ : 1 ≤ j) (hj' : j ≤ 10) (hS : ¬ S j) (h53 : m 53 = startCell j)
    (h : ∀ t' m', t < t' → t' ≤ t + 4 → m' 53 = startCell j →
      SameButScratch (Function.update m (startCell j) (startCell j)) m' →
      Leads step (Quiet T S) P ⟨793, t', m'⟩) :
  Leads step (Quiet T S) P ⟨789, t, m⟩
  := by
  have hne : ∀ a, a ≤ 500 → a ≠ startCell j := by
    unfold startCell
    omega
  apply cpyClock rfl (by decide)
  apply cpy rfl (by decide) (by decide)
  apply set rfl (by decide)
  apply cpyi2 rfl (by decide) (by decide) (by decide) (x := 50) (y := startCell j)
  · simp
  · simp [h53]
  · decide
  · apply cell_startCell hj₁ hj'
  · intro i _ _ heq
    unfold startCell stateCell at heq
    omega
  · intro i _ hi heq
    obtain rfl : j = i := by
      unfold startCell at heq
      omega
    apply hS hi
  · apply (hne 22 (by decide)).symm
  apply h _ _ (by omega) (by omega)
  · simp [hne, h53]
  · intro a ha
    have hna : ∀ b, 50 ≤ b → b ≤ 61 → a ≠ b := by omega
    simp [Function.update_apply, hna, h53]

/-- The code at 793 fetches the saved program counter. -/
theorem switch_resume (hj₁ : 1 ≤ j) (hj' : j ≤ 10) (h53 : m 53 = startCell j)
    (h : ∀ t' m', t < t' →
      SameButScratch (Function.update (Function.update m 19 (m (pcCell j))) 200 (m 200 + 1)) m' →
      Leads step (Quiet T S) P ⟨796, t', m'⟩) :
  Leads step (Quiet T S) P ⟨793, t, m⟩
  := by
  have haddr : m 53 + 3 = pcCell j := by
    rw [h53]
    unfold startCell pcCell
    ring
  have hne : pcCell j ≠ 53 := by
    unfold pcCell
    omega
  apply add rfl (by decide)
  apply cpyi rfl (by decide) (by decide) (x := pcCell j)
  · simp [haddr]
  · apply cell_pcCell (by omega) hj'
  apply add rfl (by decide)
  apply h _ _ (by omega)
  intro a ha
  have hna : a ≠ 53 := by omega
  simp [Function.update_apply, hna, hne]

/-- The context switch to the thread `j` takes the memory `m` to `m'`. -/
structure Switched (j : Int) (m m' : Int → Int) : Prop where
  running : m' 22 = j
  state : m' (stateCell j) = 1
  sp : m' 1 = m (spCell j)
  pc : m' 19 = m (pcCell j)
  start : m' (startCell j) = startCell j
  count : m' 200 = m 200 + 1
  frame : ∀ a, a < 50 ∨ 61 < a → a ≠ 1 → a ≠ 19 → a ≠ 22 → a ≠ 200 → a ≠ stateCell j →
    a ≠ startCell j → m' a = m a

/-- The context switch up to the store to the start-time cell. -/
theorem switch_activate (hj : m 23 = j) (hj₁ : 1 ≤ j) (hj' : j ≤ 10)
    (hbase : m 53 = 500 + 10 * j) (hstate : T j → m (stateCell j) ≠ 3) (hS : ¬ S j)
    (h : ∀ t' m', t < t' → t' ≤ t + 13 → m' 53 = startCell j →
      SameButScratch (Function.update (Function.update (Function.update (Function.update m 22 j)
        (stateCell j) 1) 1 (m (spCell j))) (startCell j) (startCell j)) m' →
      Leads step (Quiet T S) P ⟨793, t', m'⟩) :
  Leads step (Quiet T S) P ⟨780, t, m⟩
  := by
  have hsp : 61 < spCell j ∧ spCell j ≠ stateCell j ∧ spCell j ≠ 22 := by
    unfold spCell stateCell
    omega
  apply switch_mark hj hj₁ hj' hbase hstate
  intro t₁ m₁ ht₁ ht₁' h₁ hm₁
  apply switch_stack hj₁ hj' h₁
  intro t₂ m₂ ht₂ ht₂' h₂ hm₂
  apply switch_start hj₁ hj' hS h₂
  intro t₃ m₃ ht₃ ht₃' h₃ hm₃
  apply h _ _ (by omega) (by omega) h₃
  intro a ha
  have hm₁sp : m₁ (spCell j) = m (spCell j) := by
    rw [hm₁ _ (.inr hsp.1), Function.update_of_ne hsp.2.1, Function.update_of_ne hsp.2.2]
  rw [hm₃ a ha]
  simp only [Function.update_apply]
  split
  · rfl
  · rw [hm₂ a ha, hm₁sp]
    simp only [Function.update_apply]
    split
    · rfl
    · rw [hm₁ a ha]
      simp only [Function.update_apply]

/-- The context switch activates the thread at the cursor. -/
theorem switch (hj : m 23 = j) (hj₁ : 1 ≤ j) (hj' : j ≤ 10) (hbase : m 53 = 500 + 10 * j)
    (hstate : T j → m (stateCell j) ≠ 3) (hS : ¬ S j)
    (h : ∀ t' m', t < t' → Switched j m m' → Leads step (Quiet T S) P ⟨796, t', m'⟩) :
  Leads step (Quiet T S) P ⟨780, t, m⟩
  := by
  have hcells : 503 < stateCell j ∧ 503 < startCell j ∧ 503 < pcCell j ∧ stateCell j ≠ startCell j
      ∧ pcCell j ≠ stateCell j ∧ pcCell j ≠ startCell j := by
    unfold stateCell startCell pcCell
    omega
  obtain ⟨h₁, h₂, h₃, h₄, h₅, h₆⟩ := hcells
  apply switch_activate hj hj₁ hj' hbase hstate hS
  intro t₁ m₁ ht₁ _ h53 hm₁
  apply switch_resume hj₁ hj' h53
  intro t₂ m₂ ht₂ hm₂
  apply h _ _ (by omega)
  have hlow : ∀ a, a ≤ 500 → a ≠ stateCell j ∧ a ≠ startCell j := by omega
  have hmem : ∀ a, a < 50 ∨ 61 < a → a ≠ 19 → a ≠ 200 → m₂ a = m₁ a := by
    intro a ha h19 h200
    rw [hm₂ a ha, Function.update_of_ne h200, Function.update_of_ne h19]
  constructor
  · rw [hmem 22 (by omega) (by omega) (by omega), hm₁ 22 (by omega)]
    simp [hlow]
  · rw [hmem _ (by omega) (by omega) (by omega), hm₁ _ (by omega)]
    simp [h₄, (hlow 1 (by omega)).1.symm]
  · rw [hmem 1 (by omega) (by omega) (by omega), hm₁ 1 (by omega)]
    simp [hlow]
  · rw [hm₂ 19 (by omega), Function.update_of_ne (by omega), Function.update_self,
      hm₁ _ (by omega)]
    simp [Function.update_apply, h₅, h₆]
    omega
  · rw [hmem _ (by omega) (by omega) (by omega), hm₁ _ (by omega), Function.update_self]
  · rw [hm₂ 200 (by omega), Function.update_self, hm₁ 200 (by omega)]
    simp [hlow]
  · intro a ha h1 h19 h22 h200 hs ht
    rw [hmem a ha h19 h200, hm₁ a ha]
    simp [ht, h1, hs, h22]

end Kernel

end OperatingSystem
