import Homeworks.OperatingSystem.Scheduling
import Homeworks.OperatingSystem.UserMode
import Mathlib.Data.Int.ConditionallyCompleteOrder
import Mathlib.Data.Int.Interval
import Mathlib.Order.ConditionallyCompleteLattice.Finset

/-!
# The thread table

The variables of the kernel and the state cells of the thread table are consistent
whenever the scheduler is entered and while a thread runs: cell 201 is the number of
terminated threads, at least one thread has not terminated, and only the running thread may
be marked as running.
-/

open Simulator StateTransition Transition

namespace OperatingSystem

variable {n k : Int} {m m' : Int → Int}

/-- The number of threads that have terminated. -/
noncomputable def terminatedCount (n : Int) (m : Int → Int) : Nat :=
  ((Finset.Icc 1 n).filter fun j => m (stateCell j) = 3).card

theorem terminatedCount_congr
    (h : ∀ j, 1 ≤ j → j ≤ n → (m' (stateCell j) = 3 ↔ m (stateCell j) = 3)) :
  terminatedCount n m' = terminatedCount n m
  := by
  unfold terminatedCount
  congr 1
  apply Finset.filter_congr
  intro j hj
  obtain ⟨hj₁, hj'⟩ := Finset.mem_Icc.mp hj
  apply h j hj₁ hj'

/-- Terminating a thread makes one more. -/
theorem terminatedCount_succ (hk : 1 ≤ k) (hk' : k ≤ n) (hbefore : m (stateCell k) ≠ 3)
    (hafter : m' (stateCell k) = 3)
    (h : ∀ j, 1 ≤ j → j ≤ n → j ≠ k → (m' (stateCell j) = 3 ↔ m (stateCell j) = 3)) :
  terminatedCount n m' = terminatedCount n m + 1
  := by
  unfold terminatedCount
  rw [← Finset.card_insert_of_notMem (a := k)]
  · congr 1
    ext j
    simp only [Finset.mem_filter, Finset.mem_insert, Finset.mem_Icc]
    by_cases hjk : j = k
    · rw [hjk]
      simp [hk, hk', hafter]
    · constructor
      · rintro ⟨⟨hj, hj'⟩, h3⟩
        exact .inr ⟨⟨hj, hj'⟩, (h j hj hj' hjk).mp h3⟩
      · rintro (h' | ⟨⟨hj, hj'⟩, h3⟩)
        · exact absurd h' hjk
        · exact ⟨⟨hj, hj'⟩, (h j hj hj' hjk).mpr h3⟩
  · simp [hbefore]

/-- All threads are counted only if all have terminated. -/
theorem terminated_of_count (h : n ≤ terminatedCount n m) {j : Int} (hj : 1 ≤ j) (hj' : j ≤ n) :
  m (stateCell j) = 3
  := by
  have hcard : ((Finset.Icc 1 n).filter fun j => m (stateCell j) = 3).card
      = (Finset.Icc 1 n).card := by
    apply le_antisymm (Finset.card_filter_le _ _)
    rw [Int.card_Icc]
    unfold terminatedCount at h
    omega
  apply Finset.card_filter_eq_iff.mp hcard j
  apply Finset.mem_Icc.mpr ⟨hj, hj'⟩

/-- The thread table and the variables of the kernel are consistent. -/
structure Table (n : Int) (m : Int → Int) : Prop where
  threads : m 21 = n
  flag : m 24 = 0
  running : 0 ≤ m 22 ∧ m 22 ≤ n
  cursor : 0 ≤ m 23 ∧ m 23 ≤ n
  terminated : m 201 = terminatedCount n m
  living : m 201 < n
  states : ∀ j, 1 ≤ j → j ≤ n → m (stateCell j) = 0 ∨ m (stateCell j) = 2 ∨ m (stateCell j) = 3
    ∨ (m (stateCell j) = 1 ∧ j = m 22)

/-- The cells that the table is about. -/
def TableCell (a : Int) : Prop := a = 21 ∨ a = 22 ∨ a = 23 ∨ a = 24 ∨ a = 201 ∨
  ∃ j, 1 ≤ j ∧ j ≤ 9 ∧ a = stateCell j

theorem tableCell_stateCell {j : Int} (hj : 1 ≤ j) (hj' : j ≤ 9) :
  TableCell (stateCell j)
  := by
  right; right; right; right; right
  use j

theorem TableCell.bounds {a : Int} (h : TableCell a) :
  (21 ≤ a ∧ a ≤ 24) ∨ a = 201 ∨ (513 ≤ a ∧ a ≤ 593)
  := by
  obtain h | h | h | h | h | ⟨j, hj, hj', h⟩ := h
  iterate 5 omega
  unfold stateCell at h
  omega

theorem TableCell.cell {a : Int} (h : TableCell a) :
  Cell a
  := by
  have := h.bounds
  unfold Cell
  omega

theorem TableCell.kernelCell {a : Int} (h : TableCell a) :
  CPU.KernelCell a
  := by
  have := h.bounds
  unfold CPU.KernelCell
  omega

namespace Table

/-- The cursor moves. -/
theorem move (h : Table n m) (hn : n ≤ 9) (hm : ∀ a, TableCell a → a ≠ 23 → m' a = m a)
    (h23 : 0 ≤ m' 23 ∧ m' 23 ≤ n) :
  Table n m'
  := by
  have hstate : ∀ j, 1 ≤ j → j ≤ n → m' (stateCell j) = m (stateCell j) := by
    intro j hj hj'
    apply hm
    · apply tableCell_stateCell hj (by omega)
    · unfold stateCell
      omega
  have hlow : ∀ a, a = 21 ∨ a = 22 ∨ a = 24 ∨ a = 201 → m' a = m a := by
    intro a ha
    apply hm
    · unfold TableCell
      omega
    · omega
  have hcount : terminatedCount n m' = terminatedCount n m := by
    apply terminatedCount_congr
    intro j hj hj'
    rw [hstate j hj hj']
  constructor
  · rw [hlow 21 (by decide), h.threads]
  · rw [hlow 24 (by decide), h.flag]
  · rw [hlow 22 (by decide)]
    apply h.running
  · apply h23
  · rw [hlow 201 (by decide), h.terminated, hcount]
  · rw [hlow 201 (by decide)]
    apply h.living
  · intro j hj hj'
    rw [hstate j hj hj', hlow 22 (by decide)]
    apply h.states j hj hj'

theorem congr (h : Table n m) (hn : n ≤ 9) (hm : ∀ a, TableCell a → m' a = m a) :
  Table n m'
  := by
  apply h.move hn fun a ha _ => hm a ha
  rw [hm 23 (by unfold TableCell; omega)]
  apply h.cursor

/-- A visit of the scheduler moves the cursor. -/
theorem scan (h : Table n m) (hn : n ≤ 9) (hm : SameButScan m m')
    (h23 : 0 ≤ m' 23 ∧ m' 23 ≤ n) :
  Table n m'
  := by
  apply h.move hn _ h23
  intro a ha h23
  have := ha.bounds
  apply hm <;> omega

/-- The state of one thread changes, but not to or from terminated. -/
theorem update (h : Table n m) (hn : n ≤ 9) (hk : 1 ≤ k) (hk' : k ≤ n) (h22 : m' 22 = k)
    (hm : ∀ a, TableCell a → a ≠ 22 → a ≠ stateCell k → m' a = m a)
    (hsingle : ∀ j, 1 ≤ j → j ≤ n → j ≠ k → m (stateCell j) ≠ 1) (hbefore : m (stateCell k) ≠ 3)
    (hafter : m' (stateCell k) = 0 ∨ m' (stateCell k) = 1 ∨ m' (stateCell k) = 2) :
  Table n m'
  := by
  have hlow : ∀ a, a = 21 ∨ a = 23 ∨ a = 24 ∨ a = 201 → m' a = m a := by
    intro a ha
    apply hm
    · unfold TableCell
      omega
    · omega
    · unfold stateCell
      omega
  have hstate : ∀ j, 1 ≤ j → j ≤ n → j ≠ k → m' (stateCell j) = m (stateCell j) := by
    intro j hj hj' hjk
    apply hm
    · apply tableCell_stateCell hj (by omega)
    · unfold stateCell
      omega
    · unfold stateCell
      omega
  constructor
  · rw [hlow 21 (by decide), h.threads]
  · rw [hlow 24 (by decide), h.flag]
  · omega
  · rw [hlow 23 (by decide)]
    apply h.cursor
  · rw [hlow 201 (by decide), h.terminated]
    rw [terminatedCount_congr]
    intro j hj hj'
    by_cases hjk : j = k
    · rw [hjk]
      omega
    · rw [hstate j hj hj' hjk]
  · rw [hlow 201 (by decide)]
    apply h.living
  · intro j hj hj'
    by_cases hjk : j = k
    · rw [hjk, h22]
      omega
    · rw [hstate j hj hj' hjk]
      have := h.states j hj hj'
      have := hsingle j hj hj' hjk
      omega

/-- Only the running thread may be marked as running. -/
theorem single (h : Table n m) {j : Int} (hj : 1 ≤ j) (hj' : j ≤ n) (hne : j ≠ m 22) :
  m (stateCell j) ≠ 1
  := by
  have := h.states j hj hj'
  omega

end Table

/-- No thread is running: the scheduler has been entered. -/
structure Suspended (n : Int) (m : Int → Int) : Prop extends Table n m where
  idle : ∀ j, 1 ≤ j → j ≤ n → m (stateCell j) ≠ 1

/-- A thread is running, or blocked by what it has printed. -/
structure Running (n : Int) (m : Int → Int) : Prop extends Table n m where
  thread : 1 ≤ m 22
  state : m (stateCell (m 22)) = 1 ∨ m (stateCell (m 22)) = 2

theorem Suspended.congr (h : Suspended n m) (hn : n ≤ 9) (hm : ∀ a, TableCell a → m' a = m a) :
  Suspended n m'
  := by
  use h.toTable.congr hn hm
  intro j hj hj'
  rw [hm _ (tableCell_stateCell hj (by omega))]
  apply h.idle j hj hj'

theorem Running.congr (h : Running n m) (hn : n ≤ 9) (hm : ∀ a, TableCell a → m' a = m a) :
  Running n m'
  := by
  have h22 : m' 22 = m 22 := hm 22 (by unfold TableCell; omega)
  use h.toTable.congr hn hm
  · rw [h22]
    apply h.thread
  · have h₁ := h.thread
    have h₂ := h.running
    rw [h22, hm _ (tableCell_stateCell h₁ (by omega))]
    apply h.state

/-- The handler of `SYSCALL YIELD` suspends the running thread. -/
theorem Running.saved (h : Running n m) (hn : n ≤ 9) (hm : Saved m m') :
  Suspended n m'
  := by
  have h₁ := h.thread
  have h₂ := h.running
  have hs := h.state
  have hst := hm.state
  have hframe : ∀ a, TableCell a → a ≠ stateCell (m 22) → m' a = m a := by
    intro a ha hne
    have := ha.bounds
    obtain h | h | h | h | h | ⟨j, hj, hj', h⟩ := id ha
    all_goals
      apply hm.frame a (by omega) hne
      · unfold pcCell stateCell at *
        omega
      · unfold spCell stateCell at *
        omega
  have hafter : m' (stateCell (m 22)) = 0 ∨ m' (stateCell (m 22)) = 2 := by
    rw [hst]
    split <;> omega
  have h22 : m' 22 = m 22 := by
    apply hframe 22 (by unfold TableCell; omega)
    unfold stateCell
    omega
  refine ⟨h.update hn h₁ h₂.2 h22 (fun a ha _ => hframe a ha) ?_ (by omega) (by omega), ?_⟩
  · intro j hj hj' hne
    apply h.single hj hj' hne
  · intro j hj hj'
    by_cases hjk : j = m 22
    · rw [hjk]
      omega
    · rw [hframe _ (tableCell_stateCell hj (by omega))
        (by unfold stateCell; omega)]
      apply h.single hj hj' hjk

/-- The handler of `SYSCALL HLT` terminates the running thread. -/
theorem Running.terminate (h : Running n m) (hn : n ≤ 9)
    (hm : SameButScratch (Kernel.terminate m) m') :
  (m 201 + 1 < n → Suspended n m')
    ∧ (n ≤ m 201 + 1 → ∀ j, 1 ≤ j → j ≤ n → m' (stateCell j) = 3)
    ∧ m' (stateCell (m 22)) = 3
  := by
  have h₁ := h.thread
  have h₂ := h.running
  have hs := h.state
  have hframe : ∀ a, a < 50 ∨ 61 < a → a ≠ stateCell (m 22) → a ≠ 201 → m' a = m a := by
    intro a ha hne h201
    rw [hm a ha, Kernel.terminate, Function.update_of_ne h201, Function.update_of_ne hne]
  have h3 : m' (stateCell (m 22)) = 3 := by
    rw [hm _ (by unfold stateCell; omega), Kernel.terminate,
      Function.update_of_ne (by unfold stateCell; omega), Function.update_self]
  have h201 : m' 201 = m 201 + 1 := by
    rw [hm 201 (by decide), Kernel.terminate, Function.update_self]
  have hlow : ∀ a, a < 50 → m' a = m a := by
    intro a ha
    apply hframe a (by omega) _ (by omega)
    unfold stateCell
    omega
  have hstate : ∀ j, 1 ≤ j → j ≠ m 22 → m' (stateCell j) = m (stateCell j) := by
    intro j hj hne
    unfold stateCell
    apply hframe
    · omega
    · unfold stateCell
      omega
    · omega
  have hcount : terminatedCount n m' = terminatedCount n m + 1 := by
    apply terminatedCount_succ h₁ h₂.2 (by omega) h3
    intro j hj _ hne
    rw [hstate j hj hne]
  have hterm := h.terminated
  refine ⟨?_, ?_, h3⟩
  · intro hlt
    refine ⟨⟨?_, ?_, ?_, ?_, ?_, ?_, ?_⟩, ?_⟩
    · rw [hlow 21 (by decide), h.threads]
    · rw [hlow 24 (by decide), h.flag]
    · rw [hlow 22 (by decide)]
      apply h₂
    · rw [hlow 23 (by decide)]
      apply h.cursor
    · rw [h201, hcount, hterm]
      push_cast
      rfl
    · rw [h201]
      apply hlt
    · intro j hj hj'
      by_cases hjk : j = m 22
      · rw [hjk]
        omega
      · rw [hstate j hj hjk, hlow 22 (by decide)]
        apply h.states j hj hj'
    · intro j hj hj'
      by_cases hjk : j = m 22
      · rw [hjk]
        omega
      · rw [hstate j hj hjk]
        apply h.single hj hj' hjk
  · intro hle j hj hj'
    apply terminated_of_count _ hj hj'
    rw [hcount]
    push_cast
    omega

/-- The context switch makes the thread at the cursor the running one. -/
theorem Suspended.switched (h : Suspended n m) (hn : n ≤ 9) (hk : 1 ≤ k) (hk' : k ≤ n)
    (hstate : m (stateCell k) ≠ 3) (hm : Kernel.Switched k m m') :
  Running n m' ∧ m' (stateCell (m' 22)) = 1
  := by
  have h22 := hm.running
  have hs := hm.state
  have hframe : ∀ a, TableCell a → a ≠ 22 → a ≠ stateCell k → m' a = m a := by
    intro a ha h22 hne
    have := ha.bounds
    obtain h | h | h | h | h | ⟨j, hj, hj', h⟩ := id ha
    all_goals
      apply hm.frame a (by omega) (by omega) (by omega) h22 (by omega) hne
      unfold startCell stateCell at *
      omega
  have htable : Table n m' := by
    apply h.update hn hk hk' h22 hframe _ hstate (by omega)
    intro j hj hj' _
    apply h.idle j hj hj'
  refine ⟨⟨htable, ?_, ?_⟩, ?_⟩
  · rw [h22]
    apply hk
  · rw [h22]
    apply Or.inl hs
  · rw [h22]
    apply hs

end OperatingSystem
