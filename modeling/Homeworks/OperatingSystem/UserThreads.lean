import Homeworks.OperatingSystem.SortThread

/-!
# The system of `os.txt`

The system with the threads of `os.txt`, whatever data they start with, finishes; every thread has
printed what it is meant to, whatever the others do in between.
-/

open Simulator StateTransition Transition

namespace OperatingSystem

/-- The data of the threads. -/
def userData : List (Int × Int) :=
  [ -- factorial calculation
    (1050, 6), (1051, 1), (1099, 0),
    -- sum calculator
    (2050, 1), (2051, 0), (2052, 15), (2099, 0),
    -- simple counter
    (3050, 1), (3051, 5), (3099, 0),
    -- search algorithm
    (4050, 87), (4051, 35), (4052, 92), (4053, 28), (4054, 32), (4055, 65), (4057, 28), (4058, 101),
    (4060, 65), (4061, 0), (4062, 8), (4063, -1), (4099, 0),
    -- insertion sort
    (5070, 26), (5071, 4), (5072, 89), (5073, 1), (5074, 9), (5080, 5), (5081, 1), (5099, 0) ]

theorem userData_user :
  ∀ entry ∈ userData, 1000 ≤ entry.1 ∧ entry.1 < 10000
  := by decide +kernel

/-- The system of `os.txt`. -/
def os : System := ⟨5, userCode, userData, userData_user⟩

/-- What the threads rely on: the flags of the unconditional jumps are not set, the arrays have at
most ten elements, and the indices are where the loops begin. -/
structure Ready (cell : Int → Int) : Prop where
  flags : ∀ k, 1 ≤ k → k ≤ 5 → cell (1000 * k + 99) = 0
  position : 0 ≤ cell 4061
  searched : cell 4062 ≤ 10
  sorted : cell 5080 ≤ 10
  outer : cell 5081 = 1

/-- What the thread `k` prints if it starts with the memory `m`. -/
def output (k : Int) (m : Int → Int) : List Output :=
  if k = 1 then Solo.reports 1 1051 (Solo.products (m 1051) (m 1050).toNat)
  else if k = 2 then
    Solo.reports 2 2051 (Solo.sums (m 2051) (m 2050) (m 2052 - m 2050 + 1).toNat)
  else if k = 3 then Solo.reports 3 3050 (Solo.numbers (m 3050) (m 3051 - m 3050).toNat)
  else if k = 4 then
    Solo.report 4 4063 (Solo.find (fun i => m (4050 + i)) (m 4060) (m 4063) (m 4061)
      (m 4062 - m 4061).toNat)
  else if k = 5 then
    Solo.dump 5 5070 ((Solo.sortedCells (fun i => m (5070 + i)) (m 5080).toNat).take 5)
  else []

variable {s : System} {k : Int} {cell : Int → Int}

/-! ### The threads on their own -/

theorem startMemory_of_inSegment {a : Int} (h : InSegment k a) :
  startMemory k cell a = cell a
  := if_pos h

theorem startMemory_PC (hk : 1 ≤ k) :
  startMemory k cell CPU.PC = 1000 * k
  := by
  have hne : ¬ InSegment k CPU.PC := by
    change ¬ (1000 * k ≤ 0 ∧ _)
    omega
  rw [startMemory, if_neg hne, if_pos rfl]

/-- The programs of the threads. -/
theorem userCode_of_inSegment {a : Int} :
  (InSegment 1 a → userCode a = listing factorialCode a)
    ∧ (InSegment 2 a → userCode a = listing sumCode a)
    ∧ (InSegment 3 a → userCode a = listing counterCode a)
    ∧ (InSegment 4 a → userCode a = listing searchCode a)
    ∧ (InSegment 5 a → userCode a = listing sortCode a)
    ∧ (∀ k, 6 ≤ k → InSegment k a → userCode a = listing emptyCode a)
  := by
  unfold InSegment userCode
  refine ⟨?_, ?_, ?_, ?_, ?_, ?_⟩
  · intro h
    rw [if_pos (by omega)]
  · intro h
    rw [if_neg (by omega), if_pos (by omega)]
  · intro h
    rw [if_neg (by omega), if_neg (by omega), if_pos (by omega)]
  · intro h
    rw [if_neg (by omega), if_neg (by omega), if_neg (by omega), if_pos (by omega)]
  · intro h
    rw [if_neg (by omega), if_neg (by omega), if_neg (by omega), if_neg (by omega),
      if_pos (by omega)]
  · intro k hk h
    rw [if_neg (by omega), if_neg (by omega), if_neg (by omega), if_neg (by omega),
      if_neg (by omega)]

/-- Each thread, on its own, prints its output. -/
theorem Ready.prints (h : Ready cell) (hk : 1 ≤ k) (hk' : k ≤ 9) :
  ∃ program, (∀ a, InSegment k a → userCode a = program a)
    ∧ Solo.Prints k program (1000 * k) (startMemory k cell) (output k (startMemory k cell))
  := by
  have hflag : k ≤ 5 → startMemory k cell (1000 * k + 99) = 0 := by
    intro hk₅
    rw [startMemory_of_inSegment (by unfold InSegment; omega), h.flags k hk hk₅]
  obtain rfl | rfl | rfl | rfl | rfl | hk₆ : k = 1 ∨ k = 2 ∨ k = 3 ∨ k = 4 ∨ k = 5 ∨ 6 ≤ k := by
    omega
  · use listing factorialCode, fun a => userCode_of_inSegment.1
    exact Solo.factorial_prints (hflag (by decide)) rfl rfl
  · use listing sumCode, fun a => userCode_of_inSegment.2.1
    exact Solo.sum_prints (hflag (by decide))
  · use listing counterCode, fun a => userCode_of_inSegment.2.2.1
    exact Solo.counter_prints (hflag (by decide))
  · use listing searchCode, fun a => userCode_of_inSegment.2.2.2.1
    apply Solo.search_prints (hflag (by decide))
    · rw [startMemory_of_inSegment (by decide)]
      apply h.position
    · rw [startMemory_of_inSegment (by decide)]
      apply h.searched
  · use listing sortCode, fun a => userCode_of_inSegment.2.2.2.2.1
    apply Solo.sort_prints (hflag (by decide))
    · rw [startMemory_of_inSegment (by decide)]
      apply h.sorted
    · rw [startMemory_of_inSegment (by decide)]
      apply h.outer
  · use listing emptyCode, fun a => userCode_of_inSegment.2.2.2.2.2 k hk₆
    have houtput : output k (startMemory k cell) = [] := by
      unfold output
      iterate 5 rw [if_neg (by omega)]
    rw [houtput]
    apply Solo.Prints.halt
    · unfold InSegment
      omega
    · obtain rfl | rfl | rfl | rfl : k = 6 ∨ k = 7 ∨ k = 8 ∨ k = 9 := by omega
      all_goals rfl

/-! ### The system -/

variable (hn : 2 ≤ s.threads) (hn' : s.threads ≤ 9)

include hn hn'

/-- A system with the threads of `os.txt` finishes, each thread having printed its output; what is
observed of a thread at any time is the beginning of what it does on its own. -/
theorem user_threads_complete (hprogram : ∀ a, 1000 ≤ a → s.program a = userCode a)
    (hready : Ready s.boot.cell) :
  ∃ c, Finished s c ∧ ∀ k, 1 ≤ k → k ≤ s.threads →
    ∃ l, Reaches (logged CPU.step (event k)) (s.boot, []) (c, l)
      ∧ l.flatMap Event.printed = output k (startMemory k s.boot.cell)
      ∧ ∀ l', s.Observes k l' → l' <+: l
  := by
  have hall : ∀ k, ∃ N l, 1 ≤ k → k ≤ s.threads →
      Solo.Completes k (s.code k) N (startMemory k s.boot.cell) l
        ∧ l.flatMap Event.printed = output k (startMemory k s.boot.cell) := by
    intro k
    by_cases hk : 1 ≤ k ∧ k ≤ s.threads
    · obtain ⟨program, hcode, N, l, hcompletes, hprinted⟩ := hready.prints hk.1 (by omega)
      use N, l
      intro hk₁ _
      have hstart : Function.update (startMemory k s.boot.cell) CPU.PC (1000 * k)
          = startMemory k s.boot.cell := by
        rw [← startMemory_PC hk₁, Function.update_eq_self]
      rw [hstart] at hcompletes
      refine ⟨hcompletes.congr ?_, hprinted⟩
      intro a ha
      rw [System.code, if_pos ha, ← hcode a ha]
      apply hprogram
      unfold InSegment at ha
      omega
    · use 0, []
      intro hk₁ hk'
      exact absurd ⟨hk₁, hk'⟩ hk
  choose N out hout using hall
  obtain ⟨c, hc, hreach⟩ := System.finishes hn hn' (fun k hk hk' => (hout k hk hk').1)
  use c, hc
  intro k hk hk'
  use out k, hreach k hk hk', (hout k hk hk').2
  intro l hl
  apply hc.observes hn' (hreach k hk hk') hl

omit hn hn'

theorem ready_os : Ready os.boot.cell
  := by
  constructor
  · intro k hk hk'
    obtain rfl | rfl | rfl | rfl | rfl : k = 1 ∨ k = 2 ∨ k = 3 ∨ k = 4 ∨ k = 5 := by omega
    all_goals decide +kernel
  all_goals decide +kernel

theorem user_threads_complete_os :
  ∃ c, Finished os c ∧ ∀ k, 1 ≤ k → k ≤ 5 →
    ∃ l, Reaches (logged CPU.step (event k)) (os.boot, []) (c, l)
      ∧ l.flatMap Event.printed = output k (startMemory k os.boot.cell)
      ∧ ∀ l', os.Observes k l' → l' <+: l
  := user_threads_complete (s := os) (by decide) (by decide) (fun _ _ => rfl) ready_os

/-- The array of `os.txt` is sorted. -/
example : output 5 (startMemory 5 os.boot.cell) = Solo.dump 5 5070 [1, 4, 9, 26, 89]
  := by decide +kernel

/-- The counter of `os.txt` stops before its end value. -/
example : output 3 (startMemory 3 os.boot.cell) = Solo.reports 3 3050 [1, 2, 3, 4]
  := by decide +kernel

end OperatingSystem
