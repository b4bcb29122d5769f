import Homeworks.OperatingSystem.ThreadRules
import Mathlib.Algebra.BigOperators.Group.Finset.Basic
import Mathlib.Data.Nat.Factorial.Basic

/-!
# The threads of `os.txt`

The programs that `os.txt` gives to its threads: a factorial, a sum, a counter, a search and a
sort.  The others terminate at once.  For the first four, what they print, whatever data they start
with.
-/

open Simulator

namespace OperatingSystem

/-! ### Instructions -/

/-- Thread 1: factorial calculator. -/
def factorialCode : List (Int × Instruction) :=
  [ (1000, .of .JIF [1050, 1020]),
    -- initialize multiplication
    (1001, .of .SET [0, 1053]), (1002, .of .CPY [1050, 1052]),
    -- multiplication by repeated addition
    (1003, .of .JIF [1052, 1007]), (1004, .of .ADDI [1053, 1051]), (1005, .of .ADD [1052, -1]),
    (1006, .of .JIF [1099, 1003]),
    -- update and continue factorial
    (1007, .of .CPY [1053, 1051]), (1008, .syscall .PRN [1051]), (1009, .syscall .YIELD []),
    (1010, .of .ADD [1050, -1]), (1011, .of .JIF [1099, 1000]),
    -- finalize and terminate
    (1020, .syscall .PRN [1051]), (1021, .syscall .HLT []) ]

/-- Thread 2: sum calculator. -/
def sumCode : List (Int × Instruction) :=
  [ (2000, .of .JIF [2099, 2004]),
    -- loop condition check
    (2004, .of .CPY [2050, 2053]), (2005, .of .CPY [2052, 2054]), (2006, .of .SUBI [2054, 2053]),
    (2007, .of .ADD [2053, 1]), (2008, .of .JIF [2053, 2020]),
    -- process current iteration
    (2009, .of .ADDI [2051, 2050]), (2010, .syscall .PRN [2051]), (2011, .syscall .YIELD []),
    (2012, .of .ADD [2050, 1]), (2013, .of .JIF [2099, 2004]),
    -- finalize and terminate
    (2020, .syscall .PRN [2051]), (2021, .syscall .HLT []) ]

/-- Thread 3: simple counter. -/
def counterCode : List (Int × Instruction) :=
  [ (3000, .of .JIF [3099, 3003]),
    -- loop condition check
    (3003, .of .CPY [3050, 3052]), (3004, .of .CPY [3051, 3053]), (3005, .of .SUBI [3053, 3052]),
    (3006, .of .ADD [3053, 1]), (3007, .of .JIF [3052, 3020]),
    -- process and display
    (3008, .syscall .PRN [3050]), (3009, .syscall .YIELD []), (3010, .of .ADD [3050, 1]),
    (3011, .of .JIF [3099, 3003]),
    -- finalize and terminate
    (3020, .syscall .HLT []) ]

/-- Thread 4: search algorithm. -/
def searchCode : List (Int × Instruction) :=
  [ (4000, .of .JIF [4099, 4015]),
    -- loop boundary check
    (4015, .of .CPY [4061, 4070]), (4016, .of .CPY [4062, 4071]), (4017, .of .SUBI [4071, 4070]),
    (4018, .of .JIF [4070, 4080]),
    -- access array element
    (4019, .of .CPY [4061, 4072]), (4020, .of .ADD [4072, 4050]), (4021, .of .CPYI [4072, 4073]),
    -- compare with search key (first direction)
    (4022, .of .CPY [4073, 4074]), (4023, .of .CPY [4060, 4075]), (4024, .of .SUBI [4074, 4075]),
    (4025, .of .JIF [4075, 4027]), (4026, .of .JIF [4099, 4035]),
    -- compare with search key (reverse direction)
    (4027, .of .CPY [4060, 4076]), (4028, .of .CPY [4073, 4077]), (4029, .of .SUBI [4076, 4077]),
    (4030, .of .JIF [4077, 4040]), (4031, .of .JIF [4099, 4035]),
    -- move to next element
    (4035, .of .ADD [4061, 1]), (4036, .syscall .YIELD []), (4037, .of .JIF [4099, 4015]),
    -- element found
    (4040, .of .CPY [4061, 4063]), (4041, .of .JIF [4099, 4080]),
    -- finalize and terminate
    (4080, .syscall .PRN [4063]), (4081, .syscall .HLT []) ]

/-- Thread 5: insertion sort. -/
def sortCode : List (Int × Instruction) :=
  [ (5000, .of .JIF [5099, 5008]),
    -- outer loop check
    (5008, .of .CPY [5081, 5082]), (5009, .of .CPY [5080, 5083]), (5010, .of .SUBI [5083, 5082]),
    (5011, .of .JIF [5082, 5065]),
    -- get current element as key
    (5012, .of .CPY [5081, 5084]), (5013, .of .ADD [5084, 5070]), (5014, .of .CPYI [5084, 5085]),
    -- setup inner loop
    (5015, .of .CPY [5081, 5086]), (5016, .of .ADD [5086, -1]),
    -- inner loop boundary check
    (5017, .of .CPY [5086, 5087]), (5018, .of .ADD [5087, 1]), (5019, .of .JIF [5087, 5045]),
    -- load comparison element
    (5020, .of .CPY [5086, 5088]), (5021, .of .ADD [5088, 5070]), (5022, .of .CPYI [5088, 5089]),
    -- compare elements
    (5023, .of .CPY [5089, 5090]), (5024, .of .CPY [5085, 5091]), (5025, .of .SUBI [5090, 5091]),
    (5026, .of .JIF [5091, 5045]),
    -- shift element right
    (5027, .of .CPY [5086, 5092]), (5028, .of .ADD [5092, 1]), (5029, .of .ADD [5092, 5070]),
    (5030, .of .CPY [5089, 5093]), (5031, .of .SET [5093, 5094]), (5032, .of .CPYI2 [5094, 5092]),
    -- continue inner loop
    (5033, .of .ADD [5086, -1]), (5034, .syscall .YIELD []), (5035, .of .JIF [5099, 5017]),
    -- insert key at final position
    (5045, .of .CPY [5086, 5095]), (5046, .of .ADD [5095, 1]), (5047, .of .ADD [5095, 5070]),
    (5048, .of .SET [5085, 5096]), (5049, .of .CPYI2 [5096, 5095]),
    -- continue with next element
    (5050, .of .ADD [5081, 1]), (5051, .syscall .YIELD []), (5052, .of .JIF [5099, 5008]),
    -- output results
    (5065, .syscall .PRN [5070]), (5066, .syscall .PRN [5071]), (5067, .syscall .PRN [5072]),
    (5068, .syscall .PRN [5073]), (5069, .syscall .PRN [5074]), (5070, .syscall .HLT []) ]

/-- Threads 6 to 10: they terminate at once. -/
def emptyCode : List (Int × Instruction) :=
  [ (6000, .syscall .HLT []), (7000, .syscall .HLT []), (8000, .syscall .HLT []),
    (9000, .syscall .HLT []), (10000, .syscall .HLT []) ]

/-- The instruction at an address of a listing. -/
def listing (code : List (Int × Instruction)) (a : Int) : Option Instruction := code.lookup a

/-- The instructions of the threads. -/
def userCode (a : Int) : Option Instruction :=
  if a < 2000 then listing factorialCode a
  else if a < 3000 then listing sumCode a
  else if a < 4000 then listing counterCode a
  else if a < 5000 then listing searchCode a
  else if a < 6000 then listing sortCode a
  else listing emptyCode a

namespace Solo

variable {m : Int → Int} {out : List Output}

/-! ### Factorial -/

/-- The loop adds cell 1051 to cell 1053 as many times as cell 1052 says. -/
theorem factorial_loop (n : ℕ) (h1099 : m 1099 = 0) (h1052 : m 1052 = n)
    (h : ∀ m', m' 1053 = m 1053 + n * m 1051 → (∀ a, a ≠ 1052 → a ≠ 1053 → m' a = m a) →
      Prints 1 (listing factorialCode) 1007 m' out) :
  Prints 1 (listing factorialCode) 1003 m out
  := by
  induction n generalizing m with
  | zero =>
      apply Prints.jif (by decide) rfl (by decide) h1052.le
      apply h m
      · simp
      · intro _ _ _
        rfl
  | succ n ih =>
      apply Prints.jifNot (by decide) rfl (by omega)
      apply Prints.addi (by decide) (by decide) rfl
      apply Prints.add (by decide) rfl
      apply Prints.jif (by decide) rfl (by decide)
      · simp [h1099]
      apply ih
      · simp [h1099]
      · simp [h1052]
      · intro m' h1053 hm'
        apply h
        · rw [h1053]
          simp
          ring
        · intro a h₁ h₂
          rw [hm' a h₁ h₂, Function.update_of_ne h₁, Function.update_of_ne h₂]

/-- What a thread prints of the values that a cell takes. -/
def reports (k a : Int) (values : List Int) : List Output := values.flatMap (report k a)

theorem reports_cons (k a v : Int) (values : List Int) :
  report k a v ++ reports k a values = reports k a (v :: values)
  := rfl

/-- The products `r * n`, `r * n * (n - 1)` up to `r * n!`, and the last once more. -/
def products (r : Int) (n : ℕ) : List Int :=
  (List.range n).map (fun i => r * (n.descFactorial (i + 1) : ℕ)) ++ [r * (n.factorial : ℕ)]

theorem products_succ (r : Int) (n : ℕ) :
  products r (n + 1) = r * (n + 1) :: products (r * (n + 1)) n
  := by
  unfold products
  rw [List.range_succ_eq_map, List.map_cons, List.map_map, List.cons_append]
  congr 1
  · simp
  · congr 1
    · apply List.map_congr_left
      intro i _
      simp only [Function.comp_apply, Nat.succ_descFactorial_succ]
      push_cast
      ring
    · simp only [Nat.factorial_succ]
      push_cast
      ring_nf

/-- Thread 1 prints the products of the factorial, and the factorial itself at the end. -/
theorem factorial_prints {r : Int} {n : ℕ} (h1099 : m 1099 = 0) (h1051 : m 1051 = r)
    (h1050 : (m 1050).toNat = n) :
  Prints 1 (listing factorialCode) 1000 m (reports 1 1051 (products r n))
  := by
  induction n generalizing m r with
  | zero =>
      apply Prints.jif (by decide) rfl (by decide) (by omega)
      have hlast : reports 1 1051 (products r 0) = report 1 1051 r ++ [] := by
        simp [reports, products]
      rw [hlast]
      apply Prints.prn (by decide) rfl h1051
      apply Prints.halt (by decide) rfl
  | succ n ih =>
      have hpos : m 1050 = n + 1 := by omega
      apply Prints.jifNot (by decide) rfl (by omega)
      apply Prints.set (by decide) rfl
      apply Prints.cpy (by decide) (by decide) rfl
      apply factorial_loop (n + 1)
      · simp [h1099]
      · simp [hpos]
      · intro m' h1053 hm'
        have hcell : ∀ a, a ≠ 1052 → a ≠ 1053 → m' a = m a := by
          intro a h₁ h₂
          rw [hm' a h₁ h₂, Function.update_of_ne h₁, Function.update_of_ne h₂]
        have hproduct : m' 1053 = r * (n + 1) := by
          rw [h1053]
          simp [h1051]
          ring
        rw [products_succ, ← reports_cons]
        apply Prints.cpy (by decide) (by decide) rfl
        apply Prints.prn (by decide) rfl
        · simp [hproduct]
        apply Prints.yield (by decide) rfl
        apply Prints.add (by decide) rfl
        apply Prints.jif (by decide) rfl (by decide)
        · simp [hcell, h1099]
        apply ih
        · simp [hcell, h1099]
        · simp [hproduct]
        · simp [hcell, hpos]

/-! ### Sum -/

/-- The sums `s`, `s + c`, `s + c + (c + 1)` and so on of `n` more numbers, the last of them once
more. -/
def sums (s c : Int) (n : ℕ) : List Int :=
  (List.range n).map (fun i => s + ∑ j ∈ Finset.range (i + 1), (c + j))
    ++ [s + ∑ j ∈ Finset.range n, (c + j)]

theorem sums_succ (s c : Int) (n : ℕ) :
  sums s c (n + 1) = (s + c) :: sums (s + c) (c + 1) n
  := by
  have hsum : ∀ i : ℕ, s + ∑ j ∈ Finset.range (i + 1), (c + (j : Int))
      = s + c + ∑ j ∈ Finset.range i, (c + 1 + (j : Int)) := by
    intro i
    rw [Finset.sum_range_succ']
    have hshift : ∀ j : ℕ, c + ((j + 1 : ℕ) : Int) = c + 1 + j := by
      intro j
      push_cast
      ring
    simp only [hshift]
    push_cast
    ring
  unfold sums
  rw [List.range_succ_eq_map, List.map_cons, List.map_map, List.cons_append, hsum n]
  congr 1
  · simp
  · congr 1
    apply List.map_congr_left
    intro i _
    simp only [Function.comp_apply]
    apply hsum

/-- The loop of thread 2. -/
theorem sum_loop {s c : Int} {n : ℕ} (h2099 : m 2099 = 0) (h2051 : m 2051 = s) (h2050 : m 2050 = c)
    (hn : (m 2052 - c + 1).toNat = n) :
  Prints 2 (listing sumCode) 2004 m (reports 2 2051 (sums s c n))
  := by
  induction n generalizing m s c with
  | zero =>
      apply Prints.cpy (by decide) (by decide) rfl
      apply Prints.cpy (by decide) (by decide) rfl
      apply Prints.subi (by decide) (by decide) rfl
      apply Prints.add (by decide) rfl
      apply Prints.jif (by decide) rfl (by decide)
      · simp
        omega
      have hlast : reports 2 2051 (sums s c 0) = report 2 2051 s ++ [] := by
        simp [reports, sums]
      rw [hlast]
      apply Prints.prn (by decide) rfl
      · simp [h2051]
      apply Prints.halt (by decide) rfl
  | succ n ih =>
      rw [sums_succ, ← reports_cons]
      apply Prints.cpy (by decide) (by decide) rfl
      apply Prints.cpy (by decide) (by decide) rfl
      apply Prints.subi (by decide) (by decide) rfl
      apply Prints.add (by decide) rfl
      apply Prints.jifNot (by decide) rfl
      · simp
        omega
      apply Prints.addi (by decide) (by decide) rfl
      apply Prints.prn (by decide) rfl
      · simp [h2051, h2050]
      apply Prints.yield (by decide) rfl
      apply Prints.add (by decide) rfl
      apply Prints.jif (by decide) rfl (by decide)
      · simp [h2099]
      apply ih
      · simp [h2099]
      · simp [h2051, h2050]
      · simp [h2050]
      · simp
        omega

/-- Thread 2 prints the sums of the numbers from its counter to its end value. -/
theorem sum_prints (h2099 : m 2099 = 0) :
  Prints 2 (listing sumCode) 2000 m
    (reports 2 2051 (sums (m 2051) (m 2050) (m 2052 - m 2050 + 1).toNat))
  := by
  apply Prints.jif (by decide) rfl (by decide) h2099.le
  apply sum_loop h2099 rfl rfl rfl

/-! ### Counter -/

/-- The numbers from `c` on. -/
def numbers (c : Int) (n : ℕ) : List Int := (List.range n).map fun (i : ℕ) => c + i

theorem numbers_succ (c : Int) (n : ℕ) :
  numbers c (n + 1) = c :: numbers (c + 1) n
  := by
  unfold numbers
  rw [List.range_succ_eq_map, List.map_cons, List.map_map]
  congr 1
  · simp
  · apply List.map_congr_left
    intro i _
    simp only [Function.comp_apply]
    push_cast
    ring

/-- The loop of thread 3: the comparison is adjusted in another cell than the one that is tested,
so that the loop ends when the counter is at its end value. -/
theorem counter_loop {c : Int} {n : ℕ} (h3099 : m 3099 = 0) (h3050 : m 3050 = c)
    (hn : (m 3051 - c).toNat = n) :
  Prints 3 (listing counterCode) 3003 m (reports 3 3050 (numbers c n))
  := by
  induction n generalizing m c with
  | zero =>
      apply Prints.cpy (by decide) (by decide) rfl
      apply Prints.cpy (by decide) (by decide) rfl
      apply Prints.subi (by decide) (by decide) rfl
      apply Prints.add (by decide) rfl
      apply Prints.jif (by decide) rfl (by decide)
      · simp
        omega
      apply Prints.halt (by decide) rfl
  | succ n ih =>
      rw [numbers_succ, ← reports_cons]
      apply Prints.cpy (by decide) (by decide) rfl
      apply Prints.cpy (by decide) (by decide) rfl
      apply Prints.subi (by decide) (by decide) rfl
      apply Prints.add (by decide) rfl
      apply Prints.jifNot (by decide) rfl
      · simp
        omega
      apply Prints.prn (by decide) rfl
      · simp [h3050]
      apply Prints.yield (by decide) rfl
      apply Prints.add (by decide) rfl
      apply Prints.jif (by decide) rfl (by decide)
      · simp [h3099]
      apply ih
      · simp [h3099]
      · simp [h3050]
      · simp
        omega

/-- Thread 3 prints the numbers from its counter up to, but not including, its end value. -/
theorem counter_prints (h3099 : m 3099 = 0) :
  Prints 3 (listing counterCode) 3000 m
    (reports 3 3050 (numbers (m 3050) (m 3051 - m 3050).toNat))
  := by
  apply Prints.jif (by decide) rfl (by decide) h3099.le
  apply counter_loop h3099 rfl rfl

/-! ### Search -/

/-- The first of `n` indices from `p` on at which the array holds the key; `v` if there is none. -/
def find (element : Int → Int) (key v p : Int) (n : ℕ) : Int :=
  ((numbers p n).find? fun i => element i = key).getD v

theorem find_succ_of_eq {element : Int → Int} {key v p : Int} (n : ℕ) (h : element p = key) :
  find element key v p (n + 1) = p
  := by
  simp [find, numbers_succ, h]

theorem find_succ_of_ne {element : Int → Int} {key v p : Int} (n : ℕ) (h : element p ≠ key) :
  find element key v p (n + 1) = find element key v (p + 1) n
  := by
  simp [find, numbers_succ, h]

/-- What thread 4 finds in its memory, from the index `p` on. -/
structure Searching (element : Int → Int) (key v p : Int) (n : ℕ) (m : Int → Int) : Prop where
  flag : m 4099 = 0
  index : m 4061 = p
  nonneg : 0 ≤ p
  size : (m 4062 - p).toNat = n
  bound : m 4062 ≤ 10
  array : ∀ i, 0 ≤ i → i < 10 → m (4050 + i) = element i
  key : m 4060 = key
  found : m 4063 = v

/-- Only scratch cells of thread 4 differ. -/
theorem Searching.scratch {element : Int → Int} {key v p : Int} {n : ℕ}
    (h : Searching element key v p n m) {a : Int} (ha : 4070 ≤ a) (ha' : a < 4099) (x : Int) :
  Searching element key v p n (Function.update m a x)
  := by
  have hcell : ∀ b, b < 4070 ∨ b = 4099 → Function.update m a x b = m b := by
    intro b hb
    apply Function.update_of_ne
    omega
  use by rw [hcell _ (by decide), h.flag], by rw [hcell _ (by decide), h.index], h.nonneg
  · rw [hcell _ (by decide), h.size]
  · rw [hcell _ (by decide)]
    apply h.bound
  · intro i hi hi'
    rw [hcell _ (by omega), h.array i hi hi']
  · rw [hcell _ (by decide), h.key]
  · rw [hcell _ (by decide), h.found]

/-- The comparison of an element with the key. -/
theorem search_compare {element : Int → Int} {key v p x : Int} {n : ℕ}
    (h : Searching element key v p n m) (h4073 : m 4073 = x)
    (hne : x ≠ key → ∀ m', Searching element key v p n m' →
      Prints 4 (listing searchCode) 4035 m' out)
    (heq : x = key → ∀ m', Searching element key v p n m' →
      Prints 4 (listing searchCode) 4040 m' out) :
  Prints 4 (listing searchCode) 4022 m out
  := by
  have hflag := h.flag
  have hkey := h.key
  apply Prints.cpy (by decide) (by decide) rfl
  apply Prints.cpy (by decide) (by decide) rfl
  apply Prints.subi (by decide) (by decide) rfl
  by_cases hlt : key < x
  · apply Prints.jifNot (by decide) rfl
    · simp [h4073, hkey, hlt]
    apply Prints.jif (by decide) rfl (by decide)
    · simp [hflag]
    apply hne (by omega)
    iterate 3 refine Searching.scratch ?_ (by decide) (by decide) _
    exact h
  · apply Prints.jif (by decide) rfl (by decide)
    · simp [h4073, hkey]
      omega
    apply Prints.cpy (by decide) (by decide) rfl
    apply Prints.cpy (by decide) (by decide) rfl
    apply Prints.subi (by decide) (by decide) rfl
    by_cases hlt' : x < key
    · apply Prints.jifNot (by decide) rfl
      · simp [h4073, hkey, hlt']
      apply Prints.jif (by decide) rfl (by decide)
      · simp [hflag]
      apply hne (by omega)
      iterate 6 refine Searching.scratch ?_ (by decide) (by decide) _
      exact h
    · apply Prints.jif (by decide) rfl (by decide)
      · simp [h4073, hkey]
        omega
      apply heq (by omega)
      iterate 6 refine Searching.scratch ?_ (by decide) (by decide) _
      exact h

/-- The end of thread 4. -/
theorem search_end {x : Int} (h4063 : m 4063 = x) :
  Prints 4 (listing searchCode) 4080 m (report 4 4063 x)
  := by
  rw [← List.append_nil (report _ _ _)]
  apply Prints.prn (by decide) rfl h4063
  apply Prints.halt (by decide) rfl

/-- The loop of thread 4. -/
theorem search_loop {element : Int → Int} {key v p : Int} {n : ℕ}
    (h : Searching element key v p n m) :
  Prints 4 (listing searchCode) 4015 m (report 4 4063 (find element key v p n))
  := by
  induction n generalizing m p with
  | zero =>
      have hsize := h.size
      apply Prints.cpy (by decide) (by decide) rfl
      apply Prints.cpy (by decide) (by decide) rfl
      apply Prints.subi (by decide) (by decide) rfl
      apply Prints.jif (by decide) rfl (by decide)
      · simp [h.index]
        omega
      apply search_end
      simp [h.found, find, numbers]
  | succ n ih =>
      have hsize := h.size
      have hbound := h.bound
      have hp := h.nonneg
      apply Prints.cpy (by decide) (by decide) rfl
      apply Prints.cpy (by decide) (by decide) rfl
      apply Prints.subi (by decide) (by decide) rfl
      apply Prints.jifNot (by decide) rfl
      · simp [h.index]
        omega
      apply Prints.cpy (by decide) (by decide) rfl
      apply Prints.add (by decide) rfl
      apply Prints.cpyi (x := 4050 + p) (v := element p) (by decide) (by decide) rfl
      · simp [h.index]
        ring
      · unfold InSegment
        omega
      · iterate 5 rw [Function.update_of_ne (by omega)]
        apply h.array p hp (by omega)
      apply Prints.weaken (P := fun m' => Searching element key v p (n + 1) m'
        ∧ m' 4073 = element p)
      · constructor
        · iterate 6 refine Searching.scratch ?_ (by decide) (by decide) _
          exact h
        · simp
      rintro m₁ ⟨h₁, h4073⟩
      apply search_compare h₁ h4073
      · -- the next element
        intro hne m' h'
        have hsize' := h'.size
        rw [find_succ_of_ne n hne]
        apply Prints.add (by decide) rfl
        apply Prints.yield (by decide) rfl
        apply Prints.jif (by decide) rfl (by decide)
        · simp [h'.flag]
        apply ih
        constructor
        · simp [h'.flag]
        · simp [h'.index]
        · omega
        · simp
          omega
        · simp [h'.bound]
        · intro i hi hi'
          rw [Function.update_of_ne (by omega), h'.array i hi hi']
        · simp [h'.key]
        · simp [h'.found]
      · -- the element is the key
        intro heq m' h'
        rw [find_succ_of_eq n heq]
        apply Prints.cpy (by decide) (by decide) rfl
        apply Prints.jif (by decide) rfl (by decide)
        · simp [h'.flag]
        apply search_end
        simp [h'.index]

/-- Thread 4 prints the first index from its position on at which the array, of at most ten
elements, holds the key; else what its result starts with. -/
theorem search_prints (h4099 : m 4099 = 0) (h4061 : 0 ≤ m 4061) (h4062 : m 4062 ≤ 10) :
  Prints 4 (listing searchCode) 4000 m
    (report 4 4063 (find (fun i => m (4050 + i)) (m 4060) (m 4063) (m 4061)
      (m 4062 - m 4061).toNat))
  := by
  apply Prints.jif (by decide) rfl (by decide) h4099.le
  apply search_loop
  exact ⟨h4099, rfl, h4061, rfl, h4062, fun _ _ _ => rfl, rfl, rfl⟩

end Solo

end OperatingSystem
