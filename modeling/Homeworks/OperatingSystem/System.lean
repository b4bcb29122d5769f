import Homeworks.OperatingSystem.Handlers
import Homeworks.Simulator.Step

/-!
# Systems

A system is the operating system with a number of threads, and with instructions and data
for them above address 1000.  It is started by loading it into a new CPU.
-/

open Simulator

namespace OperatingSystem

/-- What `os.txt` is completed with. -/
structure System where
  /-- the number of threads -/
  threads : Int
  /-- the instructions of the threads -/
  program : Int → Option Instruction
  /-- the data of the threads -/
  data : List (Int × Int)
  /-- the data of the threads lie in user space -/
  data_user : ∀ entry ∈ data, 1000 ≤ entry.1 ∧ entry.1 < 10000

namespace System

variable (s : System)

/-- The instructions of a system. -/
def instructionMap (a : Int) : Option Instruction :=
  if a < 1000 then osCode a else s.program a

/-- The state in which a system starts. -/
def boot : CPU :=
  (((({ CPU.new with instructions := s.instructionMap }.setAll
    (kernelData s.threads ++ s.data)).set 2 0).set 3 0).set 0 0)

/-! ### The data loaded -/

/-- The contents of a cell to which all entries store the same. -/
theorem cell_setAll_of (c : CPU) {a v : Int} (ha : 0 ≤ a) (ha' : a < 10000)
    (stores : List (Int × Int)) (h : ∀ store ∈ stores, store.1 = a → store.2 = v)
    (hc : c.cell a = v ∨ ∃ store ∈ stores, store.1 = a) :
  (c.setAll stores).cell a = v
  := by
  induction stores generalizing c with
  | nil =>
      obtain hc | ⟨_, hmem, _⟩ := hc
      · apply hc
      · cases hmem
  | cons store stores ih =>
      apply ih _ fun s hs => h s (List.mem_cons_of_mem _ hs)
      by_cases hs : store.1 = a
      · left
        change (c.set store.1 store.2).cell a = v
        rw [hs, CPU.cell_set_self]
        apply h store List.mem_cons_self hs
      · obtain hc | ⟨s, hmem, hsa⟩ := hc
        · left
          change (c.set store.1 store.2).cell a = v
          rw [CPU.cell_set _ _ _ ha ha', if_neg (Ne.symm hs), hc]
        · right
          obtain rfl | hmem := List.mem_cons.mp hmem
          · exact absurd hsa hs
          · use s, hmem, hsa

/-! ### The data of the kernel -/

theorem registers_bounds :
  ∀ entry ∈ registers, 0 ≤ entry.1 ∧ entry.1 ≤ 20
  := by decide +kernel

theorem zeros_bounds (a : Int) (n : Nat) :
  ∀ entry ∈ zeros a n, a ≤ entry.1 ∧ entry.1 < a + n ∧ entry.2 = 0
  := by
  intro entry h
  obtain ⟨i, hi, rfl⟩ := List.mem_map.mp h
  have := List.mem_range.mp hi
  exact ⟨by dsimp only; omega, by dsimp only; omega, rfl⟩

theorem threadTable_bounds :
  ∀ entry ∈ threadTable, 500 ≤ entry.1 ∧ entry.1 < 610
  := by decide +kernel

/-- The entries of the user threads. -/
theorem threadTable_entry :
  ∀ entry ∈ threadTable, ∀ j ∈ [1, 2, 3, 4, 5, 6, 7, 8, 9, 10],
    (entry.1 = stateCell j → entry.2 = 0) ∧ (entry.1 = startCell j → entry.2 = 0)
      ∧ (entry.1 = pcCell j → entry.2 = 1000 * j) ∧ (entry.1 = spCell j → entry.2 = 1000 * j + 100)
  := by decide +kernel

theorem threadTable_exists :
  ∀ j ∈ [1, 2, 3, 4, 5, 6, 7, 8, 9, 10], (∃ entry ∈ threadTable, entry.1 = pcCell j)
    ∧ ∃ entry ∈ threadTable, entry.1 = spCell j
  := by decide +kernel

/-- Where the data of the kernel lie. -/
theorem kernelData_cases {n : Int} {entry : Int × Int} (h : entry ∈ kernelData n) :
  (0 ≤ entry.1 ∧ entry.1 ≤ 20) ∨ entry = (21, n) ∨ (22 ≤ entry.1 ∧ entry.1 ≤ 26 ∧ entry.2 = 0)
    ∨ (entry ∈ threadTable ∧ 500 ≤ entry.1 ∧ entry.1 < 610)
    ∨ (200 ≤ entry.1 ∧ entry.1 ≤ 201 ∧ entry.2 = 0)
  := by
  simp only [kernelData, osVariables, List.mem_append, List.mem_cons] at h
  obtain ((h | h | h) | h) | h := h
  · left
    apply registers_bounds _ h
  · right; left
    apply h
  · right; right; left
    have := zeros_bounds _ _ _ h
    omega
  · right; right; right; left
    exact ⟨h, threadTable_bounds _ h⟩
  · right; right; right; right
    have := zeros_bounds _ _ _ h
    omega

/-! ### The start of a system -/

/-- A system is loaded. -/
theorem loadProgram_run :
  (CPU.loadProgram s.instructionMap (kernelData s.threads ++ s.data)).run CPU.new
    = .ok () s.boot
  := by
  have hall : ∀ entry ∈ kernelData s.threads ++ s.data, 0 ≤ entry.1 ∧ entry.1 < 10000 := by
    intro entry h
    obtain h | h := List.mem_append.mp h
    · obtain h | rfl | h | ⟨_, h⟩ | h := kernelData_cases h
      · omega
      · change 0 ≤ (21 : Int) ∧ (21 : Int) < 10000
        decide
      · omega
      · omega
      · omega
    · have := s.data_user entry h
      omega
  apply CPU.loadProgram_run _ _ hall

/-- Below address 1000 a system contains the data of the kernel. -/
theorem boot_cell {a v : Int} (ha : 4 ≤ a) (ha' : a < 1000)
    (h : ∀ entry ∈ kernelData s.threads, entry.1 = a → entry.2 = v)
    (hv : v = 0 ∨ ∃ entry ∈ kernelData s.threads, entry.1 = a) :
  s.boot.cell a = v
  := by
  unfold boot
  rw [CPU.cell_set _ _ _ (by omega) (by omega), if_neg (by omega),
    CPU.cell_set _ _ _ (by omega) (by omega), if_neg (by omega),
    CPU.cell_set _ _ _ (by omega) (by omega), if_neg (by omega)]
  apply cell_setAll_of _ (by omega) (by omega)
  · intro entry hmem
    obtain hmem | hmem := List.mem_append.mp hmem
    · apply h entry hmem
    · have := s.data_user entry hmem
      omega
  · obtain rfl | ⟨entry, hmem, he⟩ := hv
    · left
      rfl
    · right
      use entry, List.mem_append_left _ hmem, he

theorem boot_threads :
  s.boot.cell 21 = s.threads
  := by
  apply s.boot_cell (by decide) (by decide)
  · intro entry hmem ha
    obtain h | rfl | h | ⟨_, h⟩ | h := kernelData_cases hmem
    · omega
    · rfl
    · omega
    · omega
    · omega
  · right
    use (21, s.threads)
    simp [kernelData, osVariables]

/-- The variables of the kernel are zero. -/
theorem boot_variable {a : Int} (ha : (22 ≤ a ∧ a ≤ 26) ∨ a = 200 ∨ a = 201) :
  s.boot.cell a = 0
  := by
  apply s.boot_cell (by omega) (by omega)
  · intro entry hmem ha'
    obtain h | rfl | h | ⟨_, h⟩ | h := kernelData_cases hmem
    · omega
    · change 21 = a at ha'
      omega
    · omega
    · omega
    · omega
  · left
    rfl

theorem mem_threads {j : Int} (hj : 1 ≤ j) (hj' : j ≤ 10) :
  j ∈ [1, 2, 3, 4, 5, 6, 7, 8, 9, 10]
  := by
  simp only [List.mem_cons, List.not_mem_nil, or_false]
  omega

/-- The entry of a thread: ready, not started, and with the registers set to its segment. -/
theorem boot_entry {j : Int} (hj : 1 ≤ j) (hj' : j ≤ 10) :
  s.boot.cell (stateCell j) = 0 ∧ s.boot.cell (startCell j) = 0
    ∧ s.boot.cell (pcCell j) = 1000 * j ∧ s.boot.cell (spCell j) = 1000 * j + 100
  := by
  have htable : ∀ entry ∈ kernelData s.threads, 500 ≤ entry.1 → entry ∈ threadTable := by
    intro entry hmem h500
    obtain h | rfl | h | ⟨h, _⟩ | h := kernelData_cases hmem
    · omega
    · change 500 ≤ (21 : Int) at h500
      omega
    · omega
    · apply h
    · omega
  have hsub : ∀ entry ∈ threadTable, entry ∈ kernelData s.threads := by
    intro entry hmem
    simp [kernelData, hmem]
  have hentry := fun entry hmem h500 =>
    threadTable_entry entry (htable entry hmem h500) j (mem_threads hj hj')
  obtain ⟨⟨e, he, hea⟩, ⟨e', he', hea'⟩⟩ := threadTable_exists j (mem_threads hj hj')
  refine ⟨?_, ?_, ?_, ?_⟩
  · apply s.boot_cell (by unfold stateCell; omega) (by unfold stateCell; omega)
    · intro entry hmem ha
      apply (hentry entry hmem (by rw [ha, stateCell]; omega)).1 ha
    · exact .inl rfl
  · apply s.boot_cell (by unfold startCell; omega) (by unfold startCell; omega)
    · intro entry hmem ha
      apply (hentry entry hmem (by rw [ha, startCell]; omega)).2.1 ha
    · exact .inl rfl
  · apply s.boot_cell (by unfold pcCell; omega) (by unfold pcCell; omega)
    · intro entry hmem ha
      apply (hentry entry hmem (by rw [ha, pcCell]; omega)).2.2.1 ha
    · exact .inr ⟨e, hsub e he, hea⟩
  · apply s.boot_cell (by unfold spCell; omega) (by unfold spCell; omega)
    · intro entry hmem ha
      apply (hentry entry hmem (by rw [ha, spCell]; omega)).2.2.2 ha
    · exact .inr ⟨e', hsub e' he', hea'⟩

/-- A system starts in kernel mode at address 0. -/
theorem boot_fields :
  s.boot.kernelMode = true ∧ s.boot.halted = false ∧ s.boot.instructions = s.instructionMap
    ∧ s.boot.cout = []
  := by
  obtain ⟨hk, hh, hi, ho, -⟩ := CPU.setAll_fields { CPU.new with instructions := s.instructionMap }
    (kernelData s.threads ++ s.data)
  exact ⟨hk, hh, hi, ho⟩

theorem boot_registers :
  s.boot.cell 0 = 0 ∧ s.boot.cell 3 = 0
  := by
  unfold boot
  constructor
  · rw [CPU.cell_set_self]
  · rw [CPU.cell_set _ _ _ (by decide) (by decide), if_neg (by decide), CPU.cell_set_self]

theorem instructionMap_kernel {a : Int} {instr : Instruction} (h : kernelCode a = some instr) :
  s.instructionMap a = some instr
  := by
  obtain ⟨h₁, h₂⟩ := kernelCode_bounds h
  rw [instructionMap, if_pos h₂, osCode, if_neg (by omega), h]

theorem boot_loaded :
  Loaded s.boot
  := by
  intro a instr h
  rw [s.boot_fields.2.2.1, s.instructionMap_kernel h]

/-! ### The entrance of the scheduler -/

/-- The state after the jump to the scheduler. -/
def entered : CPU := (s.boot.bumped.set CPU.PC 700).advance 0

theorem boot_runs :
  Runs s.boot s.boot ⟨0, 0, s.boot.cell⟩
  := by
  have h := runs_ofCPU s.boot_fields.1 s.boot_fields.2.1
  rw [Kernel.ofCPU, s.boot_registers.1, s.boot_registers.2] at h
  apply h

theorem entered_runs :
  Runs s.boot s.entered ⟨700, 1, s.boot.cell⟩
  := ((s.boot_runs.bumped le_rfl (by change (0 : Int) < 1000; decide)).set CPU.PC 700).advance 0

theorem entered_mem {a : Int} (ha : Cell a) :
  s.entered.cell a = s.boot.cell a
  := s.entered_runs.cell_mem ha

theorem boot_step :
  s.boot.step = some s.entered
  := by
  have hpc : s.boot.cell CPU.PC = 0 := s.boot_registers.1
  have hcode : s.boot.current = some (.of .SET [700, 0]) := by
    have hpc' : s.boot.cell 0 = 0 := hpc
    rw [CPU.current, hpc', s.boot_fields.2.2.1]
    rfl
  have hin : s.boot.InSegment → sizeT s.boot.countAddr < 10000 := by
    intro h
    rw [s.boot_runs.countAddr_of_inSegment le_rfl (by change (0 : Int) < 1000; decide) h]
    decide
  have hmode : s.boot.bumped.kernelMode = true := by
    rw [CPU.bumped_kernelMode, s.boot_fields.1]
  have hvalid : s.boot.bumped.valid 0 = true :=
    (CPU.valid_iff_kernel hmode 0).mpr (by decide)
  have heff : CPU.effect s.boot.bumped.valid s.boot.bumped.cell (.of .SET [700, 0])
      = .writes [(CPU.PC, 700)] := by
    simp only [CPU.effect, Instruction.of, CPU.twoOperands, CPU.check, hvalid, if_true]
    rfl
  rw [CPU.step, CPU.step_of_current hin s.boot_fields.2.1 hcode,
    CPU.handler_run _ _ (Kernel.plain_of (by decide)), heff, hpc]
  rfl

end System

end OperatingSystem
