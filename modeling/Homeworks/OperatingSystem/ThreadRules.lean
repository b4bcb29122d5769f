import Homeworks.OperatingSystem.Completion

/-!
# Rules for the instructions of threads

`Solo.Prints k program pc m out` says that the thread `k`, at the program counter `pc` and with the
memory `m`, completes within its segment and prints `out`.  A rule takes this from after an
instruction to before it.
-/

open Simulator

namespace OperatingSystem

namespace Solo

/-- The thread completes, and prints `out`. -/
def Prints (k : Int) (program : Int → Option Instruction) (pc : Int) (m : Int → Int)
    (out : List Output) : Prop :=
  ∃ n l, Completes k program n (Function.update m CPU.PC pc) l ∧ l.flatMap Event.printed = out

/-- The instruction at `pc` and the cell `a` lie in the segment of the thread. -/
structure Local (k pc a : Int) : Prop where
  thread : 1 ≤ k
  code : InSegment k pc
  cell : InSegment k a

instance (k pc a : Int) : Decidable (Local k pc a) :=
  decidable_of_iff (1 ≤ k ∧ InSegment k pc ∧ InSegment k a)
    ⟨fun h => ⟨h.1, h.2.1, h.2.2⟩, fun h => ⟨h.1, h.2, h.3⟩⟩

variable {k pc a b v x y : Int} {program : Int → Option Instruction} {m : Int → Int}
  {instr : Instruction} {out out' : List Output}

theorem Local.ne_PC (h : Local k pc a) :
  a ≠ CPU.PC
  := by
  have hk := h.thread
  have ha := h.cell
  unfold InSegment at ha
  change a ≠ 0
  omega

/-- The contents of a cell do not depend on the program counter. -/
theorem Local.at (h : Local k pc a) :
  Function.update m CPU.PC pc a = m a
  := Function.update_of_ne h.ne_PC _ _

theorem own_of_inSegment (h : InSegment k a) :
  own k a = true
  := own_iff.mpr (.inr (.inr h))

theorem Local.other (h : Local k pc a) (hb : InSegment k b) :
  Local k pc b
  := ⟨h.thread, h.code, hb⟩

section

variable (hcode : program pc = some instr) (hpc : InSegment k pc)
  (hdata : ∀ a ∈ CPU.accesses (Function.update m CPU.PC pc) instr, InSegment k a)

include hcode hpc hdata

theorem Prints.next {m' : Int → Int} {l : List Event}
    (hresult : result k instr (Function.update m CPU.PC pc)
      = (l, some (Function.update m' CPU.PC x))) (h : Prints k program x m' out) :
  Prints k program pc m (l.flatMap Event.printed ++ out)
  := by
  obtain ⟨n, l', hcompletes, rfl⟩ := h
  refine ⟨n + 1, l ++ l', ?_, List.flatMap_append⟩
  have hself : Function.update m CPU.PC pc CPU.PC = pc := Function.update_self _ _ _
  refine Completes.next ?_ ⟨?_, hdata⟩ hresult hcompletes
  · rw [hself, hcode]
  · rw [hself]
    exact hpc

/-- An instruction that does nothing but store. -/
theorem Prints.writes (hp : CPU.Plain instr) {stores : List (Int × Int)} {m' : Int → Int}
    (he : CPU.effect (own k) (Function.update m CPU.PC pc) instr = .writes stores)
    (hm' : advance pc (storeAll (Function.update m CPU.PC pc) stores) = Function.update m' CPU.PC x)
    (h : Prints k program x m' out) :
  Prints k program pc m out
  := by
  apply Prints.next hcode hpc hdata (l := []) _ h
  obtain ⟨hH, hU, hS⟩ := hp
  unfold result
  split
  · contradiction
  · contradiction
  · contradiction
  · rw [he, Function.update_self, ← hm']

end

/-! ### Instructions that store to a cell -/

section

variable (ha : Local k pc a)

include ha

theorem advance_store :
  advance pc (storeAll (Function.update m CPU.PC pc) [(a, v)])
    = Function.update (Function.update m a v) CPU.PC (pc + 1)
  := by
  change advance pc (Function.update (Function.update m CPU.PC pc) a v) = _
  rw [Function.update_comm ha.ne_PC.symm, advance, Function.update_self, if_pos rfl,
    Function.update_idem]

theorem Prints.set (hcode : program pc = some (.of .SET [v, a]))
    (h : Prints k program (pc + 1) (Function.update m a v) out) :
  Prints k program pc m out
  := by
  apply Prints.writes hcode ha.code _ (Kernel.plain_of (by decide)) _ (advance_store ha) h
  · simp [CPU.accesses, Instruction.of, ha.cell]
  · simp [CPU.effect, Instruction.of, CPU.twoOperands, CPU.check, own_of_inSegment ha.cell]

theorem Prints.add (hcode : program pc = some (.of .ADD [a, v]))
    (h : Prints k program (pc + 1) (Function.update m a (m a + v)) out) :
  Prints k program pc m out
  := by
  apply Prints.writes hcode ha.code _ (Kernel.plain_of (by decide)) _ (advance_store ha) h
  · simp [CPU.accesses, Instruction.of, ha.cell]
  · simp [CPU.effect, Instruction.of, CPU.twoOperands, CPU.check, own_of_inSegment ha.cell, ha.at]

variable (hb : InSegment k b)

include hb

theorem Prints.cpy (hcode : program pc = some (.of .CPY [b, a]))
    (h : Prints k program (pc + 1) (Function.update m a (m b)) out) :
  Prints k program pc m out
  := by
  apply Prints.writes hcode ha.code _ (Kernel.plain_of (by decide)) _ (advance_store ha) h
  · simp [CPU.accesses, Instruction.of, ha.cell, hb]
  · simp [CPU.effect, Instruction.of, CPU.twoOperands, CPU.check, own_of_inSegment ha.cell,
      own_of_inSegment hb, (ha.other hb).at]

theorem Prints.addi (hcode : program pc = some (.of .ADDI [a, b]))
    (h : Prints k program (pc + 1) (Function.update m a (m a + m b)) out) :
  Prints k program pc m out
  := by
  apply Prints.writes hcode ha.code _ (Kernel.plain_of (by decide)) _ (advance_store ha) h
  · simp [CPU.accesses, Instruction.of, ha.cell, hb]
  · simp [CPU.effect, Instruction.of, CPU.twoOperands, CPU.check, own_of_inSegment ha.cell,
      own_of_inSegment hb, (ha.other hb).at, ha.at]

theorem Prints.subi (hcode : program pc = some (.of .SUBI [b, a]))
    (h : Prints k program (pc + 1) (Function.update m a (m b - m a)) out) :
  Prints k program pc m out
  := by
  apply Prints.writes hcode ha.code _ (Kernel.plain_of (by decide)) _ (advance_store ha) h
  · simp [CPU.accesses, Instruction.of, ha.cell, hb]
  · simp [CPU.effect, Instruction.of, CPU.twoOperands, CPU.check, own_of_inSegment ha.cell,
      own_of_inSegment hb, (ha.other hb).at, ha.at]

/-- A load through a cell. -/
theorem Prints.cpyi (hcode : program pc = some (.of .CPYI [b, a])) (hx : m b = x)
    (hx' : InSegment k x) (hv : m x = v)
    (h : Prints k program (pc + 1) (Function.update m a v) out) :
  Prints k program pc m out
  := by
  apply Prints.writes hcode ha.code _ (Kernel.plain_of (by decide)) _ (advance_store ha) h
  · simp [CPU.accesses, Instruction.of, ha.cell, hb, (ha.other hb).at, hx, hx']
  · simp [CPU.effect, Instruction.of, CPU.twoOperands, CPU.check, own_of_inSegment ha.cell,
      own_of_inSegment hb, own_of_inSegment hx', (ha.other hb).at, (ha.other hx').at, hx, hv]

/-- A store through a cell. -/
theorem Prints.cpyi2 (hcode : program pc = some (.of .CPYI2 [a, b])) (hx : m a = x)
    (hx' : InSegment k x) (hy : m b = y) (hy' : InSegment k y) (hv : m x = v)
    (h : Prints k program (pc + 1) (Function.update m y v) out) :
  Prints k program pc m out
  := by
  apply Prints.writes hcode ha.code _ (Kernel.plain_of (by decide)) _ (advance_store (ha.other hy'))
    h
  · simp [CPU.accesses, Instruction.of, ha.cell, hb, (ha.other hb).at, ha.at, hx, hx', hy, hy']
  · simp [CPU.effect, Instruction.of, CPU.twoOperands, CPU.check, own_of_inSegment ha.cell,
      own_of_inSegment hb, own_of_inSegment hx', own_of_inSegment hy', (ha.other hb).at, ha.at,
      (ha.other hx').at, hx, hy, hv]

end

/-! ### Jumps and system calls -/

section

variable (ha : Local k pc a)

include ha

/-- A jump that is taken. -/
theorem Prints.jif (hcode : program pc = some (.of .JIF [a, x])) (hne : pc ≠ x) (hle : m a ≤ 0)
    (h : Prints k program x m out) :
  Prints k program pc m out
  := by
  have he : CPU.effect (own k) (Function.update m CPU.PC pc) (.of .JIF [a, x])
      = .writes [(CPU.PC, x)] := by
    simp [CPU.effect, Instruction.of, CPU.twoOperands, CPU.check, own_of_inSegment ha.cell, ha.at,
      hle]
  refine Prints.writes hcode ha.code ?_ (Kernel.plain_of (by decide)) he ?_ h
  · simp [CPU.accesses, Instruction.of, ha.cell]
  · change advance pc (Function.update (Function.update m CPU.PC pc) CPU.PC x) = _
    rw [Function.update_idem, advance, Function.update_self, if_neg hne]

/-- A jump that is not taken. -/
theorem Prints.jifNot (hcode : program pc = some (.of .JIF [a, x])) (hlt : 0 < m a)
    (h : Prints k program (pc + 1) m out) :
  Prints k program pc m out
  := by
  have he : CPU.effect (own k) (Function.update m CPU.PC pc) (.of .JIF [a, x]) = .writes [] := by
    simp [CPU.effect, Instruction.of, CPU.twoOperands, CPU.check, own_of_inSegment ha.cell, ha.at,
      Int.not_le.mpr hlt]
  refine Prints.writes hcode ha.code ?_ (Kernel.plain_of (by decide)) he ?_ h
  · simp [CPU.accesses, Instruction.of, ha.cell]
  · change advance pc (Function.update m CPU.PC pc) = _
    rw [advance, Function.update_self, if_pos rfl, Function.update_idem]

/-- What `SYSCALL PRN` prints. -/
def report (k a v : Int) : List Output :=
  [.text "Thread ", .number k, .text ": Adress: ", .number a, .text " :", .number v, endl]

theorem Prints.prn (hcode : program pc = some (.syscall .PRN [a])) (hv : m a = v)
    (h : Prints k program (pc + 1) m out) :
  Prints k program pc m (report k a v ++ out)
  := by
  have hresult := @result_print k a (.syscall .PRN [a]) rfl rfl rfl
    (Function.update m CPU.PC pc)
  rw [Function.update_self, Function.update_idem, ha.at, hv] at hresult
  have hnext := Prints.next hcode ha.code (by simp [CPU.accesses, Instruction.syscall, ha.cell])
    hresult h
  simp only [List.flatMap_cons, List.flatMap_nil, List.append_nil] at hnext
  exact hnext

end

theorem Prints.yield (hpc : InSegment k pc) (hcode : program pc = some (.syscall .YIELD []))
    (h : Prints k program (pc + 1) m out) :
  Prints k program pc m out
  := by
  have hresult := @result_yield k (.syscall .YIELD []) rfl rfl
    (Function.update m CPU.PC pc)
  rw [Function.update_self, Function.update_idem] at hresult
  have hnext := Prints.next hcode hpc (by simp [CPU.accesses, Instruction.syscall]) hresult h
  simp only [List.flatMap_cons, List.flatMap_nil, List.append_nil, List.nil_append] at hnext
  exact hnext

theorem Prints.halt (hpc : InSegment k pc) (hcode : program pc = some (.syscall .HLT [])) :
  Prints k program pc m []
  := by
  have hself : Function.update m CPU.PC pc CPU.PC = pc := Function.update_self _ _ _
  have hcurrent : program (Function.update m CPU.PC pc CPU.PC) = some (.syscall .HLT []) := by
    rw [hself, hcode]
  refine ⟨1, _, .halt hcurrent ?_ rfl rfl, rfl⟩
  rw [hself]
  exact hpc

/-- What is needed of the memory from some point on. -/
theorem Prints.weaken {P : (Int → Int) → Prop} (hm : P m)
    (h : ∀ m', P m' → Prints k program pc m' out) :
  Prints k program pc m out
  := h m hm

/-! ### In a system -/

theorem Completes.congr {program' : Int → Option Instruction} {n : ℕ} {l : List Event}
    (hprogram : ∀ a, InSegment k a → program' a = program a) (h : Completes k program n m l) :
  Completes k program' n m l
  := by
  induction h with
  | halt current code type call =>
      apply Completes.halt _ code type call
      rw [hprogram _ code, current]
  | next current within result _ ih =>
      apply Completes.next _ within result ih
      rw [hprogram _ within.code, current]

end Solo

end OperatingSystem
