import Homeworks.Simulator.Cpu
import Mathlib.Data.List.Basic

/-!
# What the instructions do

Each handler is summarised by its effect: an exception before anything is changed, an
access violation, or a list of stores.  The effect of an instruction depends on the state
only through the validity of addresses and the contents of cells.
-/

namespace Simulator

namespace CPU

/-! ### Views and updates of the state -/

/-- The contents of the cell at an address. -/
def cell (c : CPU) (a : Int) : Int := c.memory.data (sizeT a)

/-- The state after a store. -/
def set (c : CPU) (a v : Int) : CPU :=
  { c with memory := ⟨Function.update c.memory.data (sizeT a) v⟩ }

/-- Whether an address may be accessed in the current mode. -/
def valid (c : CPU) (a : Int) : Bool := Memory.isAddressValid (sizeT a) c.kernelMode

/-- The state halted with a message. -/
def halting (c : CPU) (message : List Output) : CPU :=
  { c with halted := true, cerr := c.cerr ++ (message ++ [endl]) }

section

variable (c : CPU) (a b v : Int)

@[simp] theorem cell_set_self : (c.set a v).cell a = v := by simp [cell, set]

/-- Reading a cell of memory after a store. -/
theorem cell_set {a : Int} (ha : 0 ≤ a) (ha' : a < 10000) :
  (c.set b v).cell a = if a = b then v else c.cell a
  := by
  have h : sizeT a = sizeT b ↔ a = b := by
    rw [eq_comm, sizeT_inj ha ha', eq_comm]
  simp only [cell, set, Function.update_apply, h]

@[simp] theorem set_instructions : (c.set a v).instructions = c.instructions := rfl
@[simp] theorem set_halted : (c.set a v).halted = c.halted := rfl
@[simp] theorem set_kernelMode : (c.set a v).kernelMode = c.kernelMode := rfl
@[simp] theorem set_cout : (c.set a v).cout = c.cout := rfl
@[simp] theorem set_cerr : (c.set a v).cerr = c.cerr := rfl

@[simp] theorem cell_halting (m : List Output) : (c.halting m).cell a = c.cell a := rfl
@[simp] theorem halting_halted (m : List Output) : (c.halting m).halted = true := rfl
@[simp] theorem halting_kernelMode (m : List Output) :
  (c.halting m).kernelMode = c.kernelMode := rfl

end

theorem sizeT_PC : sizeT PC < 10000 := by decide

theorem sizeT_SP : sizeT SP < 10000 := by decide

theorem valid_iff_kernel {c : CPU} (h : c.kernelMode = true) (a : Int) :
  c.valid a = true ↔ 0 ≤ a ∧ a < 10000
  := by
  rw [valid, h, isAddressValid_kernel]

theorem valid_iff_user {c : CPU} (h : c.kernelMode = false) (a : Int) :
  c.valid a = true ↔ 0 ≤ a ∧ (a ≤ 20 ∨ 1000 ≤ a) ∧ a < 10000
  := by
  rw [valid, h, isAddressValid_user]

theorem valid_lt {c : CPU} {a : Int} (h : c.valid a = true) :
  sizeT a < 10000
  := by
  rw [sizeT_lt_iff]
  cases hk : c.kernelMode with
  | false =>
      rw [valid_iff_user hk] at h
      omega
  | true => apply (valid_iff_kernel hk a).mp h

/-- The program counter is accessible in both modes. -/
theorem valid_PC (c : CPU) :
  c.valid PC = true
  := by
  cases h : c.kernelMode with
  | false =>
      rw [valid_iff_user h]
      decide
  | true =>
      rw [valid_iff_kernel h]
      decide

/-- The stack pointer is accessible in both modes. -/
theorem valid_SP (c : CPU) :
  c.valid SP = true
  := by
  cases h : c.kernelMode with
  | false =>
      rw [valid_iff_user h]
      decide
  | true =>
      rw [valid_iff_kernel h]
      decide

/-! ### The primitive actions -/

theorem read_run {c : CPU} {a : Int} (h : sizeT a < 10000) :
  (read a).run c = .ok (c.cell a) c
  := by
  have h' : ¬ sizeT a ≥ Memory.size := by simpa [Memory.size] using h
  simp only [read, EStateM.run_bind, EStateM.run_get, Memory.read, h', if_false]
  rfl

theorem read_run_error {c : CPU} {a : Int} (h : 10000 ≤ sizeT a) :
  (read a).run c = .error (.exception Memory.outOfBounds) c
  := by
  have h' : sizeT a ≥ Memory.size := by simpa [Memory.size] using h
  simp only [read, EStateM.run_bind, EStateM.run_get, Memory.read, h', if_true]
  rfl

theorem write_run {c : CPU} {a v : Int} (h : sizeT a < 10000) :
  (write a v).run c = .ok () (c.set a v)
  := by
  have h' : ¬ sizeT a ≥ Memory.size := by simpa [Memory.size] using h
  simp only [write, EStateM.run_bind, EStateM.run_get, Memory.write, h', if_false]
  rfl

theorem write_run_error {c : CPU} {a v : Int} (h : 10000 ≤ sizeT a) :
  (write a v).run c = .error (.exception Memory.outOfBounds) c
  := by
  have h' : sizeT a ≥ Memory.size := by simpa [Memory.size] using h
  simp only [write, EStateM.run_bind, EStateM.run_get, Memory.write, h', if_true]
  rfl

theorem isAddressValid_run (c : CPU) (a : Int) :
  (isAddressValid a).run c = .ok (c.valid a) c
  := rfl

theorem operand_run {c : CPU} {instr : Instruction} {i : Nat} {v : Int}
    (h : instr.operands[i]? = some v) :
  (operand instr i).run c = .ok v c
  := by
  simp only [operand, h]
  rfl

/-! ### Effects -/

/-- What an instruction does. -/
inductive Effect where
  /-- an exception is thrown -/
  | throws (what : String)
  /-- an address is not accessible: the CPU is halted with a message -/
  | violation (message : List Output)
  /-- values are stored, in this order -/
  | writes (stores : List (Int × Int))

/-- The states after stores. -/
def setAll (c : CPU) (stores : List (Int × Int)) : CPU :=
  stores.foldl (fun c store => c.set store.1 store.2) c

@[simp] theorem setAll_nil (c : CPU) : c.setAll [] = c := rfl

@[simp] theorem setAll_cons (c : CPU) (store : Int × Int) (stores : List (Int × Int)) :
  c.setAll (store :: stores) = (c.set store.1 store.2).setAll stores
  := rfl

/-- Stores change neither the mode, the instructions nor the console. -/
theorem setAll_fields (c : CPU) (stores : List (Int × Int)) :
  (c.setAll stores).kernelMode = c.kernelMode ∧ (c.setAll stores).halted = c.halted
    ∧ (c.setAll stores).instructions = c.instructions ∧ (c.setAll stores).cout = c.cout
    ∧ (c.setAll stores).cerr = c.cerr
  := by
  induction stores generalizing c with
  | nil => simp
  | cons store stores ih => apply ih (c.set store.1 store.2)

/-- A cell to which nothing is stored keeps its contents. -/
theorem cell_setAll (c : CPU) {a : Int} (ha : 0 ≤ a) (ha' : a < 10000)
    (stores : List (Int × Int)) (h : ∀ store ∈ stores, store.1 ≠ a) :
  (c.setAll stores).cell a = c.cell a
  := by
  induction stores generalizing c with
  | nil => rfl
  | cons store stores ih =>
      rw [setAll_cons, ih _ fun s hs => h s (List.mem_cons_of_mem _ hs), cell_set _ _ _ ha ha',
        if_neg]
      apply Ne.symm (h store List.mem_cons_self)

/-- The result of an effect. -/
def Effect.result (c : CPU) : Effect → EStateM.Result Stop CPU Unit
  | .throws what => .error (.exception what) c
  | .violation message => .ok () (c.halting message)
  | .writes stores => .ok () (c.setAll stores)

/-- The effect of an instruction with two operands. -/
def twoOperands (what : String) (ops : List Int) (e : Int → Int → Effect) : Effect :=
  match ops with
  | [x, y] => e x y
  | _ => .throws what

/-- The effect of an instruction with one operand. -/
def oneOperand (what : String) (ops : List Int) (e : Int → Effect) : Effect :=
  match ops with
  | [x] => e x
  | _ => .throws what

/-- The effect `e` behind an address check. -/
def check (accessible : Bool) (message : List Output) (e : Effect) : Effect :=
  if accessible then e else .violation message

/-- The effect of an instruction other than `HLT`, `USER` and `SYSCALL`, given which
addresses are valid and what the cells contain. -/
def effect (valid : Int → Bool) (cell : Int → Int) (instr : Instruction) : Effect :=
  match instr.type with
  | .SET =>
      twoOperands "SET instruction requires 2 operands" instr.operands fun value address =>
        check (valid address)
          [.text "Access violation: Address ", .number address,
            .text " not accessible in current mode"]
          (.writes [(address, value)])
  | .CPY =>
      twoOperands "CPY instruction requires 2 operands" instr.operands fun src dest =>
        check (valid src && valid dest)
          [.text "Access violation: Memory address not accessible in current mode"]
          (.writes [(dest, cell src)])
  | .CPYI =>
      twoOperands "CPYI instruction requires 2 operands" instr.operands fun indirect dest =>
        check (valid indirect && valid dest)
          [.text "Access violation: Memory address not accessible in current mode"]
          (check (valid (cell indirect))
            [.text "Access violation: Indirect memory address not accessible in current mode"]
            (.writes [(dest, cell (cell indirect))]))
  | .CPYI2 =>
      twoOperands "CPYI2 instruction requires 2 operands" instr.operands fun a1 a2 =>
        check (valid a1 && valid a2)
          [.text "Access violation: Memory address not accessible in current mode"]
          (check (valid (cell a1) && valid (cell a2))
            [.text "Access violation: Indirect memory address not accessible in current mode"]
            (.writes [(cell a2, cell (cell a1))]))
  | .ADD =>
      twoOperands "ADD instruction requires 2 operands" instr.operands fun address value =>
        check (valid address) [.text "Access violation: Address not accessible in current mode"]
          (.writes [(address, cell address + value)])
  | .ADDI =>
      twoOperands "ADDI instruction requires 2 operands" instr.operands fun dest src =>
        check (valid dest && valid src)
          [.text "Access violation: Address not accessible in current mode"]
          (.writes [(dest, cell dest + cell src)])
  | .SUBI =>
      twoOperands "SUBI instruction requires 2 operands" instr.operands fun src dest =>
        check (valid src && valid dest)
          [.text "Access violation: Address not accessible in current mode"]
          (.writes [(dest, cell src - cell dest)])
  | .JIF =>
      twoOperands "JIF instruction requires 2 operands" instr.operands fun mem jump =>
        check (valid mem) [.text "Access violation: Address not accessible in current mode"]
          (.writes (if cell mem ≤ 0 then [(PC, jump)] else []))
  | .PUSH =>
      oneOperand "PUSH instruction requires 1 operand" instr.operands fun address =>
        check (valid address) [.text "Access violation: Address not accessible in current mode"]
          (check (valid (cell SP - 1)) [.text "Stack overflow"]
            (.writes [(cell SP - 1, cell address), (SP, cell SP - 1)]))
  | .POP =>
      oneOperand "POP instruction requires 1 operand" instr.operands fun address =>
        check (valid address) [.text "Access violation: Address not accessible in current mode"]
          (check (valid (cell SP)) [.text "Stack underflow"]
            (.writes [(address, cell (cell SP)), (SP, cell SP + 1)]))
  | .CALL =>
      oneOperand "CALL instruction requires 1 operand" instr.operands fun jump =>
        check (valid (cell SP - 1)) [.text "Stack overflow"]
          (.writes [(cell SP - 1, cell PC + 1), (SP, cell SP - 1), (PC, jump)])
  | .RET =>
      check (valid (cell SP)) [.text "Stack underflow"]
        (.writes [(PC, cell (cell SP)), (SP, cell SP + 1)])
  | .HLT | .USER | .SYSCALL => .writes []

/-- The instructions that are summarised by `effect`. -/
def Plain (instr : Instruction) : Prop :=
  instr.type ≠ .HLT ∧ instr.type ≠ .USER ∧ instr.type ≠ .SYSCALL

instance (instr : Instruction) : Decidable (Plain instr) := by
  unfold Plain
  infer_instance

/-! ### Properties of effects -/

/-- If the effect is a list of stores, the list satisfies `p`. -/
def Effect.Writes (p : List (Int × Int) → Prop) : Effect → Prop
  | .writes stores => p stores
  | _ => True

/-- The stores of an effect go to addresses satisfying `p`. -/
def Effect.StoresIn (p : Int → Prop) : Effect → Prop :=
  Effect.Writes fun stores => ∀ store ∈ stores, p store.1

theorem Effect.Writes.mono {p q : List (Int × Int) → Prop} {e : Effect} (h : e.Writes p)
    (hpq : ∀ stores, p stores → q stores) :
  e.Writes q
  := by
  cases e with
  | throws | violation => trivial
  | writes stores => apply hpq _ h

theorem twoOperands_writes {p : List (Int × Int) → Prop} {what : String} {ops : List Int}
    {e : Int → Int → Effect} (h : ∀ x y, ops = [x, y] → (e x y).Writes p) :
  (twoOperands what ops e).Writes p
  := by
  unfold twoOperands
  split
  · apply h _ _ rfl
  · trivial

theorem oneOperand_writes {p : List (Int × Int) → Prop} {what : String} {ops : List Int}
    {e : Int → Effect} (h : ∀ x, ops = [x] → (e x).Writes p) :
  (oneOperand what ops e).Writes p
  := by
  unfold oneOperand
  split
  · apply h _ rfl
  · trivial

theorem check_writes {p : List (Int × Int) → Prop} {b : Bool} {message : List Output}
    {e : Effect} (h : b = true → e.Writes p) :
  (check b message e).Writes p
  := by
  cases b with
  | false => trivial
  | true => apply h rfl

/-- An instruction stores to valid addresses only. -/
theorem effect_storesIn (valid : Int → Bool) (cell : Int → Int) (instr : Instruction)
    (hPC : valid PC = true) (hSP : valid SP = true) :
  (effect valid cell instr).StoresIn (fun a => valid a = true)
  := by
  cases ht : instr.type with
  | SET | CPY | ADD =>
      simp only [effect, ht]
      apply twoOperands_writes
      intro x y _
      apply check_writes
      simp [Effect.Writes]
  | ADDI | SUBI =>
      simp only [effect, ht]
      apply twoOperands_writes
      intro x y _
      apply check_writes
      simp +contextual [Effect.Writes]
  | JIF =>
      simp only [effect, ht]
      apply twoOperands_writes
      intro mem jump _
      apply check_writes
      intro _
      split
      · simpa [Effect.Writes] using hPC
      · simp [Effect.Writes]
  | CPYI | CPYI2 =>
      simp only [effect, ht]
      apply twoOperands_writes
      intro x y _
      apply check_writes
      intro hv
      apply check_writes
      simp_all [Effect.Writes]
  | PUSH | POP =>
      simp only [effect, ht]
      apply oneOperand_writes
      intro address _
      apply check_writes
      intro hv
      apply check_writes
      simp_all [Effect.Writes]
  | CALL =>
      simp only [effect, ht]
      apply oneOperand_writes
      intro jump _
      apply check_writes
      simp_all [Effect.Writes]
  | RET =>
      simp only [effect, ht]
      apply check_writes
      simp_all [Effect.Writes]
  | HLT | USER | SYSCALL => simp [effect, ht, Effect.StoresIn, Effect.Writes]

theorem check_congr {b : Bool} {message : List Output} {e e' : Effect}
    (h : b = true → e = e') :
  check b message e = check b message e'
  := by
  cases b with
  | false => rfl
  | true => apply h rfl

/-- The effect of an instruction depends on the contents of valid addresses only. -/
theorem effect_congr {valid : Int → Bool} {cell cell' : Int → Int} (instr : Instruction)
    (hPC : valid PC = true) (hSP : valid SP = true)
    (h : ∀ a, valid a = true → cell a = cell' a) :
  effect valid cell instr = effect valid cell' instr
  := by
  cases ht : instr.type with
  | SET | HLT | USER | SYSCALL => simp [effect, ht]
  | ADD | JIF =>
      simp only [effect, ht]
      congr 1
      funext x y
      apply check_congr
      intro hx
      rw [h x hx]
  | CPY =>
      simp only [effect, ht]
      congr 1
      funext src dest
      apply check_congr
      intro hv
      rw [Bool.and_eq_true] at hv
      rw [h src hv.1]
  | ADDI | SUBI =>
      simp only [effect, ht]
      congr 1
      funext x y
      apply check_congr
      intro hv
      rw [Bool.and_eq_true] at hv
      rw [h x hv.1, h y hv.2]
  | CPYI =>
      simp only [effect, ht]
      congr 1
      funext indirect dest
      apply check_congr
      intro hv
      rw [Bool.and_eq_true] at hv
      rw [← h indirect hv.1]
      apply check_congr
      intro hs
      rw [h _ hs]
  | CPYI2 =>
      simp only [effect, ht]
      congr 1
      funext a1 a2
      apply check_congr
      intro hv
      rw [Bool.and_eq_true] at hv
      rw [← h a1 hv.1, ← h a2 hv.2]
      apply check_congr
      intro hs
      rw [Bool.and_eq_true] at hs
      rw [h _ hs.1]
  | PUSH =>
      simp only [effect, ht, ← h SP hSP]
      congr 1
      funext address
      apply check_congr
      intro hv
      rw [h address hv]
  | POP =>
      simp only [effect, ht, ← h SP hSP]
      congr 1
      funext address
      apply check_congr
      intro _
      apply check_congr
      intro hs
      rw [h _ hs]
  | CALL => simp only [effect, ht, ← h SP hSP, ← h PC hPC]
  | RET =>
      simp only [effect, ht, ← h SP hSP]
      apply check_congr
      intro hs
      rw [h _ hs]

theorem twoOperands_eq_writes {what : String} {ops : List Int} {e : Int → Int → Effect}
    {stores : List (Int × Int)} :
  twoOperands what ops e = .writes stores ↔ ∃ x y, ops = [x, y] ∧ e x y = .writes stores
  := by
  constructor
  · intro h
    unfold twoOperands at h
    split at h
    · exact ⟨_, _, rfl, h⟩
    · cases h
  · rintro ⟨x, y, rfl, h⟩
    apply h

theorem oneOperand_eq_writes {what : String} {ops : List Int} {e : Int → Effect}
    {stores : List (Int × Int)} :
  oneOperand what ops e = .writes stores ↔ ∃ x, ops = [x] ∧ e x = .writes stores
  := by
  constructor
  · intro h
    unfold oneOperand at h
    split at h
    · exact ⟨_, rfl, h⟩
    · cases h
  · rintro ⟨x, rfl, h⟩
    apply h

theorem check_eq_writes {b : Bool} {message : List Output} {e : Effect}
    {stores : List (Int × Int)} :
  check b message e = .writes stores ↔ b = true ∧ e = .writes stores
  := by
  cases b <;> simp [check]

/-- An instruction that stores where fewer addresses are valid stores the same where more
are. -/
theorem effect_mono {valid valid' : Int → Bool} {cell : Int → Int} {instr : Instruction}
    {stores : List (Int × Int)} (hv : ∀ a, valid a = true → valid' a = true)
    (h : effect valid cell instr = .writes stores) :
  effect valid' cell instr = .writes stores
  := by
  cases ht : instr.type with
  | SET | CPY | ADD | ADDI | SUBI | JIF =>
      simp only [effect, ht, twoOperands_eq_writes, check_eq_writes, Bool.and_eq_true] at h ⊢
      obtain ⟨x, y, ho, hc, hs⟩ := h
      simp_all
  | CPYI | CPYI2 =>
      simp only [effect, ht, twoOperands_eq_writes, check_eq_writes, Bool.and_eq_true] at h ⊢
      obtain ⟨x, y, ho, hc, hc', hs⟩ := h
      simp_all
  | PUSH | POP =>
      simp only [effect, ht, oneOperand_eq_writes, check_eq_writes] at h ⊢
      obtain ⟨x, ho, hc, hc', hs⟩ := h
      exact ⟨x, ho, hv _ hc, hv _ hc', hs⟩
  | CALL =>
      simp only [effect, ht, oneOperand_eq_writes, check_eq_writes] at h ⊢
      obtain ⟨x, ho, hc, hs⟩ := h
      exact ⟨x, ho, hv _ hc, hs⟩
  | RET =>
      simp only [effect, ht, check_eq_writes] at h ⊢
      exact ⟨hv _ h.1, h.2⟩
  | HLT | USER | SYSCALL => simpa [effect, ht] using h

/-- The stores of an instruction are determined by the cells of a set of addresses within
which it stays. -/
theorem effect_of_agree {valid valid' : Int → Bool} {cell cell' : Int → Int}
    {instr : Instruction} {stores : List (Int × Int)}
    (hPC : valid PC = true) (hSP : valid SP = true)
    (h : ∀ a, valid a = true → valid' a = true ∧ cell a = cell' a)
    (he : effect valid cell instr = .writes stores) :
  effect valid' cell' instr = .writes stores
  := by
  apply effect_mono (fun a ha => (h a ha).1)
  rw [← effect_congr instr hPC hSP fun a ha => (h a ha).2, he]

/-! ### The handlers have their effects -/

/-- An action on two operands has the effect on two operands. -/
theorem twoOperands_run {c : CPU} {instr : Instruction} {what : String}
    {k : Int → Int → Exec Unit} {e : Int → Int → Effect}
    (h : ∀ x y, (k x y).run c = (e x y).result c) :
  (do
    if instr.operands.length ≠ 2 then
      throw (Stop.exception what)
    let x ← operand instr 0
    let y ← operand instr 1
    k x y : Exec Unit).run c = (twoOperands what instr.operands e).result c
  := by
  obtain ⟨t, st, ops⟩ := instr
  match ops with
  | [] | [_] | _ :: _ :: _ :: _ => rfl
  | [x, y] => apply h x y

/-- An action on one operand has the effect on one operand. -/
theorem oneOperand_run {c : CPU} {instr : Instruction} {what : String}
    {k : Int → Exec Unit} {e : Int → Effect} (h : ∀ x, (k x).run c = (e x).result c) :
  (do
    if instr.operands.length ≠ 1 then
      throw (Stop.exception what)
    let x ← operand instr 0
    k x : Exec Unit).run c = (oneOperand what instr.operands e).result c
  := by
  obtain ⟨t, st, ops⟩ := instr
  match ops with
  | [] | _ :: _ :: _ => rfl
  | [x] => apply h x

/-- An action behind an address check has the effect behind that check. -/
theorem guarded_run {c : CPU} {b : Bool} {message : List Output} {k : Exec Unit} {e : Effect}
    (h : b = true → k.run c = e.result c) :
  (if !b then halt message else k).run c = (check b message e).result c
  := by
  cases b with
  | false => rfl
  | true => apply h rfl

theorem executeSET_run (c : CPU) (instr : Instruction) (h : instr.type = .SET) :
  (executeSET instr).run c = (effect c.valid c.cell instr).result c
  := by
  simp only [effect, h]
  apply twoOperands_run
  intro value address
  simp only [EStateM.run_bind, isAddressValid_run]
  apply guarded_run
  intro hv
  apply write_run (valid_lt hv)

theorem executeCPY_run (c : CPU) (instr : Instruction) (h : instr.type = .CPY) :
  (executeCPY instr).run c = (effect c.valid c.cell instr).result c
  := by
  simp only [effect, h]
  apply twoOperands_run
  intro src dest
  simp only [EStateM.run_bind, isAddressValid_run, ← Bool.not_and]
  apply guarded_run
  intro hv
  rw [Bool.and_eq_true] at hv
  simp only [EStateM.run_bind, read_run (valid_lt hv.1)]
  apply write_run (valid_lt hv.2)

theorem executeCPYI_run (c : CPU) (instr : Instruction) (h : instr.type = .CPYI) :
  (executeCPYI instr).run c = (effect c.valid c.cell instr).result c
  := by
  simp only [effect, h]
  apply twoOperands_run
  intro indirect dest
  simp only [EStateM.run_bind, isAddressValid_run, ← Bool.not_and]
  apply guarded_run
  intro hv
  rw [Bool.and_eq_true] at hv
  simp only [EStateM.run_bind, isAddressValid_run, read_run (valid_lt hv.1)]
  apply guarded_run
  intro hs
  simp only [EStateM.run_bind, read_run (valid_lt hs)]
  apply write_run (valid_lt hv.2)

theorem executeCPYI2_run (c : CPU) (instr : Instruction) (h : instr.type = .CPYI2) :
  (executeCPYI2 instr).run c = (effect c.valid c.cell instr).result c
  := by
  simp only [effect, h]
  apply twoOperands_run
  intro a1 a2
  simp only [EStateM.run_bind, isAddressValid_run, ← Bool.not_and]
  apply guarded_run
  intro hv
  rw [Bool.and_eq_true] at hv
  simp only [EStateM.run_bind, isAddressValid_run, read_run (valid_lt hv.1),
    read_run (valid_lt hv.2)]
  apply guarded_run
  intro hi
  rw [Bool.and_eq_true] at hi
  simp only [EStateM.run_bind, read_run (valid_lt hi.1)]
  apply write_run (valid_lt hi.2)

theorem executeADD_run (c : CPU) (instr : Instruction) (h : instr.type = .ADD) :
  (executeADD instr).run c = (effect c.valid c.cell instr).result c
  := by
  simp only [effect, h]
  apply twoOperands_run
  intro address value
  simp only [EStateM.run_bind, isAddressValid_run]
  apply guarded_run
  intro hv
  simp only [EStateM.run_bind, read_run (valid_lt hv)]
  apply write_run (valid_lt hv)

theorem executeADDI_run (c : CPU) (instr : Instruction) (h : instr.type = .ADDI) :
  (executeADDI instr).run c = (effect c.valid c.cell instr).result c
  := by
  simp only [effect, h]
  apply twoOperands_run
  intro dest src
  simp only [EStateM.run_bind, isAddressValid_run, ← Bool.not_and]
  apply guarded_run
  intro hv
  rw [Bool.and_eq_true] at hv
  simp only [EStateM.run_bind, read_run (valid_lt hv.1), read_run (valid_lt hv.2)]
  apply write_run (valid_lt hv.1)

theorem executeSUBI_run (c : CPU) (instr : Instruction) (h : instr.type = .SUBI) :
  (executeSUBI instr).run c = (effect c.valid c.cell instr).result c
  := by
  simp only [effect, h]
  apply twoOperands_run
  intro src dest
  simp only [EStateM.run_bind, isAddressValid_run, ← Bool.not_and]
  apply guarded_run
  intro hv
  rw [Bool.and_eq_true] at hv
  simp only [EStateM.run_bind, read_run (valid_lt hv.1), read_run (valid_lt hv.2)]
  apply write_run (valid_lt hv.2)

theorem executeJIF_run (c : CPU) (instr : Instruction) (h : instr.type = .JIF) :
  (executeJIF instr).run c = (effect c.valid c.cell instr).result c
  := by
  simp only [effect, h]
  apply twoOperands_run
  intro mem jump
  simp only [EStateM.run_bind, isAddressValid_run]
  apply guarded_run
  intro hv
  simp only [EStateM.run_bind, read_run (valid_lt hv)]
  split
  · apply write_run sizeT_PC
  · rfl

theorem executePUSH_run (c : CPU) (instr : Instruction) (h : instr.type = .PUSH) :
  (executePUSH instr).run c = (effect c.valid c.cell instr).result c
  := by
  simp only [effect, h]
  apply oneOperand_run
  intro address
  simp only [EStateM.run_bind, isAddressValid_run]
  apply guarded_run
  intro hv
  simp only [EStateM.run_bind, isAddressValid_run, read_run (valid_lt hv), read_run sizeT_SP]
  apply guarded_run
  intro hs
  simp only [EStateM.run_bind, write_run (valid_lt hs)]
  apply write_run sizeT_SP

theorem executePOP_run (c : CPU) (instr : Instruction) (h : instr.type = .POP) :
  (executePOP instr).run c = (effect c.valid c.cell instr).result c
  := by
  simp only [effect, h]
  apply oneOperand_run
  intro address
  simp only [EStateM.run_bind, isAddressValid_run]
  apply guarded_run
  intro hv
  simp only [EStateM.run_bind, isAddressValid_run, read_run sizeT_SP]
  apply guarded_run
  intro hs
  simp only [EStateM.run_bind, read_run (valid_lt hs), write_run (valid_lt hv)]
  apply write_run sizeT_SP

theorem executeCALL_run (c : CPU) (instr : Instruction) (h : instr.type = .CALL) :
  (executeCALL instr).run c = (effect c.valid c.cell instr).result c
  := by
  simp only [effect, h]
  apply oneOperand_run
  intro jump
  simp only [EStateM.run_bind, isAddressValid_run, read_run sizeT_PC, read_run sizeT_SP]
  apply guarded_run
  intro hs
  simp only [EStateM.run_bind, write_run (valid_lt hs), write_run sizeT_SP]
  apply write_run sizeT_PC

theorem executeRET_run (c : CPU) (instr : Instruction) (h : instr.type = .RET) :
  (executeRET instr).run c = (effect c.valid c.cell instr).result c
  := by
  simp only [effect, h, executeRET, EStateM.run_bind, isAddressValid_run, read_run sizeT_SP]
  apply guarded_run
  intro hs
  simp only [EStateM.run_bind, read_run (valid_lt hs), write_run sizeT_PC]
  apply write_run sizeT_SP

/-- The handler of a plain instruction has the effect of the instruction. -/
theorem handler_run (c : CPU) (instr : Instruction) (h : Plain instr) :
  (instructionHandlers instr.type instr).run c = (effect c.valid c.cell instr).result c
  := by
  obtain ⟨hHLT, hUSER, hSYSCALL⟩ := h
  cases ht : instr.type with
  | SET => apply executeSET_run c instr ht
  | CPY => apply executeCPY_run c instr ht
  | CPYI => apply executeCPYI_run c instr ht
  | CPYI2 => apply executeCPYI2_run c instr ht
  | ADD => apply executeADD_run c instr ht
  | ADDI => apply executeADDI_run c instr ht
  | SUBI => apply executeSUBI_run c instr ht
  | JIF => apply executeJIF_run c instr ht
  | PUSH => apply executePUSH_run c instr ht
  | POP => apply executePOP_run c instr ht
  | CALL => apply executeCALL_run c instr ht
  | RET => apply executeRET_run c instr ht
  | HLT => cases hHLT ht
  | USER => cases hUSER ht
  | SYSCALL => cases hSYSCALL ht

end CPU
end Simulator

/-! ### The accesses of an instruction

The addresses that an instruction accesses, and how its effect depends on their validity.
-/

namespace Simulator

namespace CPU

/-- The addresses that an instruction accesses other than implicitly: its data operands,
the indirect addresses, and where it accesses the stack. -/
def accesses (cell : Int → Int) (instr : Instruction) : List Int :=
  match instr.type, instr.operands with
  | .SET, [_, address] => [address]
  | .CPY, [src, dest] => [src, dest]
  | .CPYI, [indirect, dest] => [indirect, dest, cell indirect]
  | .CPYI2, [a1, a2] => [a1, a2, cell a1, cell a2]
  | .ADD, [address, _] => [address]
  | .ADDI, [dest, src] => [dest, src]
  | .SUBI, [src, dest] => [src, dest]
  | .JIF, [mem, _] => [mem]
  | .PUSH, [address] => [address, cell SP - 1]
  | .POP, [address] => [address, cell SP]
  | .CALL, [_] => [cell SP - 1]
  | .RET, _ => [cell SP]
  | .USER, [a] => [a]
  | .SYSCALL, a :: _ => if instr.syscallType = some .PRN then [a] else []
  | _, _ => []

/-- Where an instruction accesses memory depends on the stack pointer and on the cells that it
accesses. -/
theorem accesses_congr {cell cell' : Int → Int} {instr : Instruction} (hsp : cell SP = cell' SP)
    (h : ∀ a ∈ accesses cell' instr, cell a = cell' a) :
  accesses cell instr = accesses cell' instr
  := by
  unfold accesses at h ⊢
  split at h
  case h_3 | h_4 =>
    simp only [List.mem_cons, forall_eq_or_imp] at h
    simp [*]
  all_goals simp only [hsp]

theorem twoOperands_congr {what : String} {ops : List Int} {e e' : Int → Int → Effect}
    (h : ∀ x y, ops = [x, y] → e x y = e' x y) :
  twoOperands what ops e = twoOperands what ops e'
  := by
  unfold twoOperands
  split
  · apply h _ _ rfl
  · rfl

theorem oneOperand_congr {what : String} {ops : List Int} {e e' : Int → Effect}
    (h : ∀ x, ops = [x] → e x = e' x) :
  oneOperand what ops e = oneOperand what ops e'
  := by
  unfold oneOperand
  split
  · apply h _ rfl
  · rfl

/-- The effect of an instruction depends on the validity of the addresses it accesses only. -/
theorem effect_of_accesses {valid valid' : Int → Bool} {cell : Int → Int} {instr : Instruction}
    (h : ∀ a ∈ accesses cell instr, valid a = valid' a) :
  effect valid cell instr = effect valid' cell instr
  := by
  cases ht : instr.type with
  | SET | CPY | CPYI | CPYI2 | ADD | ADDI | SUBI | JIF =>
      simp only [effect, ht]
      apply twoOperands_congr
      intro x y ho
      simp only [accesses, ht, ho, List.mem_cons, List.not_mem_nil, or_false, forall_eq_or_imp,
        forall_eq] at h
      simp only [h]
  | PUSH | POP | CALL =>
      simp only [effect, ht]
      apply oneOperand_congr
      intro x ho
      simp only [accesses, ht, ho, List.mem_cons, List.not_mem_nil, or_false, forall_eq_or_imp,
        forall_eq] at h
      simp only [h]
  | RET =>
      simp only [accesses, ht, List.mem_singleton, forall_eq] at h
      simp only [effect, ht, h]
  | HLT | USER | SYSCALL => simp only [effect, ht]

end CPU

end Simulator
