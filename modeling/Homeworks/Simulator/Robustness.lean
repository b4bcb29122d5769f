import Homeworks.Simulator.Effect
import Homeworks.Simulator.Parser
import Homeworks.Simulator.Step
import Mathlib.Computability.StateTransition

/-!
# Robustness

An instruction that goes wrong is to end with the CPU halted and a message.  It does so
except in two places: the counter of the running thread is updated outside the `try` block,
and `SYSCALL PRN` reads its operand without checking that there is one.  Loading data
outside memory is not guarded at all.
-/

open StateTransition

namespace Simulator

namespace CPU

/-! ### What can go wrong -/

/-- The instruction has fewer operands than its handler reads. -/
def MissingOperand (instr : Instruction) : Prop :=
  match instr.type with
  | .SET | .CPY | .CPYI | .CPYI2 | .ADD | .ADDI | .SUBI | .JIF => instr.operands.length < 2
  | .PUSH | .POP | .CALL => instr.operands.length < 1
  | .SYSCALL => instr.syscallType = some .PRN ∧ instr.operands.length < 1
  | .RET | .HLT | .USER => False

/-- The instruction accesses an address that is not accessible, or jumps to one. -/
def BadAddress (c : CPU) (instr : Instruction) : Prop :=
  (∃ a ∈ accesses c.cell instr, 10000 ≤ sizeT a ∨ (Plain instr ∧ c.valid a = false))
    ∨ instr.type = .USER ∧ ∃ a, instr.operands = [a] ∧
        Memory.isAddressValid (sizeT (c.cell a)) false = false

/-- A print by a thread whose table entry is not within memory. -/
def BadThread (c : CPU) (instr : Instruction) : Prop :=
  instr.type = .SYSCALL ∧ instr.syscallType = some .PRN
    ∧ (10000 ≤ sizeT (c.threadTable + 3) ∨ 10000 ≤ sizeT (c.threadTable + 1))

/-- The next call of `execute` meets a counter cell that is not within memory, no
instruction, a missing operand, a bad address or a bad thread number. -/
def Faulty (c : CPU) : Prop :=
  (c.InSegment ∧ 10000 ≤ sizeT c.countAddr)
    ∨ (c.halted = false ∧ (c.current = none ∨ ∃ instr, c.current = some instr
      ∧ (MissingOperand instr ∨ BadAddress c.bumped instr ∨ BadThread c.bumped instr)))

/-- `c'` is halted, and a message has been written since `c`. -/
def HaltedWithMessage (c c' : CPU) : Prop :=
  c'.halted = true ∧ ∃ message, message ≠ [] ∧ c'.cerr = c.cerr ++ message

/-- `execute` returns, and in a faulty state it halts the CPU with a message. -/
def Graceful (c : CPU) : Prop :=
  ∃ c', c.step = some c' ∧ (Faulty c → HaltedWithMessage c c')

/-! ### When `execute` returns -/

/-- The handler reads an operand that does not exist. -/
def ReadsMissing (c : CPU) (instr : Instruction) : Prop :=
  instr.type = .SYSCALL ∧ instr.syscallType = some .PRN ∧ instr.operands = []
    ∧ sizeT (c.threadTable + 3) < 10000 ∧ sizeT (c.threadTable + 1) < 10000

/-- The counter cell of a thread within its segment is within memory, and the next
instruction is no print without operand. -/
structure Safe (c : CPU) : Prop where
  counter : c.InSegment → sizeT c.countAddr < 10000
  operand : c.halted = false → ∀ instr, c.current = some instr → ¬ ReadsMissing c.bumped instr

/-- `execute` does not return after a handler that reads an operand that does not exist. -/
def IsUndefined : EStateM.Result Stop CPU Unit → Prop
  | .error .undefined _ => True
  | _ => False

theorem not_isUndefined_effect (c : CPU) (e : Effect) :
  ¬ IsUndefined (e.result c)
  := by
  cases e <;> exact id

theorem isUndefined_prn (c : CPU) (instr : Instruction) :
  IsUndefined (c.prnResult instr)
    ↔ instr.operands = [] ∧ sizeT (c.threadTable + 3) < 10000 ∧ sizeT (c.threadTable + 1) < 10000
  := by
  unfold prnResult
  split
  · rename_i h
    constructor
    · rintro ⟨⟩
    · rintro ⟨-, h', -⟩
      omega
  · split
    · rename_i h
      constructor
      · rintro ⟨⟩
      · rintro ⟨-, -, h'⟩
        omega
    · rename_i h₃ h₁
      cases hops : instr.operands with
      | nil =>
          constructor
          · rintro -
            exact ⟨rfl, by omega, by omega⟩
          · rintro -
            trivial
      | cons a ops =>
          have hne : ¬ (a :: ops = []) := List.cons_ne_nil a ops
          simp only [List.length_cons, Nat.zero_lt_succ, getElem?_pos, List.getElem_cons_zero, hne,
            false_and, iff_false]
          split
          · exact id
          · exact id

theorem isUndefined_handler (c : CPU) (instr : Instruction) :
  IsUndefined ((instructionHandlers instr.type instr).run c) ↔ ReadsMissing c instr
  := by
  by_cases hp : Plain instr
  · rw [handler_run c instr hp]
    constructor
    · intro h
      exact absurd h (not_isUndefined_effect _ _)
    · intro h
      exact absurd h.1 hp.2.2
  · cases ht : instr.type with
    | HLT =>
        constructor
        · rintro ⟨⟩
        · rintro ⟨h, -⟩
          rw [ht] at h
          cases h
    | USER =>
        have hn : ¬ ReadsMissing c instr := by
          rintro ⟨h, -⟩
          rw [ht] at h
          cases h
        apply iff_of_false _ hn
        by_cases hl : instr.operands.length = 1
        · obtain ⟨a, ha⟩ := List.length_eq_one_iff.mp hl
          simp only [instructionHandlers, executeUSER_one c instr a ha]
          exact id
        · simp only [instructionHandlers, executeUSER_other c instr hl]
          exact id
    | SYSCALL =>
        simp only [instructionHandlers, executeSYSCALL_run, syscallResult, ReadsMissing, ht,
          true_and]
        cases hst : instr.syscallType with
        | none =>
            constructor
            · rintro ⟨⟩
            · rintro ⟨⟨⟩, -⟩
        | some st =>
            cases st with
            | PRN =>
                simp only [isUndefined_prn, true_and]
                rfl
            | HLT | YIELD =>
                constructor
                · rintro ⟨⟩
                · rintro ⟨⟨⟩, -⟩
    | _ => exact absurd ⟨by simp [ht], by simp [ht], by simp [ht]⟩ hp

/-- `finish` returns unless the handler has read an operand that does not exist. -/
theorem finish_returns_iff {pc : Int} {r : EStateM.Result Stop CPU Unit} :
  (∃ c', finish pc r = .ok () c') ↔ ¬ IsUndefined r
  := by
  match r with
  | .ok () c =>
      constructor
      · rintro - ⟨⟩
      · intro _
        use c.advance pc
        rfl
  | .error (.exception what) c =>
      constructor
      · rintro - ⟨⟩
      · intro _
        use c.caught what
        rfl
  | .error .undefined c =>
      constructor
      · rintro ⟨c', ⟨⟩⟩
      · intro h
        exact absurd trivial h

theorem step_eq_some {c c' : CPU} :
  c.step = some c' ↔ execute.run c = .ok () c'
  := by
  unfold step
  match execute.run c with
  | .ok () d => simp
  | .error stop d => simp

/-- `execute` returns from the safe states. -/
theorem step_isSome_iff (c : CPU) :
  (∃ c', c.step = some c') ↔ c.Safe
  := by
  by_cases hs : c.InSegment → sizeT c.countAddr < 10000
  · cases hh : c.halted with
    | true =>
        constructor
        · intro _
          constructor
          · apply hs
          · intro h
            rw [hh] at h
            cases h
        · intro _
          use c.bumped
          rw [step_eq_some, execute_run c hs, dispatch_run]
          simp only [bumped_halted, hh, if_true]
    | false =>
        cases hi : c.current with
        | none =>
            have hi' : c.instructions (sizeT (c.cell PC)) = none := hi
            constructor
            · intro _
              constructor
              · apply hs
              · intro _ instr h
                rw [hi] at h
                cases h
            · intro _
              use c.bumped.missing (c.cell PC)
              rw [step_eq_some, execute_run c hs, dispatch_run]
              simp only [bumped_halted, hh, Bool.false_eq_true, if_false, bumped_instructions, hi']
        | some instr =>
            simp only [step_eq_some, step_of_current hs hh hi, finish_returns_iff,
              isUndefined_handler]
            constructor
            · intro hm
              constructor
              · apply hs
              · intro _ instr' h
                rw [hi] at h
                cases h
                apply hm
            · intro h
              apply h.operand hh instr hi
  · constructor
    · rintro ⟨c', hc'⟩
      obtain ⟨hin, hc⟩ := Classical.not_imp.mp hs
      rw [step_eq_some, execute_run_escape c hin (by omega)] at hc'
      cases hc'
    · intro h
      exact absurd h.counter hs

/-! ### What faults end in -/

/-- The result of a handler that goes wrong. -/
inductive Fails (c : CPU) : EStateM.Result Stop CPU Unit → Prop where
  | exception (what : String) (d : CPU) (h : d.cerr = c.cerr) :
    Fails c (.error (.exception what) d)
  | halts (message : List Output) (d : CPU) (h : d.cerr = c.cerr) :
    Fails c (.ok () (d.halting message))

theorem Fails.congr {c d : CPU} {r : EStateM.Result Stop CPU Unit} (h : Fails d r)
    (hcerr : d.cerr = c.cerr) :
  Fails c r
  := by
  cases h with
  | exception what e he => apply Fails.exception what e (he.trans hcerr)
  | halts message e he => apply Fails.halts message e (he.trans hcerr)

/-- An effect that stores requires all operands and valid addresses. -/
theorem effect_writes {c : CPU} {instr : Instruction} (hp : Plain instr) :
  (effect c.valid c.cell instr).Writes fun _ =>
    ¬ MissingOperand instr ∧ ∀ a ∈ accesses c.cell instr, c.valid a = true
  := by
  cases ht : instr.type with
  | SET | CPY | ADD | ADDI | SUBI | JIF =>
      simp only [effect, ht]
      apply twoOperands_writes
      intro x y ho
      apply check_writes
      intro hv
      simp_all [Effect.Writes, MissingOperand, accesses]
  | CPYI | CPYI2 =>
      simp only [effect, ht]
      apply twoOperands_writes
      intro x y ho
      apply check_writes
      intro hv
      apply check_writes
      intro hv'
      simp_all [Effect.Writes, MissingOperand, accesses]
  | PUSH | POP =>
      simp only [effect, ht]
      apply oneOperand_writes
      intro x ho
      apply check_writes
      intro hv
      apply check_writes
      intro hv'
      simp_all [Effect.Writes, MissingOperand, accesses]
  | CALL =>
      simp only [effect, ht]
      apply oneOperand_writes
      intro x ho
      apply check_writes
      intro hv
      simp_all [Effect.Writes, MissingOperand, accesses]
  | RET =>
      simp only [effect, ht]
      apply check_writes
      intro hv
      simp_all [Effect.Writes, MissingOperand, accesses]
  | HLT => exact absurd ht hp.1
  | USER => exact absurd ht hp.2.1
  | SYSCALL => exact absurd ht hp.2.2

theorem fails_plain {c : CPU} {instr : Instruction} (hp : Plain instr)
    (h : MissingOperand instr ∨ ∃ a ∈ accesses c.cell instr, c.valid a = false) :
  Fails c ((instructionHandlers instr.type instr).run c)
  := by
  have hw := effect_writes (c := c) hp
  rw [handler_run c instr hp]
  cases he : effect c.valid c.cell instr with
  | throws what => apply Fails.exception what c rfl
  | violation message => apply Fails.halts message c rfl
  | writes stores =>
      rw [he] at hw
      obtain ⟨hm, ha⟩ : ¬ MissingOperand instr ∧ ∀ a ∈ accesses c.cell instr, c.valid a = true := hw
      obtain h | ⟨a, hmem, hv⟩ := h
      · exact absurd h hm
      · rw [ha a hmem] at hv
        cases hv

theorem fails_user {c : CPU} {a : Int}
    (h : 10000 ≤ sizeT a ∨ Memory.isAddressValid (sizeT (c.cell a)) false = false) :
  Fails c (.ok () (c.userResult a))
  := by
  unfold userResult
  split
  · rename_i ha
    obtain h | h := h
    · omega
    · simp only [h, Bool.false_eq_true, if_false]
      exact Fails.halts (c := c) _ (c.inMode false) rfl
  · exact Fails.halts (c := c) _ (c.inMode false) rfl

/-- A print that goes wrong, unless there is no operand, ends with an exception. -/
theorem fails_prn {c : CPU} {instr : Instruction} (hr : ¬ IsUndefined (c.prnResult instr))
    (h : instr.operands = [] ∨ (∃ a, instr.operands[0]? = some a ∧ 10000 ≤ sizeT a)
      ∨ 10000 ≤ sizeT (c.threadTable + 3) ∨ 10000 ≤ sizeT (c.threadTable + 1)) :
  Fails c (c.prnResult instr)
  := by
  unfold prnResult at hr ⊢
  split
  · apply Fails.exception
    rfl
  · rename_i h₃
    split
    · apply Fails.exception
      rfl
    · rename_i h₁
      simp only [if_neg h₃, if_neg h₁] at hr
      cases hops : instr.operands[0]? with
      | none =>
          rw [hops] at hr
          exact absurd trivial hr
      | some a =>
          obtain h | ⟨b, hb, hs⟩ | h | h := h
          · rw [h] at hops
            cases hops
          · rw [hops] at hb
            cases hb
            simp only [if_pos hs]
            apply Fails.exception
            rfl
          · exact absurd h h₃
          · exact absurd h h₁

/-- A handler that goes wrong halts or throws an exception, unless it reads an operand that
does not exist. -/
theorem fails_handler {c : CPU} {instr : Instruction} (hr : ¬ ReadsMissing c instr)
    (h : MissingOperand instr ∨ BadAddress c instr ∨ BadThread c instr) :
  Fails c ((instructionHandlers instr.type instr).run c)
  := by
  by_cases hp : Plain instr
  · apply fails_plain hp
    obtain h | (⟨a, hmem, ha⟩ | ⟨ht, -⟩) | ⟨ht, -⟩ := h
    · left
      apply h
    · right
      refine ⟨a, hmem, ?_⟩
      obtain ha | ⟨-, hv⟩ := ha
      · rw [← Bool.not_eq_true]
        intro hv
        have := valid_lt hv
        omega
      · apply hv
    · exact absurd ht hp.2.1
    · exact absurd ht hp.2.2
  · cases ht : instr.type with
    | HLT =>
        exfalso
        obtain h | (⟨a, hmem, -⟩ | ⟨h, -⟩) | ⟨h, -⟩ := h
        · simp [MissingOperand, ht] at h
        · simp [accesses, ht] at hmem
        · rw [ht] at h
          cases h
        · rw [ht] at h
          cases h
    | USER =>
        obtain h | (⟨a, hmem, ha⟩ | ⟨-, a, hops, ha⟩) | ⟨h, -⟩ := h
        · simp [MissingOperand, ht] at h
        · cases hops : instr.operands with
          | nil => simp [accesses, ht, hops] at hmem
          | cons b rest =>
              cases rest with
              | nil =>
                  simp only [accesses, ht, hops, List.mem_singleton] at hmem
                  subst hmem
                  simp only [instructionHandlers, executeUSER_one c instr a hops]
                  apply fails_user
                  obtain ha | ⟨hp', -⟩ := ha
                  · left
                    apply ha
                  · exact absurd hp' hp
              | cons _ _ => simp [accesses, ht, hops] at hmem
        · simp only [instructionHandlers, executeUSER_one c instr a hops]
          apply fails_user
          right
          apply ha
        · rw [ht] at h
          cases h
    | SYSCALL =>
        have hr' : ¬ IsUndefined ((instructionHandlers instr.type instr).run c) := by
          rw [isUndefined_handler]
          apply hr
        simp only [instructionHandlers, ht, executeSYSCALL_run, syscallResult] at hr' ⊢
        cases hst : instr.syscallType with
        | none => exact Fails.halts (c := c) _ (c.inMode true) rfl
        | some st =>
            cases st with
            | PRN =>
                simp only [hst] at hr'
                have hf : Fails (c.inMode true) ((c.inMode true).prnResult instr) := by
                  apply fails_prn hr'
                  obtain h | (⟨a, hmem, ha⟩ | ⟨h, -⟩) | ⟨-, -, h⟩ := h
                  · left
                    simp only [MissingOperand, ht] at h
                    apply List.eq_nil_of_length_eq_zero
                    omega
                  · right; left
                    cases hops : instr.operands with
                    | nil => simp [accesses, ht, hops] at hmem
                    | cons b ops =>
                        simp only [accesses, ht, hops, hst, if_true, List.mem_singleton] at hmem
                        subst hmem
                        use a, rfl
                        obtain ha | ⟨hp', -⟩ := ha
                        · apply ha
                        · exact absurd hp' hp
                  · rw [ht] at h
                    cases h
                  · right; right
                    apply h
                exact hf.congr rfl
            | HLT | YIELD =>
                exfalso
                obtain h | (⟨a, hmem, -⟩ | ⟨h, -⟩) | ⟨-, h, -⟩ := h
                · simp [MissingOperand, ht, hst] at h
                · cases hops : instr.operands with
                  | nil => simp [accesses, ht, hops] at hmem
                  | cons b ops => simp [accesses, ht, hops, hst] at hmem
                · rw [ht] at h
                  cases h
                · rw [hst] at h
                  cases h
    | _ => exact absurd ⟨by simp [ht], by simp [ht], by simp [ht]⟩ hp

/-- In a faulty state `execute` halts the CPU with a message, if it returns. -/
theorem Faulty.halted {c c' : CPU} (hs : c.Safe) (hf : c.Faulty) (h : c.step = some c') :
  HaltedWithMessage c c'
  := by
  obtain ⟨hin, hc⟩ | ⟨hh, hf⟩ := hf
  · have := hs.counter hin
    omega
  · obtain ⟨hh', -⟩ | ⟨-, -, rfl⟩ | ⟨instr, -, hi, hr⟩ := step_cases h
    · rw [hh] at hh'
      cases hh'
    · constructor
      · rfl
      · refine ⟨_, ?_, by rw [missing, halting, bumped_cerr]⟩
        simp
    · obtain hf | ⟨instr', hi', hf⟩ := hf
      · rw [hi] at hf
        cases hf
      · rw [hi] at hi'
        cases hi'
        have hfails := fails_handler (hs.operand hh instr hi) hf
        generalize (instructionHandlers instr.type instr).run c.bumped = r at hfails hr
        cases hfails with
        | exception what d hd =>
            cases hr
            constructor
            · rfl
            · refine ⟨_, ?_, by rw [caught, halting, hd, bumped_cerr]⟩
              simp
        | halts message d hd =>
            cases hr
            obtain ⟨-, hhalted, -, -, hcerr⟩ := (d.halting message).advance_fields (c.cell PC)
            constructor
            · rw [hhalted]
              rfl
            · refine ⟨message ++ [endl], by simp, ?_⟩
              rw [hcerr, halting, hd, bumped_cerr]

/-- A state is graceful if and only if it is safe. -/
theorem graceful_iff (c : CPU) :
  c.Graceful ↔ c.Safe
  := by
  constructor
  · rintro ⟨c', hstep, -⟩
    apply (step_isSome_iff c).mp ⟨c', hstep⟩
  · intro h
    obtain ⟨c', hstep⟩ := (step_isSome_iff c).mpr h
    exact ⟨c', hstep, fun hf => hf.halted h hstep⟩

end CPU

/-! ### Programs -/

/-- The program that a text contains is loaded without an exception, and over any number of
calls `execute` returns and halts the CPU with a message in the faulty states. -/
def NeverAborts (uninitialized : Int → Option SyscallType) (contents : List Char) : Prop :=
  let p := Parser.parseFile uninitialized contents
  ∃ c₀, (CPU.loadProgram p.instructionMap p.dataSegment).run CPU.new = .ok () c₀
    ∧ ∀ c, Reaches CPU.step c₀ c → c.Graceful

/-! ### Programs that abort the simulator -/

/-- An entry of the data segment lies outside memory. -/
def dataOutside : List Char := "Begin Data Section\n10000 1\nEnd Data Section\n".toList

/-- The operand of a print is missing. -/
def printsNothing : List Char :=
  "Begin Instruction Section\n0 SYSCALL PRN\nEnd Instruction Section\n".toList

/-- The thread number is 2000, and the program jumps into the segment of that thread. -/
def corruptedThread : List Char :=
  ("Begin Data Section\n22 2000\nEnd Data Section\n"
    ++ "Begin Instruction Section\n0 SET 2000000 0\nEnd Instruction Section\n").toList

/-- The state loaded by a program whose data lie within memory is safe if the program does
not abort, and so is the next one. -/
theorem NeverAborts.safe {uninitialized : Int → Option SyscallType} {contents : List Char}
    (h : NeverAborts uninitialized contents) (data : List (Int × Int))
    (hdata : (Parser.parseFile uninitialized contents).dataSegment = data)
    (hall : ∀ entry ∈ data, 0 ≤ entry.1 ∧ entry.1 < 10000) :
  ∀ c, Reaches CPU.step (CPU.loaded (Parser.parseFile uninitialized contents).instructionMap data) c
    → c.Safe
  := by
  obtain ⟨c₀, hc₀, hgraceful⟩ := h
  simp only [hdata] at hc₀
  rw [CPU.loadProgram_run _ _ hall] at hc₀
  cases hc₀
  intro c hc
  apply (CPU.graceful_iff c).mp (hgraceful c hc)

end Simulator
