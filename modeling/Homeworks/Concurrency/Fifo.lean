import Mathlib.Data.Fintype.Basic
import Mathlib.Logic.Function.Basic

/-!
# Named pipes

A pipe has a name as long as it is not unlinked, and processes have descriptors of it.  What has
been written and not been read is discarded with the last descriptor.
-/

/-- A pipe between processes `P` that carries bytes `α`. -/
structure Fifo (P α : Type) where
  named : Bool
  content : List α
  /-- the number of descriptors that a process has -/
  descriptors : P → ℕ

namespace Fifo

variable {P α : Type}

def unlink (f : Fifo P α) : Fifo P α := { f with named := false }

/-- A new pipe. -/
def mkfifo (P α : Type) : Fifo P α := ⟨true, [], fun _ => 0⟩

def write (f : Fifo P α) (bytes : List α) : Fifo P α := { f with content := f.content ++ bytes }

/-- At most a number of bytes are read. -/
def skip (f : Fifo P α) (size : ℕ) : Fifo P α := { f with content := f.content.drop size }

section

variable (f : Fifo P α)

@[simp] theorem skip_descriptors (n : ℕ) :
  (f.skip n).descriptors = f.descriptors
  := rfl

@[simp] theorem skip_content (n : ℕ) :
  (f.skip n).content = f.content.drop n
  := rfl

@[simp] theorem write_descriptors (bytes : List α) :
  (f.write bytes).descriptors = f.descriptors
  := rfl

@[simp] theorem write_content (bytes : List α) :
  (f.write bytes).content = f.content ++ bytes
  := rfl

@[simp] theorem unlink_content :
  f.unlink.content = f.content
  := rfl

@[simp] theorem unlink_descriptors :
  f.unlink.descriptors = f.descriptors
  := rfl

end

variable [DecidableEq P] [Fintype P]

/-- A process has a number of descriptors from now on. -/
def hold (f : Fifo P α) (p : P) (n : ℕ) : Fifo P α :=
  let descriptors := Function.update f.descriptors p n
  { f with
    descriptors := descriptors
    content := if ∃ q, descriptors q ≠ 0 then f.content else [] }

/-- A pipe is opened by its name. -/
def openBy (f : Fifo P α) (p : P) : Fifo P α := f.hold p (f.descriptors p + 1)

def closeBy (f : Fifo P α) (p : P) : Fifo P α := f.hold p (f.descriptors p - 1)

/-- The descriptors of a process are closed when it ends. -/
def exitOf (f : Fifo P α) (p : P) : Fifo P α := f.hold p 0

/-- The child gets the descriptors of its parent. -/
def forkOf (f : Fifo P α) (p child : P) : Fifo P α := f.hold child (f.descriptors p)

section

variable (f : Fifo P α) (p q : P) (n : ℕ)

@[simp] theorem hold_named :
  (f.hold p n).named = f.named
  := rfl

@[simp] theorem hold_descriptors :
  (f.hold p n).descriptors = Function.update f.descriptors p n
  := rfl

theorem hold_content_eq :
  (f.hold p n).content = f.content ∨ (f.hold p n).content = []
  := by
  by_cases h : ∃ q, Function.update f.descriptors p n q ≠ 0
  · exact .inl (if_pos h)
  · exact .inr (if_neg h)

variable {f p q n}

/-- Nothing is discarded while there is a descriptor. -/
theorem hold_content (h : Function.update f.descriptors p n q ≠ 0) :
  (f.hold p n).content = f.content
  := if_pos ⟨q, h⟩

theorem hold_content_nil (h : f.content = []) :
  (f.hold p n).content = []
  := by
  rcases f.hold_content_eq p n with heq | heq
  · rw [heq, h]
  · exact heq

end

end Fifo
