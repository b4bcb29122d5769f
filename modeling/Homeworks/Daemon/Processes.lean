import Homeworks.Concurrency.Fifo
import Homeworks.Transition.Runs
import Mathlib.Data.BitVec
import Mathlib.Data.Fintype.Prod

/-!
# The daemon and its children

The daemon writes two numbers and a command into `fifo1` and starts two children.  The first child
reads them and writes the larger number into `fifo2`, where the second child reads it.  A step of a
process is a system call with the computation around it, or a line that is written into the log.
The calls of `mkfifo`, `open`, `read`, `write` to a pipe, `fork`, `sigaction` and `unlink` may fail
for a reason that is not modelled; the lines of the log are written.  A child can be killed at any
time.  The signals to the daemon are those that it has a handler for, and they can be sent to it at
any time from outside, `SIGCHLD` too.
-/

open Relation

namespace Daemon

/-- The parent is the daemon. -/
inductive Process where
  | parent
  | child1
  | child2
  deriving DecidableEq, Repr

instance : Fintype Process where
  elems := {.parent, .child1, .child2}
  complete p := by cases p <;> decide

abbrev Byte := BitVec 8

/-! ### Messages -/

/-- The bytes of an `int`. -/
def intBytes (x : BitVec 32) : List Byte :=
  [x.extractLsb' 0 8, x.extractLsb' 8 8, x.extractLsb' 16 8, x.extractLsb' 24 8]

/-- The `int` that is read; it is not set completely if there are less bytes. -/
def ofBytes : List Byte → Option (BitVec 32)
  | [a, b, c, d] => some (d ++ c ++ b ++ a)
  | _ => none

def bytesOf (s : String) : List Byte := s.toList.map fun c => BitVec.ofNat 8 c.toNat

/-- `char cmd[] = "larger"` -/
def cmd : List Byte := bytesOf "larger" ++ [0]

/-- What `strcmp` compares: the bytes before the terminator, if it has been read. -/
def string (bytes : List Byte) : Option (List Byte) :=
  if 0 ∈ bytes then some (bytes.takeWhile (· ≠ 0)) else none

/-- `(num1 > num2) ? num1 : num2` -/
def larger (num1 num2 : BitVec 32) : BitVec 32 := if num2.slt num1 then num1 else num2

/-! ### The log -/

/-- The signals with the handler `daemon_signal_handler`, in the order in which it is installed. -/
inductive Signal where
  | SIGHUP
  | SIGTERM
  | SIGUSR1
  deriving DecidableEq, Repr

/-- What a line of the log is about. -/
inductive Entry where
  | created
  /-- an error of a process -/
  | error (p : Process)
  | parentOpened
  | parentWrote (num1 num2 : BitVec 32)
  | started (p : Process)
  /-- `[ERROR]: Child 1 received invalid command` -/
  | invalidCommand
  | child1Read (num1 num2 : Option (BitVec 32)) (cmd : List Byte)
  | child1Wrote (larger : BitVec 32)
  | child2Opened
  | child2Read (larger : BitVec 32)
  | exited (p : Process)
  | proceeding
  | timeout
  | success
  | received (signal : Signal)
  deriving DecidableEq, Repr

/-! ### The processes -/

/-- Where the parent is.  An `exit` has a status. -/
inductive Parent where
  | mkfifo1
  | mkfifo2
  | open1
  | opened
  | writeNum1
  | writeNum2
  | writeCmd
  | wrote
  | fork1
  | fork2
  | install (signal : Signal)
  /-- installs `sigchld_handler` -/
  | installChild
  /-- `child_counter < num_children` -/
  | test
  | proceed
  | success
  | close1
  | unlink1 (status : ℕ)
  | unlink2 (status : ℕ)
  /-- unlinks `fifo1` only -/
  | unlinkFirst
  | closeLog (status : ℕ)
  | exit (status : ℕ)
  | exited (status : ℕ)
  | killed
  deriving DecidableEq, Repr

/-- What the parent does after it has installed the handler of a signal. -/
def Signal.next : Signal → Parent
  | SIGHUP => .install SIGTERM
  | SIGTERM => .install SIGUSR1
  | SIGUSR1 => .installChild

/-- Where the first child is. -/
inductive Child1 where
  /-- it has not been started -/
  | none
  | started
  | open1
  | readNum1
  | readNum2 (num1 : Option (BitVec 32))
  | readCmd (num1 num2 : Option (BitVec 32))
  | compare (num1 num2 : Option (BitVec 32)) (cmd : List Byte)
  | read (num1 num2 : Option (BitVec 32)) (cmd : List Byte)
  | open2 (num1 num2 : Option (BitVec 32))
  | write (larger : BitVec 32)
  | wrote (larger : BitVec 32)
  | close1
  | close2
  | exit (status : ℕ)
  | exited (status : ℕ)
  | killed
  deriving DecidableEq, Repr

/-- Where the second child is. -/
inductive Child2 where
  /-- it has not been started -/
  | none
  | started
  | open2
  | opened
  | readLarger
  | read (larger : BitVec 32)
  | close2
  | exit (status : ℕ)
  | exited (status : ℕ)
  | killed
  deriving DecidableEq, Repr

def Child1.Alive (pc : Child1) : Bool :=
  match pc with
  | none | exited _ | killed => false
  | _ => true

def Child2.Alive (pc : Child2) : Bool :=
  match pc with
  | none | exited _ | killed => false
  | _ => true

def Parent.Alive (pc : Parent) : Bool :=
  match pc with
  | exited _ | killed => false
  | _ => true

structure State where
  fifo1 : Fifo Process Byte
  fifo2 : Fifo Process Byte
  parent : Parent
  child1 : Child1
  child2 : Child2
  childCounter : ℕ
  /-- the children that `waitpid` has returned -/
  reaped : Process → Bool
  handlers : Signal → Bool
  childHandler : Bool
  /-- there is a `SIGCHLD` for the parent -/
  pending : Bool
  /-- the parent is in `sigchld_handler` -/
  handling : Bool
  /-- the log is open for the parent -/
  logfile : Bool
  log : List Entry

inductive Action where
  /-- a call of the parent fails, or its time is over -/
  | parent (fails : Bool)
  | child1 (fails : Bool)
  | child2 (fails : Bool)
  | kill1
  | kill2
  | signal (signal : Signal)
  /-- a `SIGCHLD` is sent from outside -/
  | sigchld
  /-- `SIGCHLD` is delivered -/
  | deliver
  /-- `waitpid` returns a child -/
  | reap (p : Process)
  /-- `sigchld_handler` returns -/
  | handled
  deriving DecidableEq

namespace State

/-- The state after `daemonize_the_process`, where files of the names may exist. -/
def initial (named1 named2 : Bool) : State where
  fifo1 := ⟨named1, [], fun _ => 0⟩
  fifo2 := ⟨named2, [], fun _ => 0⟩
  parent := .mkfifo1
  child1 := .none
  child2 := .none
  childCounter := 0
  reaped _ := false
  handlers _ := false
  childHandler := false
  pending := false
  handling := false
  logfile := true
  log := [.created]

/-- A child writes a line into the log. -/
def note (s : State) (msg : Entry) : State := { s with log := s.log ++ [msg] }

/-- The parent writes a line into the log. -/
def writeMsgToLog (s : State) (msg : Entry) : State :=
  { s with log := if s.logfile then s.log ++ [msg] else s.log }

/-! ### The parent -/

/-- `main`, `setup_the_fifos` and `setup_signal_handler`. -/
def main (num1 num2 : BitVec 32) (s : State) (fails : Bool) : Option State :=
  match s.parent with
  | .mkfifo1 =>
      if fails || s.fifo1.named then
        some { s.writeMsgToLog (.error .parent) with parent := .exit 1 }
      else some { s with fifo1 := .mkfifo _ _, parent := .mkfifo2 }
  | .mkfifo2 =>
      if fails || s.fifo2.named then
        some { s.writeMsgToLog (.error .parent) with parent := .unlinkFirst }
      else some { s with fifo2 := .mkfifo _ _, parent := .open1 }
  | .open1 =>
      if fails || !s.fifo1.named then
        some { s.writeMsgToLog (.error .parent) with parent := .unlink1 1 }
      else some { s with fifo1 := s.fifo1.openBy .parent, parent := .opened }
  | .opened => some { s.writeMsgToLog .parentOpened with parent := .writeNum1 }
  | .writeNum1 =>
      if fails then some { s.writeMsgToLog (.error .parent) with
        fifo1 := s.fifo1.closeBy .parent, parent := .unlink1 1 }
      else some { s with fifo1 := s.fifo1.write (intBytes num1), parent := .writeNum2 }
  | .writeNum2 =>
      if fails then some { s.writeMsgToLog (.error .parent) with
        fifo1 := s.fifo1.closeBy .parent, parent := .unlink1 1 }
      else some { s with fifo1 := s.fifo1.write (intBytes num2), parent := .writeCmd }
  | .writeCmd =>
      if fails then some { s.writeMsgToLog (.error .parent) with
        fifo1 := s.fifo1.closeBy .parent, parent := .unlink1 1 }
      else some { s with fifo1 := s.fifo1.write cmd, parent := .wrote }
  | .wrote => some { s.writeMsgToLog (.parentWrote num1 num2) with parent := .fork1 }
  | .fork1 =>
      if fails then some { s.writeMsgToLog (.error .parent) with parent := .unlink1 1 }
      else some { s with
        fifo1 := s.fifo1.forkOf .parent .child1, child1 := .started, parent := .fork2 }
  | .fork2 =>
      if fails then some { s.writeMsgToLog (.error .parent) with parent := .unlink1 1 }
      else some { s with
        fifo1 := s.fifo1.forkOf .parent .child2, child2 := .started, parent := .install .SIGHUP }
  | .install signal =>
      if fails then some { s.writeMsgToLog (.error .parent) with parent := .exit 1 }
      else some { s with
        handlers := Function.update s.handlers signal true, parent := signal.next }
  | .installChild =>
      if fails then some { s.writeMsgToLog (.error .parent) with parent := .exit 1 }
      else some { s with childHandler := true, parent := .test }
  | .test => some { s with parent := if s.childCounter < 2 then .proceed else .success }
  | .proceed =>
      if fails then
        some { (s.writeMsgToLog .proceeding).writeMsgToLog .timeout with parent := .unlink1 1 }
      else some { s.writeMsgToLog .proceeding with parent := .test }
  | .success => some { s.writeMsgToLog .success with parent := .close1 }
  | .close1 => some { s with
      logfile := false, fifo1 := s.fifo1.closeBy .parent, parent := .unlink1 0 }
  | .unlink1 status =>
      if fails then some { s with parent := .unlink2 status }
      else some { s with fifo1 := s.fifo1.unlink, parent := .unlink2 status }
  | .unlink2 status =>
      if fails then some { s with parent := .closeLog status }
      else some { s with fifo2 := s.fifo2.unlink, parent := .closeLog status }
  | .unlinkFirst =>
      if fails then some { s with parent := .exit 1 }
      else some { s with fifo1 := s.fifo1.unlink, parent := .exit 1 }
  | .closeLog status => some { s with logfile := false, parent := .exit status }
  | .exit status => some { s with
      fifo1 := s.fifo1.exitOf .parent
      fifo2 := s.fifo2.exitOf .parent
      parent := .exited status }
  | .exited _ | .killed => none

/-- A signal for the parent; without a handler it ends the process. -/
def daemonSignalHandler (s : State) (signal : Signal) : State :=
  if s.handlers signal then
    { s.writeMsgToLog (.received signal) with parent := .unlink1 0, handling := false }
  else { s with
    fifo1 := s.fifo1.exitOf .parent
    fifo2 := s.fifo2.exitOf .parent
    parent := .killed
    handling := false }

/-! ### The children -/

/-- The descriptors of a child are closed when it has ended, and the parent gets a `SIGCHLD` if it
has a handler for it. -/
def endOf (s : State) (p : Process) : State := { s with
  fifo1 := s.fifo1.exitOf p
  fifo2 := s.fifo2.exitOf p
  pending := s.pending || s.childHandler }

def failChild1 (s : State) : State :=
  { s.note (.error .child1) with child1 := .exit 1 }

/-- The first child closes `fifo1` and fails. -/
def failRead (s : State) : State :=
  { s.failChild1 with fifo1 := s.fifo1.closeBy .child1 }

def childProcess1 (s : State) (fails : Bool) : Option State :=
  match s.child1 with
  | .none => none
  | .started => some { s.note (.started .child1) with child1 := .open1 }
  | .open1 =>
      if fails || !s.fifo1.named then some s.failChild1
      else some { s with fifo1 := s.fifo1.openBy .child1, child1 := .readNum1 }
  | .readNum1 =>
      if fails || s.fifo1.content.isEmpty then some s.failRead
      else some { s with
        fifo1 := s.fifo1.skip 4, child1 := .readNum2 (ofBytes (s.fifo1.content.take 4)) }
  | .readNum2 num1 =>
      if fails || s.fifo1.content.isEmpty then some s.failRead
      else some { s with
        fifo1 := s.fifo1.skip 4, child1 := .readCmd num1 (ofBytes (s.fifo1.content.take 4)) }
  | .readCmd num1 num2 =>
      if fails || s.fifo1.content.isEmpty then some s.failRead
      else some { s with
        fifo1 := s.fifo1.skip 20, child1 := .compare num1 num2 (s.fifo1.content.take 20) }
  | .compare num1 num2 cmd =>
      (string cmd).map fun text =>
        if text ≠ bytesOf "larger" then
          { s.note .invalidCommand with fifo1 := s.fifo1.closeBy .child1, child1 := .exit 1 }
        else { s with child1 := .read num1 num2 cmd }
  | .read num1 num2 cmd =>
      some { s.note (.child1Read num1 num2 cmd) with child1 := .open2 num1 num2 }
  | .open2 num1 num2 =>
      if fails || !s.fifo2.named then some s.failRead
      else num1.bind fun num1 => num2.map fun num2 => { s with
        fifo2 := s.fifo2.openBy .child1, child1 := .write (larger num1 num2) }
  | .write larger =>
      if fails then some { s.failChild1 with fifo2 := s.fifo2.closeBy .child1 }
      else some { s with fifo2 := s.fifo2.write (intBytes larger), child1 := .wrote larger }
  | .wrote larger => some { s.note (.child1Wrote larger) with child1 := .close1 }
  | .close1 => some { s with fifo1 := s.fifo1.closeBy .child1, child1 := .close2 }
  | .close2 => some { s with fifo2 := s.fifo2.closeBy .child1, child1 := .exit 0 }
  | .exit status => some { s.endOf .child1 with child1 := .exited status }
  | .exited _ | .killed => none

def failChild2 (s : State) : State :=
  { s.note (.error .child2) with child2 := .exit 1 }

/-- The read of the second child waits for bytes. -/
def childProcess2 (s : State) (fails : Bool) : Option State :=
  match s.child2 with
  | .none => none
  | .started => some { s.note (.started .child2) with child2 := .open2 }
  | .open2 =>
      if fails || !s.fifo2.named then some s.failChild2
      else some { s with fifo2 := s.fifo2.openBy .child2, child2 := .opened }
  | .opened => some { s.note .child2Opened with child2 := .readLarger }
  | .readLarger =>
      if fails then some { s.failChild2 with fifo2 := s.fifo2.closeBy .child2 }
      else if s.fifo2.content.isEmpty then none
      else
        match ofBytes (s.fifo2.content.take 4) with
        | none => some { s.failChild2 with fifo2 := (s.fifo2.skip 4).closeBy .child2 }
        | some larger => some { s with fifo2 := s.fifo2.skip 4, child2 := .read larger }
  | .read larger => some { s.note (.child2Read larger) with child2 := .close2 }
  | .close2 => some { s with fifo2 := s.fifo2.closeBy .child2, child2 := .exit 0 }
  | .exit status => some { s.endOf .child2 with child2 := .exited status }
  | .exited _ | .killed => none

/-! ### Reaping -/

/-- A child that has ended and that `waitpid` has not returned. -/
def Zombie (s : State) : Process → Bool
  | .parent => false
  | .child1 => s.child1 ≠ .none && !s.child1.Alive && !s.reaped .child1
  | .child2 => s.child2 ≠ .none && !s.child2.Alive && !s.reaped .child2

/-- A round of the loop of `sigchld_handler`. -/
def sigchldHandler (s : State) (p : Process) : State :=
  { s.writeMsgToLog (.exited p) with
    reaped := Function.update s.reaped p true
    childCounter := s.childCounter + 1 }

/-! ### Steps -/

def step (num1 num2 : BitVec 32) (s : State) : Action → Option State
  | .parent fails => if s.handling then none else s.main num1 num2 fails
  | .child1 fails => s.childProcess1 fails
  | .child2 fails => s.childProcess2 fails
  | .kill1 => if s.child1.Alive then some { s.endOf .child1 with child1 := .killed } else none
  | .kill2 => if s.child2.Alive then some { s.endOf .child2 with child2 := .killed } else none
  | .signal signal => if s.parent.Alive then some (s.daemonSignalHandler signal) else none
  | .sigchld =>
      if s.parent.Alive then some { s with pending := s.pending || s.childHandler } else none
  | .deliver =>
      if s.parent.Alive && s.pending && !s.handling then
        some { s with pending := false, handling := true }
      else none
  | .reap p => if s.handling && s.Zombie p then some (s.sigchldHandler p) else none
  | .handled =>
      if s.handling && !s.Zombie .child1 && !s.Zombie .child2 then some { s with handling := false }
      else none

def Next (num1 num2 : BitVec 32) (s t : State) : Prop := ∃ a, s.step num1 num2 a = some t

/-- The state after a sequence of actions. -/
def run (num1 num2 : BitVec 32) : List Action → State → Option State
  | [], s => some s
  | a :: actions, s => (s.step num1 num2 a).bind (run num1 num2 actions)

theorem run_append {num1 num2 : BitVec 32} (before after : List Action) (s : State) :
  run num1 num2 (before ++ after) s = (run num1 num2 before s).bind (run num1 num2 after)
  := by
  induction before generalizing s with
  | nil => rfl
  | cons a before ih =>
      rw [List.cons_append, run, run, Option.bind_assoc]
      congr 1
      funext t
      exact ih t

theorem run_path {num1 num2 : BitVec 32} {P : State → Action → Prop} {actions : List Action}
    {s t : State} (h : run num1 num2 actions s = some t) (hP : ∀ a ∈ actions, ∀ s, P s a) :
  ReflTransGen (fun s t => ∃ a, s.step num1 num2 a = some t ∧ P s a) s t
  := by
  induction actions generalizing s with
  | nil =>
      cases h
      exact .refl
  | cons a actions ih =>
      obtain ⟨ha, hP⟩ := List.forall_mem_cons.mp hP
      obtain ⟨u, hu, h⟩ := Option.bind_eq_some_iff.mp h
      exact .head ⟨a, hu, ha s⟩ (ih h hP)

theorem run_reaches {num1 num2 : BitVec 32} {actions : List Action} {s t : State}
    (h : run num1 num2 actions s = some t) :
  ReflTransGen (Next num1 num2) s t
  := by
  apply ReflTransGen.mono ?_ s t (run_path (P := fun _ _ => True) h fun _ _ _ => trivial)
  rintro s t ⟨a, ha, -⟩
  exact ⟨a, ha⟩

end State

/-- The states of the runs of the program. -/
def Reachable (num1 num2 : BitVec 32) (s : State) : Prop :=
  ∃ named1 named2, ReflTransGen (State.Next num1 num2) (.initial named1 named2) s

/-- No call fails up to the loop of the parent. -/
def started : List Action := List.replicate 14 (.parent false)

end Daemon
