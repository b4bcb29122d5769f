import Homeworks.Java.Text
import Homeworks.TaskManager.MinHeap

/-!
# The task manager

`MyUser`, `MyTask`, `MyTaskManager` and `Main`.  A program reads lines and prints lines.
-/

namespace TaskManager

open Java (Text)

/-! ### Tasks -/

structure MyUser where
  id : Nat
  priority : Int
  deriving DecidableEq

structure MyTask where
  user : MyUser
  id : Nat
  deriving DecidableEq

namespace MyTask

def toString (task : MyTask) : Text :=
  "Task ".toList ++ CString.decimal task.id ++ " User ".toList ++ CString.decimal task.user.id

def compareTo (this task : MyTask) : Int :=
  if this.user.priority < task.user.priority then
    1
  else if this.user.priority > task.user.priority then
    -1
  else if this.id < task.id then
    1
  else if this.id > task.id then
    -1
  else
    0

end MyTask

/-! ### The manager -/

/-- A line that is printed. -/
inductive Line where
  | out (s : Text)
  | err (s : Text)

structure MyTaskManager where
  tasks : MinHeap MyTask
  users : List MyUser

namespace MyTaskManager

/-- The users after some lines, and what is printed; a user's ID is the number of those before. -/
def addUsers (users : List MyUser) : List Text → List MyUser × List Line
  | [] => (users, [])
  | line :: lines =>
      let line := Java.trim line
      if line.isEmpty then
        addUsers users lines
      else
        match Java.parseInt line with
        | none =>
            let (users, printed) := addUsers users lines
            (users, .err ("Invalid line: ".toList ++ line) :: printed)
        | some priority =>
            if priority < 0 then
              let (users, printed) := addUsers users lines
              (users, .err ("Invalid priority: ".toList ++ CString.decimal priority) :: printed)
            else
              addUsers (users ++ [⟨users.length, priority⟩]) lines

/-- The users of a file; if it is not found there is a message instead. -/
def addUser : Except Text Text → List MyUser × List Line
  | .error message => ([], [.err ("Config file not found - ".toList ++ message)])
  | .ok configFile => addUsers [] (Java.lines configFile)

def execute (system : MyTaskManager) : List Line :=
  (system.tasks.drain MyTask.compareTo).map fun task => .out task.toString

/-- A task for a user ID that is not negative. -/
def createTask (system : MyTaskManager) (taskId userId : Nat) : Except Text MyTaskManager :=
  if h : userId ≥ system.users.length then
    .error ("Invalid user ID: ".toList ++ CString.decimal userId)
  else
    have hlt : userId < system.users.length := Nat.lt_of_not_ge h
    let task : MyTask := ⟨system.users[userId], taskId⟩
    .ok { system with tasks := system.tasks.add MyTask.compareTo task }

end MyTaskManager

/-! ### The program -/

/-- The loop of `main`: what is printed for some lines of input. -/
def mainLoop (system : MyTaskManager) (taskId : Nat) : List Text → List Line
  | [] => []
  | line :: lines =>
      let input := Java.trim line
      if input.isEmpty then
        mainLoop system taskId lines
      else if input = "execute".toList then
        system.execute
      else
        match Java.parseInt input with
        | none =>
            .err "Invalid input. Please enter an integer value or 'execute'.".toList
              :: mainLoop system taskId lines
        | some userId =>
            if userId < 0 then
              .err ("User ID must be positive:".toList ++ CString.decimal userId)
                :: mainLoop system taskId lines
            else
              match system.createTask taskId userId.toNat with
              | .error message => .err message :: mainLoop system taskId lines
              | .ok system => mainLoop system (taskId + 1) lines

/-- What the program prints. -/
def main (configFile : Except Text Text) (stdin : Text) : List Line :=
  let (users, printed) := MyTaskManager.addUser configFile
  printed ++ mainLoop ⟨.new, users⟩ 0 (Java.lines stdin)

end TaskManager
