import Homeworks.CString.Search
import Homeworks.Hardware.HWSystem

/-!
# The commands

The commands of `Main`: the call that a command stands for, what it does, and what is printed if
there is none or if it ends with an exception.
-/

namespace Hardware

open Java (Text)

/-- A call of the system. -/
inductive Call where
  | turnON (portId : Int)
  | turnOFF (portId : Int)
  | addDev (devType : Text) (portId devId : Int)
  | rmDev (portId : Int)
  | listPorts
  | listDevices (deviceType : Text)
  | readSensor (devId : Int)
  | printDisplay (devId : Int) (data : Text)
  | readWireless (devId : Int)
  | writeWireless (devId : Int) (data : Text)
  | setMotorSpeed (devId speed : Int)
  | exit
  deriving DecidableEq

def HWSystem.perform (s : HWSystem) : Call → Except Text (HWSystem × List Line)
  | .turnON portId => s.turnON portId
  | .turnOFF portId => s.turnOFF portId
  | .addDev devType portId devId => (s.addDev devType portId devId).map Prod.snd
  | .rmDev portId => (s.rmDev portId).map Prod.snd
  | .listPorts => .ok (s, s.listPorts)
  | .listDevices deviceType => .ok (s, s.listDevices deviceType)
  | .readSensor devId => (s.readSensor devId).map fun lines => (s, lines)
  | .printDisplay devId data => (s.printDisplay devId data).map fun lines => (s, lines)
  | .readWireless devId => (s.readWireless devId).map fun lines => (s, lines)
  | .writeWireless devId data => (s.writeWireless devId data).map fun lines => (s, lines)
  | .setMotorSpeed devId speed => (s.setMotorSpeed devId speed).map fun lines => (s, lines)
  | .exit => .ok (s, [.out "Exitting ...".toList])

/-! ### Commands -/

/-- `Integer.parseInt`, with what is printed for its exception. -/
def number (s : Text) : Except Text Int :=
  match Java.parseInt s with
  | none => .error "Invalid number format".toList
  | some n => .ok n

/-- `cmd.substring(cmd.indexOf(word))`. -/
def textFrom (cmd word : Text) : Except Text Text :=
  match CString.strstr cmd word with
  | none => .error ("begin -1, end ".toList ++ CString.decimal cmd.length ++ ", length ".toList
      ++ CString.decimal cmd.length)
  | some text => .ok text

/-- A command with a number. -/
def withNumber (call : Int → Call) (message : String) (args : List Text) : Except Text Call :=
  match args with
  | [n] => (number n).map call
  | _ => .error message.toList

/-- A command with a number and a text, the rest of the line. -/
def withText (call : Int → Text → Call) (message : String) (cmd : Text) (args : List Text) :
    Except Text Call :=
  match args with
  | id :: word :: _ => do
      let text ← textFrom cmd word
      (number id).map fun devId => call devId text
  | _ => .error message.toList

/-- The call of a command, or what is printed instead of it. -/
def processCommand (cmd : Text) : Except Text Call :=
  let parts := Java.split ' ' cmd
  let command := parts.headD []
  let args := parts.tail
  if command = "turnON".toList then
    withNumber .turnON "Invalid number of arguments" args
  else if command = "turnOFF".toList then
    withNumber .turnOFF "Invalid number of arguments" args
  else if command = "addDev".toList then
    match args with
    | [devType, portId, devId] => do
        let portId ← number portId
        (number devId).map fun devId => .addDev devType portId devId
    | _ => .error "Invalid number of arguments".toList
  else if command = "rmDev".toList then
    withNumber .rmDev "Invalid number of arguments" args
  else if command = "list".toList then
    match args with
    | [listType] =>
        if listType = "ports".toList then
          .ok .listPorts
        else if (Category.ofText listType).isSome then
          .ok (.listDevices listType)
        else
          .error "Invalid device type. Available: sensor, display, wirelessio, motordriver".toList
    | _ => .error "Invalid number of arguments for list".toList
  else if command = "readSensor".toList then
    withNumber .readSensor "Invalid number of arguments for readSensor" args
  else if command = "printDisplay".toList then
    withText .printDisplay "Invalid number of arguments for printDisplay" cmd args
  else if command = "readWireless".toList then
    withNumber .readWireless "Invalid number of arguments for readWireless" args
  else if command = "writeWireless".toList then
    withText .writeWireless "Invalid number of arguments for writeWireless" cmd args
  else if command = "setMotorSpeed".toList then
    match args with
    | [devId, speed] => do
        let devId ← number devId
        (number speed).map fun speed => .setMotorSpeed devId speed
    | _ => .error "Invalid number of arguments for setMotorSpeed".toList
  else if command = "exit".toList then
    .ok .exit
  else
    .error "Unknown command".toList

/-- What a command does. -/
def execute (s : HWSystem) (cmd : Text) : HWSystem × List Line :=
  match (processCommand cmd).bind s.perform with
  | .ok r => r
  | .error message => (s, [.err message])

/-- The commands of the input, up to the first `exit`; there is an exception if there is none. -/
def readCommands : List Text → Option (List Text)
  | [] => none
  | line :: lines =>
      let input := Java.trim line
      if input.isEmpty then
        readCommands lines
      else if (Java.split ' ' input).headD [] = "exit".toList then
        some [input]
      else
        (readCommands lines).map (input :: ·)

/-- What is printed for some commands. -/
def processCommandsFromQueue (s : HWSystem) : List Text → List Line
  | [] => []
  | cmd :: cmds =>
      let (s, lines) := execute s cmd
      lines ++ processCommandsFromQueue s cmds

end Hardware
