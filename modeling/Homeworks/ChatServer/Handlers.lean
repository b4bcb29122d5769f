import Homeworks.ChatServer.Server
import Mathlib.Logic.Relation

/-!
# Concurrent handlers

Each accepted connection has a handler, a thread that runs `client_handler`.  The atomic
steps are what a thread does while it holds a mutex, and the single statements outside.
The accept loop puts a new connection into an entry of the table that is not active, and a
descriptor that is not open is used for it.  The server is running: shutting it down is
left out.
-/

open Relation

namespace ChatServer

/-- The calls of `cleanup_client`. -/
inductive Call where
  /-- before a username is accepted, or when there is no thread; the handler then ends -/
  | unnamed
  /-- when `recv` fails while commands are read -/
  | lost
  /-- at the end of `client_handler` -/
  | last
  deriving DecidableEq

/-- Where a handler is. -/
inductive Pc where
  /-- waits for a username -/
  | login
  /-- has received a valid username -/
  | naming (username : Text)
  /-- tests whether its client is active -/
  | loop
  /-- waits for a command -/
  | waiting
  /-- `/join`: compares the room with the current one -/
  | joining (room : Text)
  /-- `/join`: checks whether the room is full -/
  | checking (room : Text)
  /-- `join_room`: looks for the room in its record -/
  | passed (room : Text)
  /-- `join_room`: looks whether it is in a room -/
  | entering (room : Text) (rejoining : Bool)
  /-- `join_room`: copies the name of the room that it is in -/
  | moving (room : Text) (rejoining : Bool)
  /-- `join_room`: leaves the room that it is in -/
  | movingFrom (room : Text) (rejoining : Bool) (old : Text)
  /-- `join_room`: joins the room -/
  | inserting (room : Text) (rejoining : Bool)
  /-- `/leave`: looks whether it is in a room -/
  | leaving
  /-- `/leave`: copies the name of the room that it is in -/
  | leavingRoom
  /-- `/leave`: leaves the room that it is in -/
  | leavingFrom (old : Text)
  /-- `/exit`: closes its socket -/
  | exiting
  /-- `cleanup_client`: tests whether its client is active -/
  | cleaning (call : Call)
  /-- `cleanup_client`: cleans up its client -/
  | cleaningUp (call : Call)
  | done
  deriving DecidableEq

/-- Where a handler is after a call of `cleanup_client`. -/
def Call.next : Call → Pc
  | .lost => .cleaning .last
  | .unnamed | .last => .done

/-- A step of the handler of a client: the server and the handler before and after it, and
the descriptor that is closed. -/
inductive Handles (i : Slot) (s : Server) : Pc → Server → Pc → Option Int → Prop where
  | loginLost : Handles i s .login s (.cleaning .unnamed) none
  | loginInvalid : Handles i s .login s .login none
  | loginValid {username : Text} (h : Server.isValidUsername username = true) :
    Handles i s .login s (.naming username) none
  | taken {username : Text} (h : s.usernameTaken username = true) :
    Handles i s (.naming username) s .login none
  | accepted {username : Text} (h : s.usernameTaken username = false) :
    Handles i s (.naming username) (s.login i username).1 .loop none
  | active (h : (s.clients i).active = true) : Handles i s .loop s .waiting none
  | inactive (h : (s.clients i).active = false) : Handles i s .loop s (.cleaning .last) none
  | lost : Handles i s .waiting s (.cleaning .lost) none
  /-- a command that changes neither rooms nor clients -/
  | other : Handles i s .waiting s .loop none
  | join {room : Text} (h : Server.isValidRoomName room = true) :
    Handles i s .waiting s (.joining room) none
  | leave : Handles i s .waiting s .leaving none
  | exit : Handles i s .waiting s .exiting none
  | already {room : Text} (h : (s.clients i).currentRoom = room) :
    Handles i s (.joining room) s .loop none
  | elsewhere {room : Text} (h : (s.clients i).currentRoom ≠ room) :
    Handles i s (.joining room) s (.checking room) none
  | full {room : Text} (h : s.roomIsFull room = true) :
    Handles i s (.checking room) s .loop none
  | notFull {room : Text} (h : s.roomIsFull room = false) :
    Handles i s (.checking room) s (.passed room) none
  | looked {room : Text} :
    Handles i s (.passed room) s (.entering room (s.rejoining i room)) none
  | wasInRoom {room : Text} {rejoining : Bool} (h : (s.clients i).currentRoom.length > 0) :
    Handles i s (.entering room rejoining) s (.moving room rejoining) none
  | wasInNoRoom {room : Text} {rejoining : Bool} (h : ¬ (s.clients i).currentRoom.length > 0) :
    Handles i s (.entering room rejoining) s (.inserting room rejoining) none
  | moves {room : Text} {rejoining : Bool} :
    Handles i s (.moving room rejoining) s (.movingFrom room rejoining (s.clients i).currentRoom)
      none
  | moved {room old : Text} {rejoining : Bool} :
    Handles i s (.movingFrom room rejoining old) (s.leaveRegion i old).1 (.inserting room rejoining)
      none
  | inserted {room : Text} {rejoining : Bool} {s' : Server} {sockets : List (Option Int)}
      (h : s.joinRegion i room rejoining = some (s', sockets)) :
    Handles i s (.inserting room rejoining) s' .loop none
  | noRoom {room : Text} {rejoining : Bool} (h : s.joinRegion i room rejoining = none) :
    Handles i s (.inserting room rejoining) s .loop none
  | inNoRoom (h : (s.clients i).currentRoom.length = 0) : Handles i s .leaving s .loop none
  | inRoom (h : (s.clients i).currentRoom.length ≠ 0) : Handles i s .leaving s .leavingRoom none
  | leaves : Handles i s .leavingRoom s (.leavingFrom (s.clients i).currentRoom) none
  | left {old : Text} : Handles i s (.leavingFrom old) (s.leaveRegion i old).1 .loop none
  | closed : Handles i s .exiting s (.cleaning .last) (some (s.clients i).socket)
  | clean {call : Call} (h : (s.clients i).active = false) :
    Handles i s (.cleaning call) s call.next none
  | notClean {call : Call} (h : (s.clients i).active = true) :
    Handles i s (.cleaning call) s (.cleaningUp call) none
  | cleaned {call : Call} :
    Handles i s (.cleaningUp call) (s.cleanupRegion i).1 call.next (some (s.clients i).socket)

/-- A session: the entry of its client, where its handler is, the descriptor that was
accepted for it, and how often its handler has closed a descriptor. -/
structure Session where
  slot : Slot
  pc : Pc
  socket : Int
  closings : Nat

/-- The server with its sessions, in the order in which they were accepted, and the open
descriptors, each with the session that it was accepted for. -/
structure System where
  server : Server
  sessions : List Session
  descriptors : Int → Option Nat

namespace System

/-- The system when the server starts. -/
def initial : System := ⟨.initial, [], fun _ => none⟩

/-- The descriptors after one is closed. -/
def close (descriptors : Int → Option Nat) : Option Int → Int → Option Nat
  | none => descriptors
  | some fd => Function.update descriptors fd none

/-- The entry of a session that has been replaced. -/
theorem get_set {sessions : List Session} {k : Nat} {session session' : Session}
    (h : sessions[k]? = some session) :
  (sessions.set k session')[k]? = some session'
  := by
  obtain ⟨hlt, -⟩ := List.getElem?_eq_some_iff.mp h
  apply List.getElem?_set_self hlt

/-- A step of the handler of the session `k`. -/
inductive HandlerStep (k : Nat) (x : System) : System → Prop where
  | of {session : Session} {s' : Server} {pc' : Pc} {closed : Option Int}
      (hk : x.sessions[k]? = some session)
      (h : Handles session.slot x.server session.pc s' pc' closed) :
    HandlerStep k x
      ⟨s', x.sessions.set k { session with
          pc := pc'
          closings := session.closings + closed.toList.length },
        close x.descriptors closed⟩

/-- A connection is accepted.  If no thread can be created its client is cleaned up. -/
inductive AcceptStep (x : System) : System → Prop where
  | of {fd : Int} {i : Slot} {s' : Server} {pc : Pc} (hfd : x.descriptors fd = none)
      (h : x.server.connect fd = some (i, s')) (hpc : pc = .login ∨ pc = .cleaning .unnamed) :
    AcceptStep x
      ⟨s', x.sessions ++ [⟨i, pc, fd, 0⟩], Function.update x.descriptors fd x.sessions.length⟩

/-- A step of any of the handlers or of the accept loop. -/
def Step (x x' : System) : Prop := AcceptStep x x' ∨ ∃ k, HandlerStep k x x'

/-- The systems that are reached from the start in any order of steps. -/
def Reachable (x : System) : Prop := ReflTransGen Step initial x

/-- A step of a handler that is alone. -/
theorem step_alone {s s' : Server} {i : Slot} {pc pc' : Pc} {fd : Int} {closings : Nat}
    {closed : Option Int} (descriptors : Int → Option Nat) (h : Handles i s pc s' pc' closed) :
  Step ⟨s, [⟨i, pc, fd, closings⟩], descriptors⟩
    ⟨s', [⟨i, pc', fd, closings + closed.toList.length⟩], close descriptors closed⟩
  := by
  right
  use 0
  exact @HandlerStep.of 0 ⟨s, [⟨i, pc, fd, closings⟩], descriptors⟩ ⟨i, pc, fd, closings⟩ s' pc'
    closed rfl h

end System

end ChatServer
