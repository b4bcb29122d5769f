import Homeworks.CString.Format
import Homeworks.CString.Memory
import Homeworks.ChatServer.Commands
import Homeworks.ChatServer.Notifications

/-!
# The parsing of commands

What `client_handler` does with what it receives from a client that is logged in, where the
accesses to the buffer and to local arrays are checked.  The calls of `snprintf`, which are
given the sizes of their arrays, are left out.
-/

open CString
open Relation

namespace ChatServer

/-- What a command does: the server after it, the messages that are sent, and the receiver,
the name and the size of the file that are handed to `add_to_file_queue`. -/
structure Outcome where
  server : Server
  sent : List Sent
  request : Option (Slot × Text × Int)

namespace Server

/-- The array of a client that holds a text. -/
def stored (text : Text) : List Char := text ++ ['\x00']

/-- The array of `leave_room`. -/
def leaveRoomArray (s : Server) (client : Slot) : Checked Unit := do
  let roomName ← strncpy (localArray MAX_ROOM_NAME_LEN) (stored (s.clients client).currentRoom)
    MAX_ROOM_NAME_LEN
  let _ ← write roomName MAX_ROOM_NAME_LEN ['\x00']

/-- The array `old_room` of `join_room` and of `client_handler`. -/
def oldRoomArray (s : Server) (client : Slot) : Checked Unit := do
  let oldRoom ← strncpy (localArray (MAX_ROOM_NAME_LEN + 1))
    (stored (s.clients client).currentRoom) MAX_ROOM_NAME_LEN
  let _ ← write oldRoom MAX_ROOM_NAME_LEN ['\x00']

/-- The loop of `join_room` that collects the sockets of the other users. -/
def clientSockets (s : Server) (client : Slot) :
    Nat → List Slot → List (Option Int) → Checked (List (Option Int))
  | _, [], sockets => .ok sockets
  | k, user :: users, sockets =>
      if (s.clients user).socket ≠ (s.clients client).socket then do
        let sockets ← write sockets k [some (s.clients user).socket]
        clientSockets s client (k + 1) users sockets
      else
        clientSockets s client (k + 1) users sockets

/-- The users of a room are read from its array, as far as its count says. -/
def readUsers (room : Room) : Checked (List Slot) :=
  if room.users.length ≤ MAX_USERS_PER_ROOM then .ok room.users else .error .readOutside

/-- The arrays of `join_room`.  The client is in the room that is then found, where it has been
stored after the other users. -/
def joinRoomArrays (s : Server) (client : Slot) (roomName : Text) : Checked Unit := do
  if (s.clients client).currentRoom.length > 0 then
    oldRoomArray s client
    leaveRoomArray s client
  let (joined, s', _) := s.joinRoom client roomName
  match joined, s'.findRoom roomName with
  | true, some r =>
      let _ ← write (List.replicate MAX_USERS_PER_ROOM none) ((s'.rooms r).users.length - 1)
        [some client]
      let users ← readUsers (s'.rooms r)
      let _ ← clientSockets s' client 0 users (List.replicate MAX_USERS_PER_ROOM none)
  | _, _ => .ok ()

/-- The command `/join`. -/
def parseJoin (s : Server) (client : Slot) (rest : List Char) : Checked Outcome := do
  let roomName ← strcpy (localArray BUFFER_SIZE) rest
  let roomName ← read roomName
  if isValidRoomName roomName && (s.clients client).currentRoom ≠ roomName
      && !s.roomIsFull roomName then
    joinRoomArrays s client roomName
  let (s', sent) := s.join client roomName
  return ⟨s', sent, none⟩

/-- The command `/leave`. -/
def parseLeave (s : Server) (client : Slot) : Checked Outcome := do
  if (s.clients client).currentRoom.length ≠ 0 then
    oldRoomArray s client
    leaveRoomArray s client
  let (s', sent) := s.leave client
  return ⟨s', sent, none⟩

def findClientBySocket (s : Server) (socket : Int) : Option Slot :=
  (List.finRange MAX_CLIENTS).find? fun i => (s.clients i).active && (s.clients i).socket = socket

/-- The array of `broadcast_to_room`. -/
def senderNameArray (s : Server) (client : Slot) : Checked Unit :=
  match s.findClientBySocket (s.clients client).socket with
  | none => .ok ()
  | some sender => do
      let _ ← strcpy (localArray (MAX_USERNAME_LEN + 1)) (stored (s.clients sender).username)

/-- The command `/broadcast`. -/
def parseBroadcast (s : Server) (client : Slot) (rest : List Char) : Checked Outcome := do
  if (s.clients client).currentRoom.length = 0 then
    return ⟨s, [s.send client .notInRoom], none⟩
  let messageContent ← read rest
  if let some r := s.findRoom (s.clients client).currentRoom then
    senderNameArray s client
    let _ ← readUsers (s.rooms r)
  return ⟨s, s.broadcast client messageContent, none⟩

/-- The command `/whisper`. -/
def parseWhisper (s : Server) (client : Slot) (rest : List Char) : Checked Outcome := do
  let messageStart ← strchr ' ' rest
  let usernameLen := min (← difference messageStart rest) MAX_USERNAME_LEN
  let targetUser ← strncpy (localArray (MAX_USERNAME_LEN + 1)) rest usernameLen
  let targetUser ← read (← write targetUser usernameLen ['\x00'])
  if targetUser = (s.clients client).username then
    return ⟨s, [s.send client .cannotWhisperSelf], none⟩
  match s.findClientByUsername targetUser with
  | none => return ⟨s, [s.send client .userNotFound], none⟩
  | some target =>
      match messageStart with
      | none => .error .nullPointer
      | some messageStart =>
          let message ← read (messageStart.drop 1)
          return ⟨s, [s.send target (.whisperMessage (s.clients client).username message),
            s.send client (.whisperSent targetUser)], none⟩

/-- What `sscanf` reads of the command `/sendfile`: a file name, a username and a size, as far
as they are there. -/
def fields (params : Text) : Option Text × Option Text × Option Int :=
  match scanWord params with
  | none => (none, none, none)
  | some (filename, rest) =>
      match scanWord rest with
      | none => (some filename, none, none)
      | some (target, rest) => (some filename, some target, (scanLong rest).map Prod.fst)

/-- A word that is written to an array of zeros, and the string that is then in the array. -/
def scanned (size : Nat) (word : Option Text) : Checked Text :=
  match word with
  | none => .ok []
  | some word => do read (← write (localArray size) 0 (word ++ ['\x00']))

/-- The command `/sendfile`. -/
def parseSendfile (s : Server) (client : Slot) (rest : List Char) : Checked Outcome := do
  let (filename, target, size) := fields (← read rest)
  let filename ← scanned BUFFER_SIZE filename
  let targetUsername ← scanned (MAX_USERNAME_LEN + 1) target
  let fileSize := size.getD 0
  match s.handleFileTransfer client filename targetUsername fileSize with
  | .error reply => return ⟨s, [s.send client reply], none⟩
  | .ok target => return ⟨s, [], some (target, filename, fileSize)⟩

/-- What `client_handler` does with the command that is in the buffer.  Where the name of the
command ends its arguments start, and the string ends with a terminator. -/
def parse (s : Server) (client : Slot) : Option Command → Checked Outcome
  | none => .ok ⟨s, [], none⟩
  | some (.join roomName) => parseJoin s client (roomName ++ ['\x00'])
  | some .leave => parseLeave s client
  | some (.broadcast messageContent) => parseBroadcast s client (messageContent ++ ['\x00'])
  | some (.whisper rest) => parseWhisper s client (rest ++ ['\x00'])
  | some (.sendfile params) => parseSendfile s client (params ++ ['\x00'])
  | some .exit => do
      if (s.clients client).currentRoom.length > 0 then
        leaveRoomArray s client
      let (s', sent) := s.exit client
      return ⟨s', sent, none⟩

end Server

end ChatServer
