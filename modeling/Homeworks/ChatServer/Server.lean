import Mathlib.Algebra.GroupWithZero.Nat
import Mathlib.Data.List.Basic
import Mathlib.Data.List.FinRange

/-!
# The chat server

What the server sends to its clients, the tables of clients and rooms, and the functions that
maintain them.  A pointer to a client is its index in the table.  An array with a count is the list
of its first entries.  The address and the thread of a client and the log are left out.

What a function does while it holds `rooms_mutex` or `clients_mutex` is a function of its
own; the others are composed of these.
-/

namespace ChatServer

/-- A C string; a character stands for one byte. -/
abbrev Text := List Char

/-- The messages of the server, with what they are made of. -/
inductive Message where
  | serverFull
  | invalidUsername
  | usernameTaken
  | welcome
  | invalidRoomName
  | alreadyInRoom
  | roomIsFull
  | joinRoom (room : Text)
  | invalidRoom
  | notInRoom
  | leaveRoom
  | chatMessage (room user text : Text)
  | messageBroadcasted
  | cannotWhisperSelf
  | userNotFound
  | whisperMessage (user text : Text)
  | whisperSent (user : Text)
  | logout
  | userJoined (user room : Text)
  | userRejoined (user room : Text)
  | userLeft (user room : Text)
  | serverShutdown
  | sendToSelf
  | fileIsLarge (size : Int)
  | wrongExtension
  | fileQueueFull
  | fileQueueStillFull
  | fileQueued (position : Int)
  | fileTransferStarted (filename : Text) (seconds : Int)
  | fileReceived (user filename : Text)
  | fileTransferComplete (filename user : Text)
  deriving DecidableEq

/-! ### Tables -/

abbrev MAX_CLIENTS : Nat := 100

instance : NeZero MAX_CLIENTS := ⟨nofun⟩

abbrev MAX_ROOMS : Nat := 50

abbrev MAX_USERS_PER_ROOM : Nat := 15

abbrev MAX_USERNAME_LEN : Nat := 16

abbrev MAX_ROOM_NAME_LEN : Nat := 32

structure Client where
  socket : Int
  username : Text
  currentRoom : Text
  previouslyJoinedRooms : List Text
  active : Bool
  receivedFiles : List Text
  deriving DecidableEq

/-- A pointer to a client. -/
abbrev Slot := Fin MAX_CLIENTS

structure Room where
  name : Text
  users : List Slot
  active : Bool
  deriving DecidableEq

structure Server where
  clients : Slot → Client
  rooms : Fin MAX_ROOMS → Room
  clientCount : Int
  roomCount : Int

/-- A message to a socket, which is `none` where it is uninitialized. -/
abbrev Sent := Option Int × Message

/-- The room is full. -/
def Room.full (room : Room) : Bool := room.users.length ≥ MAX_USERS_PER_ROOM

namespace Server

/-- The server when it starts. -/
def initial : Server where
  clients := fun _ => ⟨0, [], [], [], false, []⟩
  rooms := fun _ => ⟨[], [], false⟩
  clientCount := 0
  roomCount := 0

def setClient (s : Server) (i : Slot) (c : Client) : Server :=
  { s with clients := Function.update s.clients i c }

def setRoom (s : Server) (r : Fin MAX_ROOMS) (room : Room) : Server :=
  { s with rooms := Function.update s.rooms r room }

/-- A message to a client. -/
def send (s : Server) (i : Slot) (message : Message) : Sent := (some (s.clients i).socket, message)

/-! ### Names -/

def isValidUsername (username : Text) : Bool :=
  !(username.length > MAX_USERNAME_LEN || username.length = 0) && username.all Char.isAlphanum

def isValidRoomName (roomName : Text) : Bool :=
  !(roomName.length = 0 || roomName.length > MAX_ROOM_NAME_LEN)
    && roomName.all Char.isAlphanum

theorem of_isValidRoomName {roomName : Text} (h : isValidRoomName roomName = true) :
  roomName ≠ [] ∧ roomName.length ≤ MAX_ROOM_NAME_LEN
  := by
  simp only [isValidRoomName, Bool.and_eq_true] at h
  simpa using h.1

/-! ### Rooms -/

/-- The first active room with a name. -/
def findRoom (s : Server) (roomName : Text) : Option (Fin MAX_ROOMS) :=
  (List.finRange MAX_ROOMS).find? fun r => (s.rooms r).active && (s.rooms r).name = roomName

/-- Makes a room of the first entry that is not active. -/
def createRoom (s : Server) (roomName : Text) : Option (Fin MAX_ROOMS × Server) :=
  match (List.finRange MAX_ROOMS).find? fun r => !(s.rooms r).active with
  | some r => some (r, { s.setRoom r ⟨roomName, [], true⟩ with roomCount := s.roomCount + 1 })
  | none => none

/-- The loop of `leave_room` over the users of a room: the users that remain, and those to
notify.  Where a user is removed the later ones are shifted, and the index stays. -/
def removeUser (client : Slot) : Nat → Nat → List Slot → List Slot → List Slot × List Slot
  | 0, _, users, notify => (users, notify)
  | fuel + 1, i, users, notify =>
      match users[i]? with
      | none => (users, notify)
      | some user =>
          if user = client then
            removeUser client fuel i (users.eraseIdx i) notify
          else
            removeUser client fuel (i + 1) users (notify ++ [user])

/-- What `leave_room` does while it holds `rooms_mutex`, and the sockets to notify. -/
def leaveRegion (s : Server) (client : Slot) (roomName : Text) : Server × List Int :=
  let left (s : Server) := s.setClient client { s.clients client with currentRoom := [] }
  match s.findRoom roomName with
  | none => (left s, [])
  | some r =>
      let room := s.rooms r
      let (users, notify) := removeUser client room.users.length 0 room.users []
      let sockets := notify.map fun user => (s.clients user).socket
      if users.length = 0 then
        (left { s.setRoom r { room with users := users, active := false } with
          roomCount := s.roomCount - 1 }, sockets)
      else
        (left (s.setRoom r { room with users := users }), sockets)

def leaveRoom (s : Server) (client : Slot) : Server × List Sent :=
  let roomName := (s.clients client).currentRoom
  let notification := .userLeft (s.clients client).username roomName
  let (s', sockets) := s.leaveRegion client roomName
  (s', sockets.map fun socket => (some socket, notification))

/-- Adds a client to a room; it is recorded that it has joined the room unless this is so
already or there is no space. -/
def addUser (s : Server) (client : Slot) (r : Fin MAX_ROOMS) (roomName : Text)
    (rejoining : Bool) : Server :=
  let c := s.clients client
  let record :=
    if !rejoining && c.previouslyJoinedRooms.length < MAX_ROOMS then
      c.previouslyJoinedRooms ++ [roomName.take MAX_ROOM_NAME_LEN]
    else
      c.previouslyJoinedRooms
  (s.setRoom r { s.rooms r with users := (s.rooms r).users ++ [client] }).setClient client
    { c with
      currentRoom := roomName.take MAX_ROOM_NAME_LEN
      previouslyJoinedRooms := record }

/-- The sockets `join_room` sends its notification to: those of all users but the last,
where they differ from that of the client. -/
def notified (s : Server) (client : Slot) (users : List Slot) : List (Option Int) :=
  let sockets := users.map fun user =>
    if (s.clients user).socket ≠ (s.clients client).socket then
      some (s.clients user).socket
    else
      none
  sockets.take (users.length - 1)

/-- What `join_room` does while it holds `rooms_mutex` for the last time, and the sockets to
notify. -/
def joinRegion (s : Server) (client : Slot) (roomName : Text) (rejoining : Bool) :
    Option (Server × List (Option Int)) :=
  let found :=
    match s.findRoom roomName with
    | some r => some (r, s)
    | none => s.createRoom roomName
  match found with
  | none => none
  | some (r, s) =>
      let s' := s.addUser client r roomName rejoining
      some (s', s'.notified client (s'.rooms r).users)

/-- The client has a record of having joined the room. -/
def rejoining (s : Server) (client : Slot) (roomName : Text) : Bool :=
  (s.clients client).previouslyJoinedRooms.any fun room => room = roomName

/-- Whether a client joins a room, and what is sent. -/
def joinRoom (s : Server) (client : Slot) (roomName : Text) : Bool × Server × List Sent :=
  let rejoining := s.rejoining client roomName
  let (s₁, sent) :=
    if (s.clients client).currentRoom.length > 0 then s.leaveRoom client else (s, [])
  match s₁.joinRegion client roomName rejoining with
  | none => (false, s₁, sent)
  | some (s₂, sockets) =>
      let username := (s₂.clients client).username
      let notification :=
        if rejoining then .userRejoined username roomName else .userJoined username roomName
      (true, s₂, sent ++ sockets.map fun socket => (socket, notification))

/-! ### Clients -/

/-- What `main` does with a new connection while it holds `clients_mutex`: the client is put
into the first entry that is not active. -/
def connect (s : Server) (socket : Int) : Option (Slot × Server) :=
  match (List.finRange MAX_CLIENTS).find? fun i => !(s.clients i).active with
  | none => none
  | some i =>
      some (i, { s.setClient i { s.clients i with
          socket := socket
          active := true
          username := []
          currentRoom := [] } with
        clientCount := s.clientCount + 1 })

/-- Whether an active client has a username. -/
def usernameTaken (s : Server) (username : Text) : Bool :=
  (List.finRange MAX_CLIENTS).any fun i =>
    (s.clients i).active && (s.clients i).username = username

/-- A username received in the first loop of `client_handler`. -/
def login (s : Server) (client : Slot) (buffer : Text) : Server × Message :=
  if !isValidUsername buffer then
    (s, .invalidUsername)
  else if s.usernameTaken buffer then
    (s, .usernameTaken)
  else
    (s.setClient client { s.clients client with username := buffer }, .welcome)

/-- The capacity check of `client_handler`: the room exists and is full. -/
def roomIsFull (s : Server) (roomName : Text) : Bool :=
  match s.findRoom roomName with
  | some r => (s.rooms r).full
  | none => false

/-- The command `/join`. -/
def join (s : Server) (client : Slot) (roomName : Text) : Server × List Sent :=
  if !isValidRoomName roomName then
    (s, [s.send client .invalidRoomName])
  else if (s.clients client).currentRoom = roomName then
    (s, [s.send client .alreadyInRoom])
  else if s.roomIsFull roomName then
    (s, [s.send client .roomIsFull])
  else
    match s.joinRoom client roomName with
    | (true, s', sent) => (s', sent ++ [s'.send client (.joinRoom roomName)])
    | (false, s', sent) => (s', sent ++ [s'.send client .invalidRoom])

/-- The command `/leave`. -/
def leave (s : Server) (client : Slot) : Server × List Sent :=
  if (s.clients client).currentRoom.length = 0 then
    (s, [s.send client .notInRoom])
  else
    let (s', sent) := s.leaveRoom client
    (s', sent ++ [s'.send client .leaveRoom])

/-- What `cleanup_client` does while it holds `clients_mutex`. -/
def cleanupRegion (s : Server) (client : Slot) : Server × List Sent :=
  let (s, sent) :=
    if (s.clients client).currentRoom.length > 0 then s.leaveRoom client else (s, [])
  ({ s.setClient client { s.clients client with
      active := false
      username := []
      currentRoom := [] } with
    clientCount := s.clientCount - 1 }, sent)

def cleanupClient (s : Server) (client : Slot) : Server × List Sent :=
  if !(s.clients client).active then (s, []) else s.cleanupRegion client

/-- The command `/exit`. -/
def exit (s : Server) (client : Slot) : Server × List Sent :=
  let (s', sent) := s.cleanupClient client
  (s', s.send client .logout :: sent)

/-- `recv` fails while commands are read, and the client is cleaned up twice. -/
def disconnect (s : Server) (client : Slot) : Server × List Sent :=
  let (s₁, sent) := s.cleanupClient client
  let (s₂, sent') := s₁.cleanupClient client
  (s₂, sent ++ sent')

/-! ### What is changed of the clients -/

/-- Leaving a room changes the client that leaves only. -/
theorem leaveRegion_clients (s : Server) (client : Slot) (roomName : Text) :
  (s.leaveRegion client roomName).1.clients
    = Function.update s.clients client { s.clients client with currentRoom := [] }
  := by
  simp only [leaveRegion]
  split
  · rfl
  · split
    · rfl
    · rfl

theorem leaveRoom_clients (s : Server) (client : Slot) :
  (s.leaveRoom client).1.clients
    = Function.update s.clients client { s.clients client with currentRoom := [] }
  := s.leaveRegion_clients client (s.clients client).currentRoom

theorem createRoom_clients {s s' : Server} {roomName : Text} {r : Fin MAX_ROOMS}
    (h : s.createRoom roomName = some (r, s')) :
  s'.clients = s.clients
  := by
  unfold createRoom at h
  split at h
  · cases h
    rfl
  · cases h

/-- A client that joins is added to a room that has been found or created. -/
theorem of_joinRegion {s s' : Server} {client : Slot} {roomName : Text} {rejoining : Bool}
    {sockets : List (Option Int)}
    (h : s.joinRegion client roomName rejoining = some (s', sockets)) :
  ∃ (s₀ : Server) (r : Fin MAX_ROOMS),
    s₀.clients = s.clients ∧ s' = s₀.addUser client r roomName rejoining
  := by
  simp only [joinRegion] at h
  cases hf : s.findRoom roomName with
  | some r =>
      rw [hf] at h
      cases h
      exact ⟨s, r, rfl, rfl⟩
  | none =>
      rw [hf] at h
      dsimp only at h
      cases hc : s.createRoom roomName with
      | none =>
          rw [hc] at h
          cases h
      | some p =>
          obtain ⟨r, s₀⟩ := p
          rw [hc] at h
          cases h
          exact ⟨s₀, r, createRoom_clients hc, rfl⟩

end Server

/-! ### File transfers

What the server checks of a request to send a file, and what it sends and records when the
request is processed.  No file is sent, only messages.
-/

abbrev MAX_FILE_QUEUE : Nat := 5

abbrev MAX_RECEIVED_FILES : Nat := 50

abbrev BUFFER_SIZE : Nat := 4096

structure FileTransferRequest where
  sender : Slot
  receiver : Slot
  filename : Text
  fileSize : Int
  queueTime : Int
  active : Bool
  deriving DecidableEq

namespace Server

def findClientByUsername (s : Server) (username : Text) : Option Slot :=
  (List.finRange MAX_CLIENTS).find? fun i =>
    (s.clients i).active && (s.clients i).username = username

/-- What follows the last dot of a file name. -/
def extension (filename : Text) : Option Text :=
  if '.' ∈ filename then
    some (filename.reverse.takeWhile (· ≠ '.')).reverse
  else
    none

def hasValidExtension (filename : Text) : Bool :=
  match extension filename with
  | some extension =>
      ["txt", "pdf", "jpg", "png"].any fun valid => extension.map Char.toLower = valid.toList
  | none => false

/-- The checks of `handle_file_transfer`: the reply to a request that is rejected, or the
target of one that is to be added to the queue. -/
def handleFileTransfer (s : Server) (client : Slot) (filename targetUsername : Text)
    (fileSize : Int) : Except Message Slot :=
  if (s.clients client).username = targetUsername then
    .error .sendToSelf
  else if fileSize > 3 * 1024 * 1024 then
    .error (.fileIsLarge fileSize)
  else if !hasValidExtension filename then
    .error .wrongExtension
  else
    match s.findClientByUsername targetUsername with
    | none => .error .userNotFound
    | some target => .ok target

def fileExistsForReceiver (s : Server) (receiver : Slot) (filename : Text) : Bool :=
  (s.clients receiver).receivedFiles.any fun file => file = filename

def addFileToReceiver (s : Server) (receiver : Slot) (filename : Text) : Server :=
  let c := s.clients receiver
  if c.receivedFiles.length < MAX_RECEIVED_FILES then
    s.setClient receiver { c with
      receivedFiles := c.receivedFiles ++ [filename.take (BUFFER_SIZE - 1)] }
  else
    s

/-- What `process_file_transfer` sends before it sleeps. -/
def transferStarted (s : Server) (request : FileTransferRequest) (now : Int) : Sent :=
  s.send request.sender (.fileTransferStarted request.filename (now - request.queueTime))

/-- What `process_file_transfer` does after it has slept. -/
def transferFile (s : Server) (request : FileTransferRequest) : Server × List Sent :=
  let s' :=
    if s.fileExistsForReceiver request.receiver request.filename then
      s
    else
      s.addFileToReceiver request.receiver request.filename
  (s',
    [s'.send request.receiver
        (.fileReceived (s'.clients request.sender).username request.filename),
      s'.send request.sender
        (.fileTransferComplete request.filename (s'.clients request.receiver).username)])

end Server

end ChatServer
