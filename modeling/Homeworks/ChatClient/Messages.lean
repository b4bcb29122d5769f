import Homeworks.ChatClient.Commands

/-!
# The messages that a client receives

How the chat client tells the messages of the server apart, and what it reads of each.  A
store outside of an array has no result, and what follows a string in the buffer is taken to
be empty.
-/

namespace ChatClient

abbrev MAX_USERNAME : Nat := 17

abbrev MAX_ROOM_NAME : Nat := 33

abbrev MAX_MESSAGE_SIZE : Nat := 1024

/-- What the client prints, with what it has read. -/
inductive Notice where
  | usernameTaken
  | invalidUsername
  | welcome
  | serverFull
  | unexpected (response : Text)
  | chatMessage (message : Text)
  | invalidRoomName
  | joinRoom (roomName : Text)
  | roomIsFull
  | invalidRoom
  | notInRoom
  | leaveRoom
  | messageBroadcasted
  | cannotWhisperSelf
  | whisperMessage (sender messageContent : Text)
  | whisperSent (target : Text)
  | userNotFound
  | logout
  | alreadyInRoom
  | serverShutdown
  | userJoined (username roomName : Text)
  | userRejoined (username roomName : Text)
  | userLeft (username roomName : Text)
  | wrongExtension
  | fileIsLarge (fileSize : Int)
  | sendToSelf
  | fileQueueFull
  | fileQueueStillFull
  | fileQueued (position : Int)
  | fileTransferStarted (filename : Text) (seconds : Int)
  | fileReceived (sender filename : Text)
  | fileTransferComplete (filename receiver : Text)
  | fileTransferFailed (filename receiver reason : Text)
  | nothing
  deriving DecidableEq

/-- What `main` prints for the response to a username. -/
def loginResponse (response : Text) : Notice :=
  if response = "USERNAME_TAKEN".toList then
    .usernameTaken
  else if response = "INVALID_USERNAME".toList then
    .invalidUsername
  else if response = "WELCOME".toList then
    .welcome
  else if response = "SERVER_FULL".toList then
    .serverFull
  else
    .unexpected response

/-! ### Arrays -/

/-- What is in the arrays `message` and `sender` before anything is stored in them. -/
structure Locals where
  message : Text
  sender : Text

/-- A string is stored in an array of a size. -/
def store (size : Nat) (s : Text) : Option Text := if s.length < size then some s else none

/-- `%s` into an array that has been set to zero. -/
def scanOne (size : Nat) (s : Text) : Option Text :=
  match CString.scanWord s with
  | none => some []
  | some (word, _) => store size word

/-- `%s %s` into two arrays that have been set to zero. -/
def scanTwo (size size' : Nat) (s : Text) : Option (Text × Text) :=
  match CString.scanWord s with
  | none => some ([], [])
  | some (word, rest) => do
      let first ← store size word
      let second ← scanOne size' rest
      some (first, second)

/-! ### Branches -/

/-- The branch of a chat message. -/
def receiveChat (l : Locals) (buffer : Text) : Option Notice :=
  match CString.scanLine (buffer.drop 13) with
  | none => some (.chatMessage l.message)
  | some (message, _) => (store MAX_MESSAGE_SIZE message).map .chatMessage

/-- The branch of a whisper.  What is printed is not what has been stored in `message`. -/
def receiveWhisper (l : Locals) (buffer : Text) : Option Notice :=
  let messageContent := ((buffer.drop 16).dropWhile (· ≠ ' ')).drop 1
  match CString.scanWord (buffer.drop 15) with
  | none => some (.whisperMessage l.sender messageContent)
  | some (word, rest) => do
      let sender ← store MAX_USERNAME word
      match CString.scanLine (rest.dropWhile CString.isSpace) with
      | none => some (.whisperMessage sender messageContent)
      | some (message, _) =>
          (store MAX_MESSAGE_SIZE message).map fun _ => .whisperMessage sender messageContent

/-- A branch that reads one word. -/
def receiveOne (offset size : Nat) (notice : Text → Notice) (buffer : Text) : Option Notice :=
  (scanOne size (buffer.drop offset)).map notice

/-- A branch that reads two words. -/
def receiveTwo (offset size size' : Nat) (notice : Text → Text → Notice) (buffer : Text) :
    Option Notice :=
  (scanTwo size size' (buffer.drop offset)).map fun (first, second) => notice first second

def receiveFileIsLarge (buffer : Text) : Option Notice :=
  match CString.scanLong (buffer.drop 14) with
  | none => some (.fileIsLarge 0)
  | some (fileSize, _) => some (.fileIsLarge fileSize)

def receiveFileQueued (buffer : Text) : Option Notice :=
  match CString.scanInt (buffer.drop 12) with
  | none => some (.fileQueued 0)
  | some (position, _) => some (.fileQueued position)

def receiveTransferStarted (buffer : Text) : Option Notice :=
  match CString.scanWord (buffer.drop 22) with
  | none => some (.fileTransferStarted [] 0)
  | some (word, rest) =>
      (store MAX_BUFFER word).map fun filename =>
        match CString.scanInt rest with
        | none => .fileTransferStarted filename 0
        | some (seconds, _) => .fileTransferStarted filename seconds

def receiveTransferFailed (buffer : Text) : Option Notice :=
  match CString.scanWord (buffer.drop 21) with
  | none => some (.fileTransferFailed [] [] [])
  | some (word, rest) => do
      let filename ← store MAX_BUFFER word
      match CString.scanWord rest with
      | none => some (.fileTransferFailed filename [] [])
      | some (word, rest) => do
          let receiver ← store MAX_USERNAME word
          match CString.scanLine (rest.dropWhile CString.isSpace) with
          | none => some (.fileTransferFailed filename receiver [])
          | some (reason, _) =>
              (store MAX_BUFFER reason).map fun reason =>
                .fileTransferFailed filename receiver reason

/-! ### The chain -/

/-- A comparison with a string, or with the first characters of it. -/
inductive Test where
  | strcmp (s : String)
  | strncmp (s : String) (n : Nat)

namespace Test

/-- The buffer passes a comparison. -/
def passes (buffer : Text) : Test → Bool
  | strcmp s => buffer = s.toList
  | strncmp s n => buffer.take n = s.toList.take n

end Test

/-- A comparison, and what is done if the buffer passes it. -/
structure Branch where
  test : Test
  notice : Locals → Text → Option Notice

/-- A branch that prints a fixed text. -/
def fixed (s : String) (notice : Notice) : Branch := ⟨.strcmp s, fun _ _ => some notice⟩

/-- The branches of `receive_messages`. -/
def branches : List Branch := [
  ⟨.strncmp "CHAT_MESSAGE " 13, receiveChat⟩,
  fixed "INVALID_ROOM_NAME" .invalidRoomName,
  ⟨.strncmp "JOIN_ROOM" 9, fun _ => receiveOne 9 MAX_ROOM_NAME .joinRoom⟩,
  fixed "ROOM_IS_FULL" .roomIsFull,
  fixed "INVALID_ROOM" .invalidRoom,
  fixed "NOT_IN_ROOM" .notInRoom,
  fixed "LEAVE_ROOM" .leaveRoom,
  ⟨.strncmp "MESSAGE_BROADCASTED" 19, fun _ _ => some .messageBroadcasted⟩,
  fixed "CANNOT_WHISPER_SELF" .cannotWhisperSelf,
  ⟨.strncmp "WHISPER_MESSAGE" 15, receiveWhisper⟩,
  ⟨.strncmp "WHISPER_SENT" 12, fun _ => receiveOne 12 MAX_USERNAME .whisperSent⟩,
  fixed "USER_NOT_FOUND" .userNotFound,
  fixed "LOGOUT" .logout,
  fixed "ALREADY_IN_ROOM" .alreadyInRoom,
  fixed "SERVER_SHUTDOWN" .serverShutdown,
  ⟨.strncmp "USER_JOINED" 11, fun _ => receiveTwo 12 MAX_USERNAME MAX_ROOM_NAME .userJoined⟩,
  ⟨.strncmp "USER_REJOINED" 13, fun _ => receiveTwo 14 MAX_USERNAME MAX_ROOM_NAME .userRejoined⟩,
  ⟨.strncmp "USER_LEFT" 9, fun _ => receiveTwo 10 MAX_USERNAME MAX_ROOM_NAME .userLeft⟩,
  fixed "WRONG_EXTENSION" .wrongExtension,
  ⟨.strncmp "FILE_IS_LARGE" 13, fun _ => receiveFileIsLarge⟩,
  fixed "SEND_TO_SELF" .sendToSelf,
  fixed "ALREADY_IN_ROOM" .alreadyInRoom,
  fixed "SERVER_SHUTDOWN" .serverShutdown,
  fixed "FILE_QUEUE_FULL" .fileQueueFull,
  fixed "FILE_QUEUE_STILL_FULL" .fileQueueStillFull,
  ⟨.strncmp "FILE_QUEUED" 11, fun _ => receiveFileQueued⟩,
  ⟨.strncmp "FILE_TRANSFER_STARTED" 21, fun _ => receiveTransferStarted⟩,
  ⟨.strncmp "FILE_RECEIVED" 13, fun _ => receiveTwo 14 MAX_USERNAME MAX_BUFFER .fileReceived⟩,
  ⟨.strncmp "FILE_TRANSFER_COMPLETE" 22,
    fun _ => receiveTwo 23 MAX_BUFFER MAX_USERNAME .fileTransferComplete⟩,
  ⟨.strncmp "FILE_TRANSFER_FAILED" 20, fun _ => receiveTransferFailed⟩]

/-- What `receive_messages` prints for one message. -/
def receiveMessages (l : Locals) (buffer : Text) : Option Notice :=
  match branches.find? fun branch => branch.test.passes buffer with
  | none => some .nothing
  | some branch => branch.notice l buffer

/-! ### Which branch is taken -/

namespace Test

/-- Some text that starts with a given one may pass. -/
def admits (p : Text) : Test → Bool
  | strcmp s => p.isPrefixOf s.toList
  | strncmp s n => (p.take n).isPrefixOf (s.toList.take n)

/-- Every text that starts with a given one passes. -/
def accepts (p : Text) : Test → Bool
  | strcmp _ => false
  | strncmp s n => n ≤ p.length && p.take n = s.toList.take n

variable {p rest : Text} {test : Test}

theorem admits_of_passes (h : test.passes (p ++ rest) = true) :
  test.admits p = true
  := by
  cases test with
  | strcmp s =>
      have hs : p ++ rest = s.toList := by simpa [passes] using h
      rw [admits, List.isPrefixOf_iff_prefix, ← hs]
      apply List.prefix_append
  | strncmp s n =>
      have hs : (p ++ rest).take n = s.toList.take n := by simpa [passes] using h
      rw [admits, List.isPrefixOf_iff_prefix, ← hs, List.take_append]
      apply List.prefix_append

theorem passes_of_accepts (h : test.accepts p = true) :
  test.passes (p ++ rest) = true
  := by
  cases test with
  | strcmp s => cases h
  | strncmp s n =>
      simp only [accepts, Bool.and_eq_true, decide_eq_true_eq] at h
      simp only [passes, decide_eq_true_eq]
      rw [List.take_append_of_le_length h.1, h.2]

end Test

/-- The branch that is taken for the texts that start with a given one: the first that admits
one of them, if it accepts all. -/
theorem find_branch {p rest : Text} {branch : Branch} {bs : List Branch}
    (h : bs.find? (fun branch => branch.test.admits p) = some branch)
    (haccepts : branch.test.accepts p = true) :
  bs.find? (fun branch => branch.test.passes (p ++ rest)) = some branch
  := by
  induction bs with
  | nil => cases h
  | cons b bs ih =>
      rw [List.find?_cons] at h ⊢
      cases hadmits : b.test.admits p with
      | true =>
          rw [hadmits] at h
          cases h
          rw [Test.passes_of_accepts haccepts]
      | false =>
          have hpasses : b.test.passes (p ++ rest) = false := by
            rw [← Bool.not_eq_true]
            intro hpasses
            rw [Test.admits_of_passes hpasses] at hadmits
            cases hadmits
          rw [hadmits] at h
          rw [hpasses]
          apply ih h

/-- What is printed for the texts that start with a given one. -/
theorem receiveMessages_eq {p : Text} (rest : Text) {branch : Branch} (l : Locals)
    (h : branches.find? (fun branch => branch.test.admits p) = some branch)
    (haccepts : branch.test.accepts p = true) :
  receiveMessages l (p ++ rest) = branch.notice l (p ++ rest)
  := by rw [receiveMessages, find_branch h haccepts]

/-! ### What is read -/

section Reading

variable {s t : Text} {size size' : Nat}

theorem store_eq (h : s.length < size) :
  store size s = some s
  := if_pos h

theorem scanOne_eq (hs : CString.Word s) (h : s.length < size) :
  scanOne size s = some s
  := by
  rw [scanOne, CString.scanWord_eq hs]
  exact store_eq h

theorem scanTwo_eq (hs : CString.Word s) (h : s.length < size) (ht : CString.Word t)
    (h' : t.length < size') :
  scanTwo size size' (s ++ ' ' :: t) = some (s, t)
  := by
  have hrest : scanOne size' (' ' :: t) = some t := by
    rw [← scanOne_eq ht h']
    rfl
  rw [scanTwo, CString.scanWord_append hs CString.endsWord_space]
  simp only [store_eq h, hrest, Option.bind_eq_bind, Option.bind_some]

end Reading

end ChatClient
