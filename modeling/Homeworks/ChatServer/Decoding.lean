import Homeworks.CString.Format
import Homeworks.ChatClient.Messages
import Homeworks.ChatServer.Server
import Mathlib.Data.List.TakeDrop

/-!
# What the client reads of a message

The bytes that the chat server sends for a message.  The client takes the right branch for every
message, and reads what the server has put in unless that is cut off by the server or is too long
for an array of the client.
-/

/-! ### The texts of messages -/

namespace ChatServer

abbrev MAX_MESSAGE_LEN : Nat := 1024

namespace Message

/-- What `client_handler` makes of a message for a room. -/
def formattedMessage (room user text : Text) : Text :=
  CString.snprintf (MAX_MESSAGE_LEN + 5)
    ("[".toList ++ room.take 32 ++ "] ".toList ++ user.take 16 ++ ": ".toList ++ text)

/-- The text of a message. -/
def encode : Message → Text
  | serverFull => "SERVER_FULL".toList
  | invalidUsername => "INVALID_USERNAME".toList
  | usernameTaken => "USERNAME_TAKEN".toList
  | welcome => "WELCOME".toList
  | invalidRoomName => "INVALID_ROOM_NAME".toList
  | alreadyInRoom => "ALREADY_IN_ROOM".toList
  | roomIsFull => "ROOM_IS_FULL".toList
  | joinRoom room => CString.snprintf BUFFER_SIZE ("JOIN_ROOM ".toList ++ room.take 32)
  | invalidRoom => "INVALID_ROOM".toList
  | notInRoom => "NOT_IN_ROOM".toList
  | leaveRoom => "LEAVE_ROOM".toList
  | chatMessage room user text =>
      CString.snprintf 1050 ("CHAT_MESSAGE ".toList ++ formattedMessage room user text)
  | messageBroadcasted => "MESSAGE_BROADCASTED".toList
  | cannotWhisperSelf => "CANNOT_WHISPER_SELF".toList
  | userNotFound => "USER_NOT_FOUND".toList
  | whisperMessage user text =>
      CString.snprintf BUFFER_SIZE ("WHISPER_MESSAGE ".toList ++ user ++ " ".toList ++ text)
  | whisperSent user => CString.snprintf BUFFER_SIZE ("WHISPER_SENT ".toList ++ user)
  | logout => "LOGOUT".toList
  | userJoined user room =>
      CString.snprintf BUFFER_SIZE ("USER_JOINED ".toList ++ user ++ " ".toList ++ room)
  | userRejoined user room =>
      CString.snprintf BUFFER_SIZE ("USER_REJOINED ".toList ++ user ++ " ".toList ++ room)
  | userLeft user room =>
      CString.snprintf BUFFER_SIZE
        ("USER_LEFT ".toList ++ user.take 16 ++ " ".toList ++ room.take 32)
  | serverShutdown => "SERVER_SHUTDOWN".toList
  | sendToSelf => "SEND_TO_SELF".toList
  | fileIsLarge size =>
      CString.snprintf BUFFER_SIZE ("FILE_IS_LARGE ".toList ++ CString.decimal size)
  | wrongExtension => "WRONG_EXTENSION".toList
  | fileQueueFull => "FILE_QUEUE_FULL".toList
  | fileQueueStillFull => "FILE_QUEUE_STILL_FULL".toList
  | fileQueued position =>
      CString.snprintf BUFFER_SIZE ("FILE_QUEUED ".toList ++ CString.decimal position)
  | fileTransferStarted filename seconds =>
      CString.snprintf BUFFER_SIZE ("FILE_TRANSFER_STARTED ".toList ++ filename.take 256
        ++ " ".toList ++ CString.decimal seconds)
  | fileReceived user filename =>
      CString.snprintf BUFFER_SIZE
        ("FILE_RECEIVED ".toList ++ user.take 16 ++ " ".toList ++ filename.take 256)
  | fileTransferComplete filename user =>
      CString.snprintf BUFFER_SIZE
        ("FILE_TRANSFER_COMPLETE ".toList ++ filename.take 256 ++ " ".toList ++ user.take 16)

end Message

/-! ### What the client reads of a message -/

open ChatClient (Notice Locals receiveMessages)

/-- A text that a command can have: it ends before the end of a line or of a string. -/
def IsText (text : Text) : Prop := ∀ c ∈ text, c ≠ '\x00' ∧ c ≠ '\r' ∧ c ≠ '\n'

instance (text : Text) : Decidable (IsText text) :=
  List.decidableBAll (fun c => c ≠ '\x00' ∧ c ≠ '\r' ∧ c ≠ '\n') text

/-- A file name that a command can have. -/
structure IsFilename (filename : Text) : Prop where
  text : IsText filename
  word : CString.Word filename

namespace Message

/-- The names, texts and numbers of a message are those that the server can have. -/
def Legal : Message → Prop
  | joinRoom room => Server.isValidRoomName room = true
  | chatMessage room user text =>
      Server.isValidRoomName room = true ∧ Server.isValidUsername user = true ∧ IsText text
  | whisperMessage user text => Server.isValidUsername user = true ∧ IsText text
  | whisperSent user => Server.isValidUsername user = true
  | userJoined user room | userRejoined user room | userLeft user room =>
      Server.isValidUsername user = true ∧ Server.isValidRoomName room = true
  | fileIsLarge size => -2 ^ 63 ≤ size ∧ size < 2 ^ 63
  | fileQueued position => -2 ^ 31 ≤ position ∧ position < 2 ^ 31
  | fileTransferStarted filename seconds =>
      IsFilename filename ∧ -2 ^ 31 ≤ seconds ∧ seconds < 2 ^ 31
  | fileReceived user filename | fileTransferComplete filename user =>
      Server.isValidUsername user = true ∧ IsFilename filename
  | _ => True

/-- The text of a message for a room. -/
def chatText (room user text : Text) : Text :=
  "[".toList ++ room ++ "] ".toList ++ user ++ ": ".toList ++ text

/-- What the client is to print for a message. -/
def notice : Message → Notice
  | serverFull => .serverFull
  | invalidUsername => .invalidUsername
  | usernameTaken => .usernameTaken
  | welcome => .welcome
  | invalidRoomName => .invalidRoomName
  | alreadyInRoom => .alreadyInRoom
  | roomIsFull => .roomIsFull
  | joinRoom room => .joinRoom room
  | invalidRoom => .invalidRoom
  | notInRoom => .notInRoom
  | leaveRoom => .leaveRoom
  | chatMessage room user text => .chatMessage (chatText room user text)
  | messageBroadcasted => .messageBroadcasted
  | cannotWhisperSelf => .cannotWhisperSelf
  | userNotFound => .userNotFound
  | whisperMessage user text => .whisperMessage user text
  | whisperSent user => .whisperSent user
  | logout => .logout
  | userJoined user room => .userJoined user room
  | userRejoined user room => .userRejoined user room
  | userLeft user room => .userLeft user room
  | serverShutdown => .serverShutdown
  | sendToSelf => .sendToSelf
  | fileIsLarge size => .fileIsLarge size
  | wrongExtension => .wrongExtension
  | fileQueueFull => .fileQueueFull
  | fileQueueStillFull => .fileQueueStillFull
  | fileQueued position => .fileQueued position
  | fileTransferStarted filename seconds => .fileTransferStarted filename seconds
  | fileReceived user filename => .fileReceived user filename
  | fileTransferComplete filename user => .fileTransferComplete filename user

/-- What the client prints for a message: `main` reads the responses to a username, and
`receive_messages` all other messages. -/
def decode (l : Locals) (m : Message) : Option Notice :=
  match m with
  | serverFull | invalidUsername | usernameTaken | welcome =>
      some (ChatClient.loginResponse m.encode)
  | _ => receiveMessages l m.encode

/-- A message is neither cut off nor too long for the arrays of the client. -/
def Fits : Message → Prop
  | chatMessage room user text =>
      room.length + user.length + text.length + 5 < ChatClient.MAX_MESSAGE_SIZE
  | whisperMessage user text =>
      (text.dropWhile CString.isSpace).length < ChatClient.MAX_MESSAGE_SIZE
        ∧ user.length + text.length + 17 < BUFFER_SIZE
  | fileTransferStarted filename _ | fileReceived _ filename | fileTransferComplete filename _ =>
      filename.length ≤ 256
  | _ => True

end Message

/-! ### Names -/

/-- A word that the server prints in full and that has room in an array of the client. -/
structure Field (size : Nat) (s : Text) : Prop where
  word : CString.Word s
  fits : s.length < size
  short : s.length ≤ 400

section Names

open ChatClient (MAX_USERNAME MAX_ROOM_NAME MAX_BUFFER)

variable {user room filename : Text}

theorem username_length (h : Server.isValidUsername user = true) :
  user ≠ [] ∧ user.length ≤ 16
  := by
  simp only [Server.isValidUsername, Bool.and_eq_true] at h
  obtain ⟨hlength, -⟩ := h
  simp only [Bool.not_eq_true', Bool.or_eq_false_iff, decide_eq_false_iff_not, not_lt] at hlength
  refine ⟨?_, hlength.1⟩
  rintro rfl
  exact hlength.2 rfl

theorem username_alphanum (h : Server.isValidUsername user = true) :
  ∀ c ∈ user, c.isAlphanum = true
  := by
  simp only [Server.isValidUsername, Bool.and_eq_true, List.all_eq_true] at h
  exact h.2

theorem username_field (h : Server.isValidUsername user = true) :
  Field MAX_USERNAME user
  := by
  obtain ⟨hne, hlength⟩ := username_length h
  constructor
  · exact .of_alphanum hne (username_alphanum h)
  · exact Nat.lt_succ_of_le hlength
  · exact hlength.trans (by decide)

theorem roomName_alphanum (h : Server.isValidRoomName room = true) :
  ∀ c ∈ room, c.isAlphanum = true
  := by
  simp only [Server.isValidRoomName, Bool.and_eq_true, List.all_eq_true] at h
  exact h.2

theorem roomName_field (h : Server.isValidRoomName room = true) :
  Field MAX_ROOM_NAME room
  := by
  obtain ⟨hne, hlength⟩ := Server.of_isValidRoomName h
  constructor
  · exact .of_alphanum hne (roomName_alphanum h)
  · exact Nat.lt_succ_of_le hlength
  · exact hlength.trans (by decide)

/-- The first characters of a file name are a word. -/
theorem filename_field (h : IsFilename filename) :
  Field MAX_BUFFER (filename.take 256)
  := by
  have hlength : (filename.take 256).length ≤ 256 := List.length_take_le _ _
  constructor
  · constructor
    · rw [ne_eq, List.take_eq_nil_iff, not_or]
      exact ⟨by decide, h.word.ne_nil⟩
    · intro c hc
      apply h.word.noSpace c (List.mem_of_mem_take hc)
  · exact hlength.trans_lt (by decide)
  · exact hlength.trans (by decide)

theorem username_take (h : Server.isValidUsername user = true) :
  user.take 16 = user
  := List.take_of_length_le (username_length h).2

theorem roomName_take (h : Server.isValidRoomName room = true) :
  room.take 32 = room
  := List.take_of_length_le (Server.of_isValidRoomName h).2

end Names

namespace Message

section Fields

open ChatClient (MAX_USERNAME MAX_ROOM_NAME MAX_BUFFER receiveMessages_eq)

variable {user room filename : Text} {n : Int} (l : Locals)

/-- What is short is printed in full. -/
theorem snprintf_short {s t : Text} (hs : s.length ≤ 100) (ht : t.length ≤ 1000) :
  CString.snprintf BUFFER_SIZE (s ++ t) = s ++ t
  := by
  apply CString.snprintf_eq
  rw [List.length_append]
  calc
    s.length + t.length ≤ 100 + 1000 := Nat.add_le_add hs ht
    _ < BUFFER_SIZE := by decide

/-! ### Messages with one field -/

/-- A word is printed, and the branch for it reads one word. -/
theorem receive_one {p q s : Text} {offset size : Nat} {test : ChatClient.Test}
    {f : Text → Notice}
    (hbranch : ChatClient.branches.find? (fun branch => branch.test.admits p)
      = some ⟨test, fun _ => ChatClient.receiveOne offset size f⟩)
    (haccepts : test.accepts p = true) (hp : p = q ++ " ".toList) (hq : q.length = offset)
    (hoffset : offset < 100) (hs : Field size s) :
  receiveMessages l (CString.snprintf BUFFER_SIZE (p ++ s)) = some (f s)
  := by
  have hlength : p.length ≤ 100 := by
    rw [hp, List.length_append, hq]
    exact hoffset
  have hread : ChatClient.scanOne size (' ' :: s) = some s := ChatClient.scanOne_eq hs.word hs.fits
  have hrest : (p ++ s).drop offset = ' ' :: s := by
    rw [hp, ← hq, List.append_assoc, List.drop_left]
    rfl
  rw [snprintf_short hlength (hs.short.trans (by decide)),
    receiveMessages_eq s l hbranch haccepts]
  simp only [ChatClient.receiveOne, hrest, hread, Option.map_some]

theorem decode_joinRoom (hroom : Server.isValidRoomName room = true) :
  decode l (joinRoom room) = some (.joinRoom room)
  := by
  change receiveMessages l (CString.snprintf BUFFER_SIZE ("JOIN_ROOM ".toList ++ room.take 32)) = _
  rw [roomName_take hroom]
  exact receive_one (q := "JOIN_ROOM".toList) l rfl rfl rfl rfl (by decide) (roomName_field hroom)

theorem decode_whisperSent (huser : Server.isValidUsername user = true) :
  decode l (whisperSent user) = some (.whisperSent user)
  := receive_one (q := "WHISPER_SENT".toList) l rfl rfl rfl rfl (by decide) (username_field huser)

/-! ### Messages with two fields -/

/-- Two words are printed, and the branch for them reads two words. -/
theorem receive_two {p s t : Text} {offset size size' : Nat} {test : ChatClient.Test}
    {f : Text → Text → Notice}
    (hbranch : ChatClient.branches.find? (fun branch => branch.test.admits p)
      = some ⟨test, fun _ => ChatClient.receiveTwo offset size size' f⟩)
    (haccepts : test.accepts p = true) (hp : p.length = offset) (hoffset : offset ≤ 100)
    (hs : Field size s) (ht : Field size' t) :
  receiveMessages l (CString.snprintf BUFFER_SIZE (p ++ s ++ " ".toList ++ t)) = some (f s t)
  := by
  have hread : ChatClient.scanTwo size size' (s ++ ' ' :: t) = some (s, t) :=
    ChatClient.scanTwo_eq hs.word hs.fits ht.word ht.fits
  have hlength : (s ++ ' ' :: t).length ≤ 1000 := by
    have hs' := hs.short
    have ht' := ht.short
    rw [List.length_append, List.length_cons]
    omega
  have hprint : CString.snprintf BUFFER_SIZE (p ++ s ++ " ".toList ++ t)
    = p ++ (s ++ ' ' :: t) := by
    rw [List.append_assoc, List.append_assoc]
    apply snprintf_short (hp.trans_le hoffset) hlength
  rw [hprint, receiveMessages_eq (s ++ ' ' :: t) l hbranch haccepts]
  simp only [ChatClient.receiveTwo, ← hp, List.drop_left, hread, Option.map_some]

theorem decode_userJoined (huser : Server.isValidUsername user = true)
    (hroom : Server.isValidRoomName room = true) :
  decode l (userJoined user room) = some (.userJoined user room)
  := receive_two (p := "USER_JOINED ".toList) l rfl rfl rfl (by decide) (username_field huser)
    (roomName_field hroom)

theorem decode_userRejoined (huser : Server.isValidUsername user = true)
    (hroom : Server.isValidRoomName room = true) :
  decode l (userRejoined user room) = some (.userRejoined user room)
  := receive_two (p := "USER_REJOINED ".toList) l rfl rfl rfl (by decide) (username_field huser)
    (roomName_field hroom)

theorem decode_userLeft (huser : Server.isValidUsername user = true)
    (hroom : Server.isValidRoomName room = true) :
  decode l (userLeft user room) = some (.userLeft user room)
  := by
  change receiveMessages l (CString.snprintf BUFFER_SIZE
    ("USER_LEFT ".toList ++ user.take 16 ++ " ".toList ++ room.take 32)) = _
  rw [username_take huser, roomName_take hroom]
  exact receive_two l rfl rfl rfl (by decide) (username_field huser) (roomName_field hroom)

/-- The first characters of the file name are read. -/
theorem decode_fileReceived (huser : Server.isValidUsername user = true)
    (hfilename : IsFilename filename) :
  decode l (fileReceived user filename) = some (.fileReceived user (filename.take 256))
  := by
  change receiveMessages l (CString.snprintf BUFFER_SIZE
    ("FILE_RECEIVED ".toList ++ user.take 16 ++ " ".toList ++ filename.take 256)) = _
  rw [username_take huser]
  exact receive_two l rfl rfl rfl (by decide) (username_field huser) (filename_field hfilename)

theorem decode_fileTransferComplete (huser : Server.isValidUsername user = true)
    (hfilename : IsFilename filename) :
  decode l (fileTransferComplete filename user)
    = some (.fileTransferComplete (filename.take 256) user)
  := by
  change receiveMessages l (CString.snprintf BUFFER_SIZE
    ("FILE_TRANSFER_COMPLETE ".toList ++ filename.take 256 ++ " ".toList ++ user.take 16)) = _
  rw [username_take huser]
  exact receive_two l rfl rfl rfl (by decide) (filename_field hfilename) (username_field huser)

/-! ### Messages with a number -/

/-- An `int` or a `long` has few digits. -/
theorem length_number (h : -2 ^ 63 ≤ n) (h' : n < 2 ^ 63) :
  (CString.decimal n).length ≤ 20
  := by
  apply CString.length_decimal (by decide)
  omega

theorem decode_fileIsLarge (h : -2 ^ 63 ≤ n) (h' : n < 2 ^ 63) :
  decode l (fileIsLarge n) = some (.fileIsLarge n)
  := by
  have hlength := length_number h h'
  have hread : CString.scanLong (CString.decimal n) = some (n, []) := by
    have hread := CString.scanLong_decimal CString.endsNumber_nil h h'
    rwa [List.append_nil] at hread
  change receiveMessages l (CString.snprintf BUFFER_SIZE
    ("FILE_IS_LARGE ".toList ++ CString.decimal n)) = _
  rw [snprintf_short (by decide) (by omega), receiveMessages_eq (CString.decimal n) l rfl rfl]
  have hrest : ("FILE_IS_LARGE ".toList ++ CString.decimal n).drop 14 = CString.decimal n :=
    List.drop_left' rfl
  simp only [ChatClient.receiveFileIsLarge, hrest, hread]

theorem decode_fileQueued (h : -2 ^ 31 ≤ n) (h' : n < 2 ^ 31) :
  decode l (fileQueued n) = some (.fileQueued n)
  := by
  have hlength : (CString.decimal n).length ≤ 20 := by
    apply length_number <;> omega
  have hread : CString.scanInt (CString.decimal n) = some (n, []) := by
    have hread := CString.scanInt_decimal CString.endsNumber_nil h h'
    rwa [List.append_nil] at hread
  change receiveMessages l (CString.snprintf BUFFER_SIZE
    ("FILE_QUEUED ".toList ++ CString.decimal n)) = _
  rw [snprintf_short (by decide) (by omega), receiveMessages_eq (CString.decimal n) l rfl rfl]
  have hrest : ("FILE_QUEUED ".toList ++ CString.decimal n).drop 12 = CString.decimal n :=
    List.drop_left' rfl
  simp only [ChatClient.receiveFileQueued, hrest, hread]

/-- The first characters of the file name and the number are read. -/
theorem decode_fileTransferStarted (hfilename : IsFilename filename) (h : -2 ^ 31 ≤ n)
    (h' : n < 2 ^ 31) :
  decode l (fileTransferStarted filename n) = some (.fileTransferStarted (filename.take 256) n)
  := by
  have hfield := filename_field hfilename
  have hlength : (CString.decimal n).length ≤ 20 := by
    apply length_number <;> omega
  have hshort : (filename.take 256 ++ ' ' :: CString.decimal n).length ≤ 1000 := by
    have hfilename' := hfield.short
    rw [List.length_append, List.length_cons]
    omega
  have hprint : CString.snprintf BUFFER_SIZE
      ("FILE_TRANSFER_STARTED ".toList ++ filename.take 256 ++ " ".toList ++ CString.decimal n)
        = "FILE_TRANSFER_STARTED ".toList ++ (filename.take 256 ++ ' ' :: CString.decimal n) := by
    rw [List.append_assoc, List.append_assoc]
    apply snprintf_short (by decide) hshort
  have hword : CString.scanWord (filename.take 256 ++ ' ' :: CString.decimal n)
      = some (filename.take 256, ' ' :: CString.decimal n) :=
    CString.scanWord_append hfield.word CString.endsWord_space
  have hnumber : CString.scanInt (' ' :: CString.decimal n) = some (n, []) := by
    have hread := CString.scanInt_decimal CString.endsNumber_nil h h'
    rwa [List.append_nil] at hread
  have hrest : ("FILE_TRANSFER_STARTED ".toList
      ++ (filename.take 256 ++ ' ' :: CString.decimal n)).drop 22
        = filename.take 256 ++ ' ' :: CString.decimal n :=
    List.drop_left' rfl
  change receiveMessages l (CString.snprintf BUFFER_SIZE
    ("FILE_TRANSFER_STARTED ".toList ++ filename.take 256 ++ " ".toList ++ CString.decimal n)) = _
  rw [hprint, receiveMessages_eq _ l rfl rfl]
  simp only [ChatClient.receiveTransferStarted, hrest, hword, ChatClient.store_eq hfield.fits,
    hnumber, Option.map_some]

/-! ### Messages with a text -/

variable {text : Text}

theorem chatText_length :
  (chatText room user text).length = room.length + user.length + text.length + 5
  := by
  simp only [chatText, List.length_append]
  change 1 + room.length + 2 + user.length + 2 + text.length = _
  omega

theorem chatText_newline (hroom : Server.isValidRoomName room = true)
    (huser : Server.isValidUsername user = true) (htext : IsText text) :
  '\n' ∉ chatText room user text
  := by
  have hword : ∀ {s : Text}, CString.Word s → '\n' ∉ s := by
    intro s hs hmem
    cases hs.noSpace _ hmem
  have hfixed : '\n' ∉ "[".toList ∧ '\n' ∉ "] ".toList ∧ '\n' ∉ ": ".toList := by decide
  intro h
  simp only [chatText, List.mem_append] at h
  rcases h with ((((h | h) | h) | h) | h) | h
  · exact hfixed.1 h
  · exact hword (roomName_field hroom).word h
  · exact hfixed.2.1 h
  · exact hword (username_field huser).word h
  · exact hfixed.2.2 h
  · exact (htext _ h).2.2 rfl

/-- The room, the user and the text of a message for a room are all in its text. -/
theorem chatText_inj {room' user' text' : Text} (hroom : Server.isValidRoomName room = true)
    (hroom' : Server.isValidRoomName room' = true) (huser : Server.isValidUsername user = true)
    (huser' : Server.isValidUsername user' = true)
    (h : chatText room user text = chatText room' user' text') :
  room = room' ∧ user = user' ∧ text = text'
  := by
  have hform : ∀ room user text : Text,
      chatText room user text = '[' :: (room ++ ']' :: ' ' :: (user ++ ':' :: ' ' :: text)) := by
    simp [chatText]
  rw [hform, hform] at h
  obtain ⟨hrooms, hrest⟩ := CString.delimited_inj rfl (roomName_alphanum hroom)
    (roomName_alphanum hroom') (List.cons.inj h).2
  obtain ⟨husers, hrest⟩ := CString.delimited_inj rfl (username_alphanum huser)
    (username_alphanum huser') (List.cons.inj hrest).2
  exact ⟨hrooms, husers, (List.cons.inj hrest).2⟩

theorem formattedMessage_eq (hroom : Server.isValidRoomName room = true)
    (huser : Server.isValidUsername user = true) :
  formattedMessage room user text = (chatText room user text).take 1028
  := by
  rw [formattedMessage, roomName_take hroom, username_take huser, CString.snprintf, chatText]
  rfl

/-- A message for a room is read unless it is too long for the array of the client. -/
theorem decode_chatMessage (hroom : Server.isValidRoomName room = true)
    (huser : Server.isValidUsername user = true) (htext : IsText text) :
  decode l (chatMessage room user text)
    = (ChatClient.store ChatClient.MAX_MESSAGE_SIZE (formattedMessage room user text)).map
      .chatMessage
  := by
  have hlength : (formattedMessage room user text).length ≤ 1028 := List.length_take_le _ _
  have hprint : CString.snprintf 1050 ("CHAT_MESSAGE ".toList ++ formattedMessage room user text)
      = "CHAT_MESSAGE ".toList ++ formattedMessage room user text := by
    apply CString.snprintf_eq
    calc
      ("CHAT_MESSAGE ".toList ++ formattedMessage room user text).length
        = 13 + (formattedMessage room user text).length := List.length_append
      _ < 1050 := by omega
  have hread : CString.scanLine (formattedMessage room user text)
      = some (formattedMessage room user text, []) := by
    rw [formattedMessage_eq hroom huser]
    apply CString.scanLine_eq
    · rintro ⟨⟩
    · intro h
      exact chatText_newline hroom huser htext (List.mem_of_mem_take h)
  have hrest : ("CHAT_MESSAGE ".toList ++ formattedMessage room user text).drop 13
      = formattedMessage room user text := List.drop_left' rfl
  change receiveMessages l
    (CString.snprintf 1050 ("CHAT_MESSAGE ".toList ++ formattedMessage room user text)) = _
  rw [hprint, receiveMessages_eq _ l rfl rfl]
  simp only [ChatClient.receiveChat, hrest, hread]

/-- What is read of a whisper is what is printed of it, unless it is too long for the array of
the client. -/
theorem receive_whisper (huser : Server.isValidUsername user = true) (htext : '\n' ∉ text) :
  receiveMessages l ("WHISPER_MESSAGE ".toList ++ (user ++ ' ' :: text))
    = (ChatClient.store ChatClient.MAX_MESSAGE_SIZE (text.dropWhile CString.isSpace)).map fun _ =>
      .whisperMessage user text
  := by
  have hfield := username_field huser
  have hblank : ∀ c ∈ user, decide (c ≠ ' ') = true := by
    intro c hc
    rw [decide_eq_true_iff]
    rintro rfl
    cases hfield.word.noSpace _ hc
  have hcontent : ((("WHISPER_MESSAGE ".toList ++ (user ++ ' ' :: text)).drop 16).dropWhile
      (· ≠ ' ')).drop 1 = text := by
    have hdrop : ("WHISPER_MESSAGE ".toList ++ (user ++ ' ' :: text)).drop 16
      = user ++ ' ' :: text :=
      List.drop_left' rfl
    rw [hdrop, CString.dropWhile_append hblank]
    · rfl
    · rintro c ⟨⟩
      rfl
  have hword : CString.scanWord (("WHISPER_MESSAGE ".toList ++ (user ++ ' ' :: text)).drop 15)
      = some (user, ' ' :: text) := CString.scanWord_append hfield.word CString.endsWord_space
  have hskip : (' ' :: text).dropWhile CString.isSpace = text.dropWhile CString.isSpace := rfl
  rw [receiveMessages_eq _ l rfl rfl]
  simp only [ChatClient.receiveWhisper, hcontent, hword, ChatClient.store_eq hfield.fits, hskip,
    Option.bind_eq_bind, Option.bind_some]
  by_cases hempty : text.dropWhile CString.isSpace = []
  · rw [hempty]
    rfl
  · have hnewline : '\n' ∉ text.dropWhile CString.isSpace := by
      intro h
      exact htext ((List.dropWhile_suffix _).subset h)
    rw [CString.scanLine_eq hempty hnewline]

/-- A whisper is cut off if it is too long for the buffer of the server. -/
theorem decode_whisperMessage (huser : Server.isValidUsername user = true) :
  decode l (whisperMessage user text)
    = receiveMessages l
      ("WHISPER_MESSAGE ".toList ++ (user ++ ' ' :: text.take (4078 - user.length)))
  := by
  have hlength := (username_field huser).short
  have hstart : ("WHISPER_MESSAGE ".toList ++ user ++ " ".toList).length = 17 + user.length := by
    rw [List.length_append, List.length_append]
    change 16 + user.length + 1 = _
    omega
  have hprint : CString.snprintf BUFFER_SIZE
      ("WHISPER_MESSAGE ".toList ++ user ++ " ".toList ++ text)
        = "WHISPER_MESSAGE ".toList ++ (user ++ ' ' :: text.take (4078 - user.length)) := by
    have hrest : BUFFER_SIZE - 1 - (17 + user.length) = 4078 - user.length := by
      change 4096 - 1 - (17 + user.length) = _
      omega
    rw [CString.snprintf, List.take_append, hstart, hrest, List.take_of_length_le,
      List.append_assoc, List.append_assoc]
    · rfl
    · rw [hstart]
      change 17 + user.length ≤ 4095
      omega
  change receiveMessages l (CString.snprintf BUFFER_SIZE
    ("WHISPER_MESSAGE ".toList ++ user ++ " ".toList ++ text)) = _
  rw [hprint]

end Fields

/-! ### All messages -/

section All

variable {m : Message} {l : Locals} {room user text filename : Text}

theorem chatMessage_decoded_iff (h : Legal (chatMessage room user text)) :
  decode l (chatMessage room user text) = some (notice (chatMessage room user text))
    ↔ Fits (chatMessage room user text)
  := by
  obtain ⟨hroom, huser, htext⟩ := h
  rw [decode_chatMessage l hroom huser htext, formattedMessage_eq hroom huser, notice, Fits,
    ← chatText_length, ChatClient.store]
  by_cases hfits : (chatText room user text).length < ChatClient.MAX_MESSAGE_SIZE
  · have htake : (chatText room user text).take 1028 = chatText room user text :=
      (List.take_eq_self_iff _).mpr (hfits.le.trans (by decide))
    rw [htake, if_pos hfits]
    exact iff_of_true rfl hfits
  · have hlong : ¬ ((chatText room user text).take 1028).length < ChatClient.MAX_MESSAGE_SIZE := by
      rw [List.length_take, not_lt]
      exact Nat.le_min.mpr ⟨by decide, not_lt.mp hfits⟩
    rw [if_neg hlong]
    exact iff_of_false nofun hfits

theorem whisperMessage_decoded_iff (h : Legal (whisperMessage user text)) :
  decode l (whisperMessage user text) = some (notice (whisperMessage user text))
    ↔ Fits (whisperMessage user text)
  := by
  obtain ⟨huser, htext⟩ := h
  have hlength := (username_length huser).2
  have hnewline : '\n' ∉ text.take (4078 - user.length) := by
    intro hmem
    exact (htext _ (List.mem_of_mem_take hmem)).2.2 rfl
  have hroom : user.length + text.length + 17 < BUFFER_SIZE ↔ text.length ≤ 4078 - user.length := by
    change user.length + text.length + 17 < 4096 ↔ _
    omega
  rw [decode_whisperMessage l huser, receive_whisper l huser hnewline, notice, Fits, hroom,
    ← List.take_eq_self_iff]
  constructor
  · intro hread
    obtain ⟨stored, hstored, hnotice⟩ := Option.map_eq_some_iff.mp hread
    have htake := (Notice.whisperMessage.inj hnotice).2
    rw [htake] at hstored
    refine ⟨?_, htake⟩
    by_contra hlong
    rw [ChatClient.store, if_neg hlong] at hstored
    cases hstored
  · rintro ⟨hshort, htake⟩
    rw [htake, ChatClient.store_eq hshort, Option.map_some]

/-- The client takes the branch for a message and reads all of it if and only if the message
fits. -/
theorem decoded_iff (l : Locals) (m : Message) (h : Legal m) :
  decode l m = some (notice m) ↔ Fits m
  := by
  cases m with
  | chatMessage => exact chatMessage_decoded_iff h
  | whisperMessage => exact whisperMessage_decoded_iff h
  | joinRoom room => exact iff_of_true (decode_joinRoom l h) trivial
  | whisperSent user => exact iff_of_true (decode_whisperSent l h) trivial
  | userJoined user room => exact iff_of_true (decode_userJoined l h.1 h.2) trivial
  | userRejoined user room => exact iff_of_true (decode_userRejoined l h.1 h.2) trivial
  | userLeft user room => exact iff_of_true (decode_userLeft l h.1 h.2) trivial
  | fileIsLarge size => exact iff_of_true (decode_fileIsLarge l h.1 h.2) trivial
  | fileQueued position => exact iff_of_true (decode_fileQueued l h.1 h.2) trivial
  | fileTransferStarted filename seconds =>
      rw [decode_fileTransferStarted l h.1 h.2.1 h.2.2]
      simp [notice, Fits]
  | fileReceived user filename =>
      rw [decode_fileReceived l h.1 h.2]
      simp [notice, Fits]
  | fileTransferComplete filename user =>
      rw [decode_fileTransferComplete l h.1 h.2]
      simp [notice, Fits]
  | _ => exact iff_of_true rfl trivial

/-- What a whisper prints. -/
theorem decoded_iff_whisper :
  decode ⟨[], []⟩ (whisperMessage "ada".toList " good morning".toList)
    = some (.whisperMessage "ada".toList " good morning".toList)
  := by
  have hlegal : Legal (whisperMessage "ada".toList " good morning".toList) :=
    ⟨by decide, by decide⟩
  have hfits : Fits (whisperMessage "ada".toList " good morning".toList) := ⟨by decide, by decide⟩
  exact (decoded_iff ⟨[], []⟩ _ hlegal).mpr hfits

/-- A message for a room of 1024 characters is stored outside of the array of the client. -/
theorem chatMessage_overflows :
  ¬ ∀ l m, Legal m → decode l m = some (notice m)
  := by
  intro hall
  have hlegal : Legal (chatMessage "tea".toList "ada".toList (List.replicate 1013 'x')) := by
    refine ⟨by decide, by decide, ?_⟩
    intro c hc
    rw [List.eq_of_mem_replicate hc]
    decide
  have hfits := (chatMessage_decoded_iff hlegal).mp (hall ⟨[], []⟩ _ hlegal)
  rw [Fits, List.length_replicate] at hfits
  revert hfits
  decide

end All

end Message

end ChatServer
