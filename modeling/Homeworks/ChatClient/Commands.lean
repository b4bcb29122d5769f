import Homeworks.CString.Format

/-!
# The commands of a client

What the main loop of the chat client sends to the server.
-/

namespace ChatClient

/-- A C string; a character stands for one byte. -/
abbrev Text := List Char

abbrev MAX_BUFFER : Nat := 4096

/-- What `fgets` reads of the standard input, without its newline, and the size of the file
that it names if there is such a file. -/
structure Input where
  line : Text
  fileSize : Option Int
  line_ok : ∀ c ∈ line, c ≠ '\n' ∧ c ≠ '\x00'

/-- The delimiter of the words of a command. -/
def isBlank (c : Char) : Bool := c = ' '

/-- What `handle_file_send` sends. -/
def handleFileSend (fileSize : Option Int) (filename targetUser : Text) : Option Text :=
  fileSize.map fun size =>
    CString.snprintf MAX_BUFFER ("/sendfile ".toList ++ (filename ++ " ".toList
      ++ targetUser.take 16 ++ " ".toList ++ CString.decimal size))

/-- The string that is sent for a line. -/
def command (input : Input) : Option Text :=
  if input.line.head? ≠ some '/' then
    none
  else
    match CString.strtok isBlank input.line with
    | none => none
    | some (command, rest) =>
        if command = "/exit".toList then
          some command
        else if command = "/join".toList then
          let restOfCommand := (input.line.drop 6).dropWhile CString.isSpace
          if restOfCommand.isEmpty then
            none
          else
            some (CString.snprintf MAX_BUFFER ("/join ".toList ++ restOfCommand))
        else if command = "/sendfile".toList then
          match CString.strtok isBlank rest with
          | none => none
          | some (filename, rest) =>
              match CString.strtok isBlank rest with
              | none => none
              | some (targetUser, _) => handleFileSend input.fileSize filename targetUser
        else if command = "/leave".toList then
          some command
        else if command = "/broadcast".toList then
          let message := input.line.drop 11
          if message.isEmpty then
            none
          else
            some (CString.snprintf MAX_BUFFER ("/broadcast ".toList ++ message))
        else if command = "/whisper".toList then
          match CString.strtok isBlank rest with
          | none => none
          | some (targetUser, message) =>
              if message.isEmpty then
                none
              else
                some (CString.snprintf MAX_BUFFER ("/whisper ".toList ++ (targetUser
                  ++ " ".toList ++ message)))
        else
          none

/-- The strings that are sent, each by one call of `send_command`, for the lines of the
standard input. -/
def sends : List Input → List Text
  | [] => []
  | input :: inputs =>
      match command input with
      | none => sends inputs
      | some c => if c = "/exit".toList then [c] else c :: sends inputs

end ChatClient
