import Homeworks.CString.Text
import Homeworks.ChatServer.Server
import Mathlib.Data.List.TakeWhile
import Mathlib.Tactic.SplitIfs

/-!
# The commands of the server

What `client_handler` does with what it receives from a client that is logged in.
-/

namespace ChatServer

/-- A command, with what follows its name. -/
inductive Command where
  | join (roomName : Text)
  | leave
  | broadcast (messageContent : Text)
  | whisper (rest : Text)
  | sendfile (params : Text)
  | exit
  deriving DecidableEq

/-- What a call of `recv` leaves in the buffer. -/
def received (chunk : Text) : Text :=
  (CString.string chunk).takeWhile fun c => c ≠ '\r' ∧ c ≠ '\n'

/-- The command that is in the buffer. -/
def command (buffer : Text) : Option Command :=
  if "/join ".toList <+: buffer then
    some (.join (buffer.drop 6))
  else if buffer = "/leave".toList then
    some .leave
  else if "/broadcast ".toList <+: buffer then
    some (.broadcast (buffer.drop 11))
  else if "/whisper ".toList <+: buffer then
    some (.whisper (buffer.drop 9))
  else if "/sendfile ".toList <+: buffer then
    some (.sendfile (buffer.drop 10))
  else if buffer = "/exit".toList then
    some .exit
  else
    none

/-- The commands that are executed when `recv` returns some chunks. -/
def clientHandler : List Text → List Command
  | [] => []
  | chunk :: chunks =>
      match command (received chunk) with
      | none => clientHandler chunks
      | some .exit => [.exit]
      | some c => c :: clientHandler chunks

/-- The chunks in which `recv` returns some bytes. -/
structure Segments (bytes : Text) (chunks : List Text) : Prop where
  flatten : chunks.flatten = bytes
  size : ∀ chunk ∈ chunks, 0 < chunk.length ∧ chunk.length < BUFFER_SIZE

/-- The text of a command. -/
def Command.text : Command → Text
  | join roomName => "/join ".toList ++ roomName
  | leave => "/leave".toList
  | broadcast messageContent => "/broadcast ".toList ++ messageContent
  | whisper rest => "/whisper ".toList ++ rest
  | sendfile params => "/sendfile ".toList ++ params
  | exit => "/exit".toList

variable {buffer chunk : Text} {chunks : List Text} {c : Command}

/-- A command is all that is in the buffer. -/
theorem text_eq (h : command buffer = some c) :
  c.text = buffer
  := by
  have hdrop : ∀ {p : Text}, p <+: buffer → p ++ buffer.drop p.length = buffer := by
    intro p hp
    exact List.prefix_iff_eq_append.mp hp
  simp only [command] at h
  split at h
  · rename_i hp
    cases h
    exact hdrop hp
  · split at h
    · rename_i hleave
      cases h
      exact hleave.symm
    · split at h
      · rename_i hp
        cases h
        exact hdrop hp
      · split at h
        · rename_i hp
          cases h
          exact hdrop hp
        · split at h
          · rename_i hp
            cases h
            exact hdrop hp
          · split at h
            · rename_i hexit
              cases h
              exact hexit.symm
            · cases h

/-- The names of the commands that have arguments. -/
def verbs : List Text :=
  ["/join ".toList, "/broadcast ".toList, "/whisper ".toList, "/sendfile ".toList]

/-- What starts with the name of a command is one. -/
theorem command_of_verb {verb : Text} (hverb : verb ∈ verbs) (h : verb <+: buffer) :
  ∃ c, command buffer = some c
  := by
  rw [← Option.ne_none_iff_exists']
  intro hnone
  simp only [command] at hnone
  split_ifs at hnone with hjoin hleave hbroadcast hwhisper hsendfile hexit
  simp only [verbs, List.mem_cons, List.not_mem_nil, or_false] at hverb
  rcases hverb with rfl | rfl | rfl | rfl
  · exact hjoin h
  · exact hbroadcast h
  · exact hwhisper h
  · exact hsendfile h

theorem prefix_received (chunk : Text) :
  received chunk <+: chunk
  := (List.takeWhile_prefix _).trans (List.takeWhile_prefix _)

/-- The buffer holds a chunk if nothing in the chunk ends a line or a string. -/
theorem received_eq_iff :
  received chunk = chunk ↔ ∀ x ∈ chunk, x ≠ '\x00' ∧ x ≠ '\r' ∧ x ≠ '\n'
  := by
  constructor
  · intro h x hx
    rw [← h] at hx
    constructor
    · simpa using List.mem_takeWhile_imp ((List.takeWhile_prefix _).subset hx)
    · simpa using List.mem_takeWhile_imp hx
  · intro h
    have hstring : CString.string chunk = chunk := by
      rw [CString.string, List.takeWhile_eq_self_iff]
      intro x hx
      simpa using (h x hx).1
    rw [received, hstring, List.takeWhile_eq_self_iff]
    intro x hx
    simpa using (h x hx).2

/-- The texts of the commands that are executed. -/
def executed (chunks : List Text) : List Text := (clientHandler chunks).map Command.text

theorem clientHandler_eq :
  clientHandler (chunk :: chunks) = match command (received chunk) with
    | none => clientHandler chunks
    | some .exit => [.exit]
    | some c => c :: clientHandler chunks
  := rfl

theorem clientHandler_cons (h : command (received chunk) = some c) (hc : c ≠ .exit) :
  clientHandler (chunk :: chunks) = c :: clientHandler chunks
  := by
  rw [clientHandler_eq, h]
  cases c with
  | exit => exact absurd rfl hc
  | join | leave | broadcast | whisper | sendfile => rfl

theorem executed_none (h : command (received chunk) = none) :
  executed (chunk :: chunks) = executed chunks
  := by rw [executed, clientHandler_eq, h, executed]

theorem executed_some (h : command (received chunk) = some c) :
  executed (chunk :: chunks) = received chunk :: if c = .exit then [] else executed chunks
  := by
  rw [executed, clientHandler_eq, h, ← text_eq h]
  cases c <;> rfl

/-- No more is executed than has been received. -/
theorem length_executed (chunks : List Text) :
  (executed chunks).flatten.length ≤ chunks.flatten.length
  := by
  induction chunks with
  | nil => exact le_rfl
  | cons chunk chunks ih =>
      have hreceived := (prefix_received chunk).length_le
      rw [List.flatten_cons, List.length_append]
      cases hc : command (received chunk) with
      | none =>
          rw [executed_none hc]
          apply Nat.le_add_left_of_le ih
      | some c =>
          rw [executed_some hc, List.flatten_cons, List.length_append]
          split
          · apply Nat.add_le_add hreceived (Nat.zero_le _)
          · apply Nat.add_le_add hreceived ih

/-- If as much is executed as has been received every chunk is a command. -/
theorem executed_eq (hpos : ∀ chunk ∈ chunks, 0 < chunk.length)
    (h : chunks.flatten.length ≤ (executed chunks).flatten.length) :
  executed chunks = chunks ∧ ∀ chunk ∈ chunks, received chunk = chunk
  := by
  induction chunks with
  | nil => exact ⟨rfl, by simp⟩
  | cons chunk chunks ih =>
      obtain ⟨hchunk, hchunks⟩ := List.forall_mem_cons.mp hpos
      have hreceived := (prefix_received chunk).length_le
      have hrest := length_executed chunks
      rw [List.flatten_cons, List.length_append] at h
      cases hc : command (received chunk) with
      | none =>
          rw [executed_none hc] at h
          omega
      | some c =>
          rw [executed_some hc, List.flatten_cons, List.length_append] at h
          have htail : (if c = .exit then [] else executed chunks).flatten.length
              ≤ chunks.flatten.length := by
            split
            · exact Nat.zero_le _
            · exact hrest
          have hsame : received chunk = chunk := by
            apply (prefix_received chunk).eq_of_length
            omega
          rw [executed_some hc, List.forall_mem_cons, hsame]
          by_cases hexit : c = .exit
          · have hnil : chunks = [] := by
              rw [if_pos hexit, List.flatten_nil, List.length_nil] at h
              cases chunks with
              | nil => rfl
              | cons next chunks =>
                  have hnext := hchunks next List.mem_cons_self
                  rw [List.flatten_cons, List.length_append] at h
                  omega
            rw [if_pos hexit, hnil]
            simp
          · rw [if_neg hexit] at h
            obtain ⟨hexecuted, hall⟩ := ih hchunks (by omega)
            rw [if_neg hexit, hexecuted]
            exact ⟨rfl, rfl, hall⟩

end ChatServer
