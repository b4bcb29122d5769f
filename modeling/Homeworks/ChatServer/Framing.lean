import Homeworks.ChatClient.Commands
import Homeworks.ChatServer.Commands

/-!
# Commands and segments

The client sends its commands without terminators, and the server takes what one call of
`recv` returns for a command.
-/

namespace ChatServer

open ChatClient (Input sends)

/-- A text without newlines that is a string. -/
def Clean (t : Text) : Prop := ∀ x ∈ t, x ≠ '\n' ∧ x ≠ '\x00'

instance (t : Text) : Decidable (Clean t) :=
  List.decidableBAll (fun x => x ≠ '\n' ∧ x ≠ '\x00') t

namespace Clean

variable {s t : Text} {n : Int}

theorem subset (h : Clean t) (hs : s ⊆ t) :
  Clean s
  := fun x hx => h x (hs hx)

theorem append (hs : Clean s) (ht : Clean t) :
  Clean (s ++ t)
  := fun x hx => (List.mem_append.mp hx).elim (hs x) (ht x)

theorem snprintf {size : Nat} (h : Clean t) :
  Clean (CString.snprintf size t)
  := h.subset fun _ => CString.mem_of_mem_snprintf

theorem decimal :
  Clean (CString.decimal n)
  := by
  intro x hx
  rcases CString.of_mem_decimal hx with rfl | hdigit
  · decide
  · constructor
    · rintro rfl
      cases hdigit
    · rintro rfl
      cases hdigit

end Clean

/-! ### What the client sends -/

/-- A string that the client sends. -/
structure Sendable (c : Text) : Prop where
  clean : Clean c
  verb : c = "/exit".toList ∨ c = "/leave".toList ∨ ∃ verb ∈ verbs, verb <+: c

/-- A command that is printed with its arguments. -/
theorem sendable_snprintf {verb arguments : Text} (hverb : verb ∈ verbs) (h : Clean arguments) :
  Sendable (CString.snprintf ChatClient.MAX_BUFFER (verb ++ arguments))
  := by
  have hverbs : ∀ verb ∈ verbs, Clean verb ∧ verb.length < ChatClient.MAX_BUFFER := by decide
  obtain ⟨hclean, hlength⟩ := hverbs verb hverb
  constructor
  · apply Clean.snprintf
    apply Clean.append hclean h
  · exact .inr (.inr ⟨verb, hverb, CString.prefix_snprintf hlength⟩)

/-- The string that is sent for a file. -/
theorem sendable_handleFileSend {fileSize : Option Int} {filename targetUser c : Text}
    (hfilename : Clean filename) (htarget : Clean targetUser)
    (h : ChatClient.handleFileSend fileSize filename targetUser = some c) :
  Sendable c
  := by
  have hblank : Clean " ".toList := by decide
  obtain ⟨size, -, rfl⟩ := Option.map_eq_some_iff.mp h
  apply sendable_snprintf (by decide)
  apply Clean.append _ .decimal
  apply Clean.append _ hblank
  apply Clean.append (hfilename.append hblank)
  apply htarget.subset (List.take_subset _ _)

theorem sendable_command {input : Input} {c : Text} (h : ChatClient.command input = some c) :
  Sendable c
  := by
  have hline : Clean input.line := input.line_ok
  have hblank : Clean " ".toList := by decide
  have htoken : ∀ {s token rest : Text}, CString.strtok ChatClient.isBlank s = some (token, rest) →
      Clean s → Clean token ∧ Clean rest := by
    intro s token rest hs hclean
    obtain ⟨htoken, hrest⟩ := CString.of_strtok hs
    exact ⟨hclean.subset htoken, hclean.subset hrest⟩
  simp only [ChatClient.command] at h
  split at h
  · cases h
  · split at h
    · cases h
    · rename_i command rest hcommand
      obtain ⟨-, hrest⟩ := htoken hcommand hline
      split at h
      · rename_i hexit
        cases h
        rw [hexit]
        exact ⟨by decide, .inl rfl⟩
      · split at h
        · split at h
          · cases h
          · cases h
            apply sendable_snprintf (by decide)
            apply Clean.subset _ (List.dropWhile_suffix _).subset
            apply hline.subset (List.drop_subset _ _)
        · split at h
          · split at h
            · cases h
            · rename_i filename rest' hfilename
              obtain ⟨hfilename, hrest'⟩ := htoken hfilename hrest
              split at h
              · cases h
              · rename_i targetUser rest'' htarget
                obtain ⟨htarget, -⟩ := htoken htarget hrest'
                apply sendable_handleFileSend hfilename htarget h
          · split at h
            · rename_i hleave
              cases h
              rw [hleave]
              exact ⟨by decide, .inr (.inl rfl)⟩
            · split at h
              · split at h
                · cases h
                · cases h
                  apply sendable_snprintf (by decide)
                  apply hline.subset (List.drop_subset _ _)
              · split at h
                · split at h
                  · cases h
                  · rename_i targetUser message htarget
                    obtain ⟨htarget, hmessage⟩ := htoken htarget hrest
                    split at h
                    · cases h
                    · cases h
                      apply sendable_snprintf (by decide)
                      apply (htarget.append hblank).append hmessage
                · cases h

theorem sendable_sends {inputs : List Input} :
  ∀ c ∈ sends inputs, Sendable c
  := by
  induction inputs with
  | nil => simp [sends]
  | cons input inputs ih =>
      intro c hc
      rw [sends] at hc
      split at hc
      · apply ih c hc
      · rename_i c' hsend
        have hc' : Sendable c' := sendable_command hsend
        split at hc
        · rw [List.mem_singleton] at hc
          rw [hc]
          exact hc'
        · rcases List.mem_cons.mp hc with rfl | hc
          · exact hc'
          · apply ih c hc

/-! ### What the server executes -/

variable {c : Text}

theorem command_exit_iff {buffer : Text} :
  command buffer = some .exit ↔ buffer = "/exit".toList
  := by
  constructor
  · intro h
    rw [← text_eq h]
    rfl
  · rintro rfl
    decide

/-- The server knows the commands that the client sends. -/
theorem Sendable.command (h : Sendable c) :
  ∃ d, command c = some d
  := by
  rcases h.verb with rfl | rfl | ⟨verb, hverb, hstart⟩
  · exact ⟨_, rfl⟩
  · exact ⟨_, rfl⟩
  · exact command_of_verb hverb hstart

/-- The server executes the commands that it receives one by one. -/
theorem clientHandler_sends {inputs : List Input} (h : ∀ c ∈ sends inputs, '\r' ∉ c) :
  (clientHandler (sends inputs)).map some = (sends inputs).map command
  := by
  have hreceived : ∀ c ∈ sends inputs, received c = c := by
    intro c hc
    rw [received_eq_iff]
    intro x hx
    obtain ⟨hnewline, hnul⟩ := (sendable_sends c hc).clean x hx
    refine ⟨hnul, ?_, hnewline⟩
    rintro rfl
    exact h c hc hx
  induction inputs with
  | nil => rfl
  | cons input inputs ih =>
      rw [sends] at h hreceived ⊢
      split
      · rename_i hsend
        rw [hsend] at h hreceived
        apply ih h hreceived
      · rename_i c hsend
        obtain ⟨d, hd⟩ := (sendable_command hsend).command
        rw [hsend] at h hreceived
        dsimp only at h hreceived
        split
        · rename_i hexit
          rw [hexit]
          decide
        · rename_i hexit
          rw [if_neg hexit] at h hreceived
          obtain ⟨-, h⟩ := List.forall_mem_cons.mp h
          obtain ⟨hc, hreceived⟩ := List.forall_mem_cons.mp hreceived
          have hne : d ≠ .exit := by
            rintro rfl
            exact hexit (command_exit_iff.mp hd)
          rw [clientHandler_cons (by rw [hc]; exact hd) hne, List.map_cons, List.map_cons, hd,
            ih h hreceived]

/-- The texts of the commands that the client sends are the strings that it sends. -/
theorem executed_sends {inputs : List Input} {chunks : List Text}
    (h : (clientHandler chunks).map some = (sends inputs).map command) :
  executed chunks = sends inputs
  := by
  have htext : (sends inputs).map (Option.map Command.text ∘ command)
    = (sends inputs).map some := by
    apply List.map_congr_left
    intro c hc
    obtain ⟨d, hd⟩ := (sendable_sends c hc).command
    rw [Function.comp_apply, hd, Option.map_some, text_eq hd]
  apply List.map_injective_iff.mpr (Option.some_injective _)
  calc
    (executed chunks).map some
      = ((clientHandler chunks).map some).map (Option.map Command.text) := by
          rw [executed, List.map_map, List.map_map]
          rfl
    _ = (sends inputs).map (Option.map Command.text ∘ command) := by rw [h, List.map_map]
    _ = (sends inputs).map some := htext

/-- The server executes exactly the commands that the client sends if and only if every call
of `recv` returns one of them, and none has a carriage return. -/
theorem commands_executed_iff (inputs : List Input) (chunks : List Text)
    (h : Segments (sends inputs).flatten chunks) :
  (clientHandler chunks).map some = (sends inputs).map command
    ↔ chunks = sends inputs ∧ ∀ c ∈ sends inputs, '\r' ∉ c
  := by
  constructor
  · intro hcommands
    have hexecuted : executed chunks = sends inputs := executed_sends hcommands
    have hpos : ∀ chunk ∈ chunks, 0 < chunk.length := fun chunk hchunk => (h.size chunk hchunk).1
    have hlength : chunks.flatten.length ≤ (executed chunks).flatten.length := by
      rw [hexecuted, h.flatten]
    obtain ⟨hchunks, hreceived⟩ := executed_eq hpos hlength
    have hsame : chunks = sends inputs := hchunks.symm.trans hexecuted
    refine ⟨hsame, ?_⟩
    intro c hc hcr
    rw [← hsame] at hc
    exact (received_eq_iff.mp (hreceived c hc) _ hcr).2.1 rfl
  · rintro ⟨rfl, hcr⟩
    apply clientHandler_sends hcr

/-! ### Two commands -/

theorem clean_leave : Clean "/leave".toList := by decide

theorem clean_exit : Clean "/exit".toList := by decide

/-- A client leaves its room and exits. -/
def leaveAndExit : List Input :=
  [⟨"/leave".toList, none, clean_leave⟩, ⟨"/exit".toList, none, clean_exit⟩]

/-- Every call of `recv` returns one command. -/
theorem commands_executed_iff_single :
  (clientHandler ["/leave".toList, "/exit".toList]).map some
    = ["/leave".toList, "/exit".toList].map command
  := by
  have hsegments : Segments (sends leaveAndExit).flatten ["/leave".toList, "/exit".toList] := by
    constructor <;> decide
  exact (commands_executed_iff leaveAndExit _ hsegments).mpr (by decide)

/-- One call of `recv` returns both commands, and neither is executed. -/
theorem commands_merged :
  ¬ ∀ inputs chunks, Segments (sends inputs).flatten chunks →
    (clientHandler chunks).map some = (sends inputs).map command
  := by
  intro hall
  have hsegments : Segments (sends leaveAndExit).flatten ["/leave/exit".toList] := by
    constructor <;> decide
  have hcommands := hall leaveAndExit _ hsegments
  revert hcommands
  decide

end ChatServer
