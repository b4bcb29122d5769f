import Homeworks.Hardware.Main

/-!
# The texts of commands

The text of `printDisplay` and `writeWireless` is what follows the first occurrence of its first
word in the whole command.
-/

namespace Hardware

open Java (Text)

/-! ### Words -/

/-- What stands before the first blank. -/
def firstWord (text : Text) : Text := text.takeWhile (· ≠ ' ')

variable {s t text : Text}

theorem splitOn_append_cons (hs : ' ' ∉ s) :
  (s ++ ' ' :: t).splitOn ' ' = s :: t.splitOn ' '
  := by
  rw [List.splitOn_append_cons_of_beq _ _ (beq_self_eq_true ' '), List.splitOn_eq_singleton hs]
  rfl

theorem firstWord_append_cons (hs : ' ' ∉ s) :
  firstWord (s ++ ' ' :: t) = s
  := by
  apply CString.takeWhile_append
  · intro c hc
    exact decide_eq_true fun heq => hs (heq ▸ hc)
  · rintro c ⟨⟩
    rfl

theorem firstWord_eq (hs : ' ' ∉ s) :
  firstWord s = s
  := List.takeWhile_eq_self_iff.mpr fun _ hc => decide_eq_true fun heq => hs (heq ▸ hc)

theorem notMem_firstWord (text : Text) :
  ' ' ∉ firstWord text
  := fun hmem => absurd (List.mem_takeWhile_imp hmem) (by decide)

theorem exists_splitOn (text : Text) :
  ∃ words, text.splitOn ' ' = firstWord text :: words
  := by
  by_cases hmem : ' ' ∈ text
  · obtain ⟨word, rest, rfl, hword⟩ := List.eq_append_cons_of_mem hmem
    exact ⟨_, by rw [splitOn_append_cons hword, firstWord_append_cons hword]⟩
  · exact ⟨[], by rw [List.splitOn_eq_singleton hmem, firstWord_eq hmem]⟩

/-- The last word is not empty if there is no blank at the end. -/
theorem getLast_splitOn_ne_nil (hne : text ≠ []) (hlast : text.getLast? ≠ some ' ')
    (hwords : text.splitOn ' ' ≠ []) :
  (text.splitOn ' ').getLast hwords ≠ []
  := by
  induction hlength : text.length using Nat.strong_induction_on generalizing text with
  | _ length ih =>
      by_cases hmem : ' ' ∈ text
      · obtain ⟨word, rest, rfl, hword⟩ := List.eq_append_cons_of_mem hmem
        have hrest : rest ≠ [] := by
          rintro rfl
          exact hlast (by simp)
        have hlast' : rest.getLast? ≠ some ' ' := by
          rwa [List.getLast?_append_cons, List.getLast?_cons_of_ne_nil hrest] at hlast
        have hsplit : rest.splitOn ' ' ≠ [] := List.splitOn_ne_nil _ _
        have hlast'' := ih rest.length (by rw [← hlength]; simp; omega) hrest hlast' hsplit rfl
        have heq : ((word ++ ' ' :: rest).splitOn ' ').getLast hwords
          = (rest.splitOn ' ').getLast hsplit := by
          simp only [splitOn_append_cons hword, List.getLast_cons hsplit]
        rwa [heq]
      · have hwords' : [text] ≠ [] := List.cons_ne_nil _ _
        have heq : (text.splitOn ' ').getLast hwords = [text].getLast hwords' := by
          simp only [List.splitOn_eq_singleton hmem]
        rwa [heq]

/-- Some words without blanks before a text. -/
theorem split_words (hs : ' ' ∉ s) (ht : ' ' ∉ t) (hne : text ≠ [])
    (hlast : text.getLast? ≠ some ' ') :
  ∃ words, Java.split ' ' (s ++ ' ' :: (t ++ ' ' :: text)) = s :: t :: firstWord text :: words
  := by
  obtain ⟨words, hwords⟩ := exists_splitOn text
  refine ⟨words, ?_⟩
  have hlast' := getLast_splitOn_ne_nil hne hlast (List.splitOn_ne_nil _ _)
  rw [Java.split, if_pos (List.mem_append_right _ List.mem_cons_self), splitOn_append_cons hs,
    splitOn_append_cons ht, ← hwords, List.rdropWhile_eq_self_iff]
  intro hne'
  rw [List.getLast_cons (List.cons_ne_nil _ _), List.getLast_cons (List.splitOn_ne_nil _ _),
    List.isEmpty_iff]
  exact hlast'

/-- The first of the parts is what stands before the first blank. -/
theorem head_split (hs : ' ' ∉ s) (hne : s ≠ []) (ht : ∀ c ∈ t.head?, c = ' ') :
  ∃ parts, Java.split ' ' (s ++ t) = s :: parts
  := by
  cases t with
  | nil => exact ⟨[], by rw [List.append_nil, Java.split, if_neg hs]⟩
  | cons c t =>
      obtain rfl := ht c rfl
      rw [Java.split, if_pos (List.mem_append_right _ List.mem_cons_self), splitOn_append_cons hs]
      have hnil : (s :: t.splitOn ' ').rdropWhile List.isEmpty ≠ [] := by
        rw [Ne, List.rdropWhile_eq_nil_iff]
        intro hall
        exact hne (List.isEmpty_iff.mp (hall s List.mem_cons_self))
      obtain ⟨first, parts, heq⟩ := List.exists_cons_of_ne_nil hnil
      have hprefix := List.rdropWhile_prefix List.isEmpty (s :: t.splitOn ' ')
      rw [heq] at hprefix ⊢
      exact ⟨parts, by rw [(List.cons_prefix_cons.mp hprefix).1]⟩

/-! ### Commands with a text -/

/-- A command that passes a text on. -/
inductive Message where
  | printDisplay
  | writeWireless

namespace Message

def name : Message → Text
  | printDisplay => "printDisplay".toList
  | writeWireless => "writeWireless".toList

def call : Message → Int → Text → Call
  | printDisplay => .printDisplay
  | writeWireless => .writeWireless

def usage : Message → String
  | printDisplay => "Invalid number of arguments for printDisplay"
  | writeWireless => "Invalid number of arguments for writeWireless"

variable (m : Message)

theorem notMem_name :
  ' ' ∉ m.name
  := by cases m <;> decide

theorem name_ne_nil :
  m.name ≠ []
  := by cases m <;> decide

theorem exists_name :
  ∃ c rest, ' ' < c ∧ m.name = c :: rest
  := by
  cases m with
  | printDisplay => exact ⟨'p', "rintDisplay".toList, by decide, by decide⟩
  | writeWireless => exact ⟨'w', "riteWireless".toList, by decide, by decide⟩

theorem call_inj {n n' : Int} (h : m.call n s = m.call n' t) :
  n = n' ∧ s = t
  := by
  cases m with
  | printDisplay => exact Call.printDisplay.inj h
  | writeWireless => exact Call.writeWireless.inj h

theorem processCommand_eq {cmd : Text} {args : List Text}
    (h : Java.split ' ' cmd = m.name :: args) :
  processCommand cmd = withText m.call m.usage cmd args
  := by
  have hother : m.name ≠ "turnON".toList ∧ m.name ≠ "turnOFF".toList ∧ m.name ≠ "addDev".toList
      ∧ m.name ≠ "rmDev".toList ∧ m.name ≠ "list".toList ∧ m.name ≠ "readSensor".toList
      ∧ m.name ≠ "readWireless".toList := by
    cases m <;> decide
  obtain ⟨h₁, h₂, h₃, h₄, h₅, h₆, h₇⟩ := hother
  rw [processCommand, h, List.headD_cons, List.tail_cons]
  rw [if_neg h₁, if_neg h₂, if_neg h₃, if_neg h₄, if_neg h₅, if_neg h₆]
  cases m with
  | printDisplay => exact if_pos rfl
  | writeWireless =>
      have hdisplay : writeWireless.name ≠ printDisplay.name := by decide
      exact (if_neg hdisplay).trans ((if_neg h₇).trans (if_pos rfl))

/-- The text of a call is a part of the command. -/
theorem isSuffix_of_withText {call : Int → Text → Call} {message : String} {cmd : Text}
    {args : List Text} {n : Int} (hcall : ∀ n' t, call n' t = call n text → t = text)
    (h : withText call message cmd args = .ok (call n text)) :
  text <:+ cmd
  := by
  revert h
  fun_cases withText call message cmd args with
  | case1 id word rest =>
      rw [textFrom]
      cases hfound : CString.strstr cmd word with
      | none => rintro ⟨⟩
      | some found =>
          rw [number]
          cases Java.parseInt id with
          | none => rintro ⟨⟩
          | some n' =>
              intro h
              obtain rfl := hcall n' found (Except.ok.inj h)
              exact CString.isSuffix_of_strstr hfound
  | case2 => rintro ⟨⟩

/-- An input line with a command, an id and a text. -/
def line (id text : Text) : Text := m.name ++ ' ' :: (id ++ ' ' :: text)

variable {m : Message} {id : Text}

theorem trim_line (hlast : ∀ c ∈ text.getLast?, ' ' < c) (hne : text ≠ []) :
  Java.trim (m.line id text) = m.line id text
  := by
  apply Java.trim_eq
  · obtain ⟨c, rest, hc, hname⟩ := m.exists_name
    rw [line, hname]
    rintro _ ⟨⟩
    exact hc
  · intro c hc
    apply hlast c
    rwa [line, List.getLast?_append_cons, List.getLast?_cons_of_ne_nil (by simp),
      List.getLast?_append_cons, List.getLast?_cons_of_ne_nil hne] at hc

/-- What is removed at the end of a line leaves the command as it is. -/
theorem trim_append {word rest : Text} (hfirst : ∃ c u, ' ' < c ∧ word = c :: u)
    (hlast : ∀ c ∈ word.getLast?, ' ' < c) :
  ∃ t, Java.trim (word ++ rest) = word ++ t ∧ t <+: rest
  := by
  obtain ⟨c, u, hc, rfl⟩ := hfirst
  have hdrop : (c :: u ++ rest).dropWhile (· ≤ ' ') = c :: u ++ rest := by
    rw [List.cons_append, List.dropWhile_cons_of_neg]
    simpa using hc
  rw [Java.trim, hdrop]
  induction rest using List.reverseRecOn with
  | nil =>
      refine ⟨[], ?_, List.nil_prefix⟩
      rw [List.append_nil, List.rdropWhile_eq_self_iff]
      intro hne
      simpa using hlast _ (List.getLast_mem_getLast? hne)
  | append_singleton rest x ih =>
      rw [← List.append_assoc, List.rdropWhile_concat]
      split
      · obtain ⟨t, heq, ht⟩ := ih (by simpa using hc)
        exact ⟨t, heq, ht.trans (List.prefix_append rest [x])⟩
      · exact ⟨rest ++ [x], List.append_assoc .., List.prefix_rfl⟩

theorem lt_last_name (m : Message) :
  ∀ c ∈ m.name.getLast?, ' ' < c
  := by
  have hlast : m.name.getLast? = some (m.casesOn 'y' 's') := by
    cases m <;> decide
  rw [hlast]
  rintro _ ⟨⟩
  cases m <;> decide

/-- What is left of a line when it has been trimmed is still that command. -/
theorem processCommand_trim_line (m : Message) (id text : Text) :
  ∃ args, processCommand (Java.trim (m.line id text))
    = withText m.call m.usage (Java.trim (m.line id text)) args
  := by
  obtain ⟨t, heq, ht⟩ : ∃ t, Java.trim (m.name ++ ' ' :: (id ++ ' ' :: text)) = m.name ++ t
      ∧ t <+: ' ' :: (id ++ ' ' :: text) :=
    trim_append m.exists_name m.lt_last_name
  have hhead : ∀ c ∈ t.head?, c = ' ' := by
    cases t with
    | nil => rintro c ⟨⟩
    | cons d t =>
        rintro _ ⟨⟩
        exact (List.cons_prefix_cons.mp ht).1
  obtain ⟨args, hsplit⟩ := head_split m.notMem_name m.name_ne_nil hhead
  refine ⟨args, ?_⟩
  rw [line, heq]
  exact m.processCommand_eq hsplit

theorem strstr_line_iff (hne : text ≠ []) (hfirst : text.head? ≠ some ' ') :
  CString.strstr (m.line id text) (firstWord text) = some text
    ↔ ¬ firstWord text <:+: m.name ∧ ¬ firstWord text <:+: id
  := by
  obtain ⟨c, rest, rfl⟩ := List.exists_cons_of_ne_nil hne
  have hc : c ≠ ' ' := fun heq => hfirst (congrArg some heq)
  have hword : firstWord (c :: rest) ≠ [] := by
    rw [firstWord, List.takeWhile_cons_of_pos (by simpa using hc)]
    exact List.cons_ne_nil _ _
  have hblank := notMem_firstWord (c :: rest)
  rw [line]
  by_cases hname : firstWord (c :: rest) <:+: m.name
  · refine iff_of_false ?_ fun h => h.1 hname
    intro hfound
    obtain ⟨found, hfound', hlt⟩ :=
      CString.strstr_append_of_isInfix (' ' :: (id ++ ' ' :: c :: rest)) hword hname
    rw [hfound] at hfound'
    cases hfound'
    simp only [List.length_cons, List.length_append] at hlt
    omega
  · rw [CString.strstr_append_cons hword hblank hname]
    by_cases hin : firstWord (c :: rest) <:+: id
    · refine iff_of_false ?_ fun h => h.2 hin
      intro hfound
      obtain ⟨found, hfound', hlt⟩ :=
        CString.strstr_append_of_isInfix (' ' :: c :: rest) hword hin
      rw [hfound] at hfound'
      cases hfound'
      simp only [List.length_cons] at hlt
      omega
    · rw [CString.strstr_append_cons hword hblank hin]
      exact iff_of_true (CString.strstr_cons_of_isPrefix (List.takeWhile_prefix _)) ⟨hname, hin⟩

/-- A text is passed on as it is if and only if the id is an `int`, the last character is above the
blank, and the first word is not a part of the command or of the id. -/
theorem passes_iff (m : Message) (id text : Text) (hid : ' ' ∉ id) (hne : text ≠ [])
    (hfirst : text.head? ≠ some ' ') (hlast : text.getLast? ≠ some ' ') :
  (∃ n, Java.parseInt id = some n
      ∧ processCommand (Java.trim (m.line id text)) = .ok (m.call n text))
    ↔ (∃ n, Java.parseInt id = some n) ∧ (∀ c ∈ text.getLast?, ' ' < c)
      ∧ ¬ firstWord text <:+: m.name ∧ ¬ firstWord text <:+: id
  := by
  by_cases hcontrol : ∀ c ∈ text.getLast?, ' ' < c
  · rw [trim_line hcontrol hne, ← strstr_line_iff (m := m) hne hfirst]
    obtain ⟨words, hsplit⟩ := split_words m.notMem_name hid hne hlast
    have hcall : processCommand (m.line id text)
        = withText m.call m.usage (m.line id text) (id :: firstWord text :: words) :=
      m.processCommand_eq hsplit
    rw [hcall, withText, textFrom, number]
    cases Java.parseInt id with
    | none =>
        apply iff_of_false
        · rintro ⟨n, h, -⟩
          cases h
        · rintro ⟨⟨n, h⟩, -⟩
          cases h
    | some n =>
        cases CString.strstr (m.line id text) (firstWord text) with
        | none =>
            apply iff_of_false
            · rintro ⟨n', -, h⟩
              cases h
            · rintro ⟨-, -, h⟩
              cases h
        | some found =>
            constructor
            · rintro ⟨n', hn, h⟩
              exact ⟨⟨n, rfl⟩, hcontrol, congrArg some (m.call_inj (Except.ok.inj h)).2⟩
            · rintro ⟨-, -, h⟩
              obtain rfl := Option.some.inj h
              exact ⟨n, rfl, rfl⟩
  · refine iff_of_false ?_ fun h => hcontrol h.2.1
    rintro ⟨n, -, hcall⟩
    obtain ⟨args, heq⟩ := processCommand_trim_line m id text
    rw [heq] at hcall
    have hsuffix := isSuffix_of_withText (fun _ _ h => (m.call_inj h).2) hcall
    apply hcontrol
    intro c hc
    apply Java.lt_of_getLast?_trim (s := m.line id text)
    obtain ⟨front, hfront⟩ := hsuffix
    rw [← hfront]
    exact List.mem_getLast?_append_of_mem_getLast? hc

theorem passes_iff_hello :
  (∃ n, Java.parseInt "0".toList = some n
      ∧ processCommand (Java.trim (printDisplay.line "0".toList "Hello you".toList))
        = .ok (printDisplay.call n "Hello you".toList))
    ↔ (∃ n, Java.parseInt "0".toList = some n) ∧ (∀ c ∈ "Hello you".toList.getLast?, ' ' < c)
      ∧ ¬ firstWord "Hello you".toList <:+: printDisplay.name
      ∧ ¬ firstWord "Hello you".toList <:+: "0".toList
  := passes_iff printDisplay _ _ (by decide) (by decide) (by decide)
    (by decide)

theorem passes_not_display :
  ¬ ∃ n, Java.parseInt "0".toList = some n
    ∧ processCommand (Java.trim (printDisplay.line "0".toList "Display".toList))
      = .ok (printDisplay.call n "Display".toList)
  := by
  have hcall : processCommand (Java.trim (printDisplay.line "0".toList "Display".toList))
      = .ok (printDisplay.call 0 "Display 0 Display".toList) := by
    decide
  rintro ⟨n, -, h⟩
  rw [hcall] at h
  have hne : "Display 0 Display".toList ≠ "Display".toList := by decide
  exact hne (printDisplay.call_inj (Except.ok.inj h)).2

end Message

end Hardware
