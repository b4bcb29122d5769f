import Homeworks.Simulator.Parser
import Mathlib.Data.List.TakeWhile

/-!
# Comments in programs

The parser removes the comment of a line only after it has searched the whole line for the markers
of the sections.  Comments do not matter as long as every line has the marker that it has without
its comment.
-/

open CString

namespace Simulator

namespace Parser

/-- The marker that the parser finds in a line. -/
def marker? (line : List Char) : Option String :=
  if contains line "Begin Data Section" then some "Begin Data Section"
  else if contains line "End Data Section" then some "End Data Section"
  else if contains line "Begin Instruction Section" then some "Begin Instruction Section"
  else if contains line "End Instruction Section" then some "End Instruction Section"
  else none

/-- The parser finds the same marker in the line without its comment, or none in both. -/
def Unaffected (line : List Char) : Prop := marker? (removeComment line) = marker? line

instance (line : List Char) : Decidable (Unaffected line) := inferInstanceAs (Decidable (_ = _))

/-- The text with the comments removed from its lines. -/
def withoutComments (contents : List Char) : List Char :=
  ['\n'].intercalate ((contents.splitOn '\n').map removeComment)

/-- The parsers have the same data segment and the same instruction map. -/
def SameProgram (p q : Parser) : Prop :=
  p.dataSegment = q.dataSegment ∧ p.instructionMap = q.instructionMap

/-- The parsers are the same but for their messages. -/
structure Agrees (p q : Parser) : Prop where
  parsingDataSection : p.parsingDataSection = q.parsingDataSection
  parsingInstructionSection : p.parsingInstructionSection = q.parsingInstructionSection
  same : SameProgram p q

variable {uninitialized : Int → Option SyscallType} {p q : Parser} {line : List Char}

theorem removeComment_of_notMem (h : '#' ∉ line) :
  removeComment line = line
  := List.takeWhile_eq_self_iff.mpr fun _ hc => decide_eq_true fun heq => h (heq ▸ hc)

theorem notMem_removeComment (line : List Char) :
  '#' ∉ removeComment line
  := by
  intro h
  have hne := List.mem_takeWhile_imp h
  exact of_decide_eq_true hne rfl

theorem removeComment_removeComment (line : List Char) :
  removeComment (removeComment line) = removeComment line
  := removeComment_of_notMem (notMem_removeComment line)

theorem unaffected_of_notMem (h : '#' ∉ line) :
  Unaffected line
  := by
  rw [Unaffected, removeComment_of_notMem h]

/-- A marker in front of the comment is in the line. -/
theorem contains_of_removeComment {marker : String}
    (h : contains (removeComment line) marker = true) :
  contains line marker = true
  := decide_eq_true ((of_decide_eq_true h).trans (List.takeWhile_prefix _).isInfix)

/-! ### Lines with and without markers -/

/-- A marker opens or closes a section. -/
def atMarker (p : Parser) (marker : String) : Parser :=
  if marker = "Begin Data Section" then
    { p with parsingDataSection := true, parsingInstructionSection := false }
  else if marker = "End Data Section" then
    { p with parsingDataSection := false }
  else if marker = "Begin Instruction Section" then
    { p with parsingDataSection := false, parsingInstructionSection := true }
  else
    { p with parsingInstructionSection := false }

/-- A line without a marker belongs to the section that is open. -/
def inSection (uninitialized : Int → Option SyscallType) (p : Parser) (line : List Char) : Parser :=
  if p.parsingDataSection then
    p.processDataLine line
  else if p.parsingInstructionSection then
    p.processInstructionLine uninitialized line
  else
    p

theorem processLine_eq (p : Parser) (line : List Char) :
  p.processLine uninitialized line
    = (marker? line).elim (p.inSection uninitialized line) p.atMarker
  := by
  have hempty : line = [] → marker? line = none := by
    rintro rfl
    decide
  rw [processLine]
  by_cases hline : line = []
  · subst hline
    rw [hempty rfl, List.isEmpty_nil, if_pos rfl, Option.elim_none, inSection]
    split_ifs <;> rfl
  · rw [List.isEmpty_eq_false_iff.mpr hline, if_neg Bool.false_ne_true, ← inSection, marker?]
    split_ifs <;> rfl

theorem Agrees.processDataLine (h : Agrees p q) (line : List Char) :
  Agrees (p.processDataLine line) (q.processDataLine (removeComment line))
  := by
  rw [Parser.processDataLine, Parser.processDataLine, removeComment_removeComment]
  obtain ⟨hdata, hinstr, hsegment, hmap⟩ := h
  split
  · split
    · exact ⟨hdata, hinstr, congrArg (· ++ _) hsegment, hmap⟩
    · exact ⟨hdata, hinstr, hsegment, hmap⟩
  · exact ⟨hdata, hinstr, hsegment, hmap⟩

theorem Agrees.processInstructionLine (h : Agrees p q) (line : List Char) :
  Agrees (p.processInstructionLine uninitialized line)
    (q.processInstructionLine uninitialized (removeComment line))
  := by
  rw [Parser.processInstructionLine, Parser.processInstructionLine, removeComment_removeComment]
  obtain ⟨hdata, hinstr, hsegment, hmap⟩ := h
  split
  · split
    · exact ⟨hdata, hinstr, hsegment, congrArg (Function.update · _ _) hmap⟩
    · exact ⟨hdata, hinstr, hsegment, hmap⟩
    · exact ⟨hdata, hinstr, hsegment, hmap⟩
  · exact ⟨hdata, hinstr, hsegment, hmap⟩

theorem Agrees.inSection (h : Agrees p q) (line : List Char) :
  Agrees (p.inSection uninitialized line) (q.inSection uninitialized (removeComment line))
  := by
  rw [Parser.inSection, Parser.inSection, ← h.parsingDataSection, ← h.parsingInstructionSection]
  split_ifs
  · exact h.processDataLine line
  · exact h.processInstructionLine line
  · exact h

theorem Agrees.atMarker (h : Agrees p q) (marker : String) :
  Agrees (p.atMarker marker) (q.atMarker marker)
  := by
  rw [Parser.atMarker, Parser.atMarker]
  split_ifs
  · exact ⟨rfl, rfl, h.same⟩
  · exact ⟨rfl, h.parsingInstructionSection, h.same⟩
  · exact ⟨rfl, rfl, h.same⟩
  · exact ⟨h.parsingDataSection, rfl, h.same⟩

theorem Agrees.processLine (h : Agrees p q) (hline : Unaffected line) :
  Agrees (p.processLine uninitialized line) (q.processLine uninitialized (removeComment line))
  := by
  rw [processLine_eq, processLine_eq, hline]
  cases marker? line with
  | none => exact h.inSection line
  | some marker => exact h.atMarker marker

/-! ### A text and the text without its comments -/

/-- The line that `getline` does not read at the end of a file is empty. -/
theorem parseFile_eq (contents : List Char) :
  parseFile uninitialized contents
    = (contents.splitOn '\n').foldl (processLine uninitialized) cleared
  := by
  rw [parseFile, lines, getlines]
  split
  next hlast =>
    have happend := List.dropLast_append_getLast? _ hlast
    conv_rhs => rw [← happend, List.foldl_append]
    rfl
  next => rfl

theorem splitOn_withoutComments (contents : List Char) :
  (withoutComments contents).splitOn '\n' = (contents.splitOn '\n').map removeComment
  := by
  apply List.splitOn_intercalate
  · intro line hline hmem
    obtain ⟨line', hline', rfl⟩ := List.mem_map.mp hline
    exact notMem_of_mem_splitOn hline' ((List.takeWhile_prefix _).subset hmem)
  · exact fun h => List.splitOn_ne_nil '\n' contents (List.map_eq_nil_iff.mp h)

theorem Agrees.foldl (h : Agrees p q) {lines : List (List Char)}
    (hlines : ∀ line ∈ lines, Unaffected line) :
  Agrees (lines.foldl (Parser.processLine uninitialized) p)
    ((lines.map removeComment).foldl (Parser.processLine uninitialized) q)
  := by
  induction lines generalizing p q with
  | nil => exact h
  | cons line lines ih =>
      obtain ⟨hline, hlines⟩ := List.forall_mem_cons.mp hlines
      exact ih (h.processLine hline) hlines

/-! ### Lines whose comments matter -/

/-- The parser finds a marker in the comment that it does not find in front of it, and no earlier
one. -/
theorem marker?_cases (h : ¬Unaffected line) :
  marker? line = some "Begin Data Section"
      ∧ marker? (removeComment line) ≠ some "Begin Data Section"
    ∨ marker? line = some "End Data Section"
      ∧ (marker? (removeComment line) = some "Begin Instruction Section"
        ∨ marker? (removeComment line) = some "End Instruction Section"
        ∨ marker? (removeComment line) = none)
    ∨ marker? line = some "Begin Instruction Section"
      ∧ (marker? (removeComment line) = some "End Instruction Section"
        ∨ marker? (removeComment line) = none)
    ∨ marker? line = some "End Instruction Section" ∧ marker? (removeComment line) = none
  := by
  have hfront : ∀ marker, ¬contains line marker = true →
      ¬contains (removeComment line) marker = true := fun _ => mt contains_of_removeComment
  rw [Unaffected] at h
  revert h
  by_cases hbegin : contains line "Begin Data Section" = true
  · have hline : marker? line = some "Begin Data Section" := if_pos hbegin
    rw [hline]
    exact fun h => .inl ⟨rfl, h⟩
  by_cases hend : contains line "End Data Section" = true
  · have hline : marker? line = some "End Data Section" := by
      rw [marker?, if_neg hbegin, if_pos hend]
    rw [hline, marker?, if_neg (hfront _ hbegin)]
    split_ifs <;> simp
  by_cases hbegin' : contains line "Begin Instruction Section" = true
  · have hline : marker? line = some "Begin Instruction Section" := by
      rw [marker?, if_neg hbegin, if_neg hend, if_pos hbegin']
    rw [hline, marker?, if_neg (hfront _ hbegin), if_neg (hfront _ hend)]
    split_ifs <;> simp
  · rw [marker?, marker?, if_neg (hfront _ hbegin), if_neg (hfront _ hend),
      if_neg (hfront _ hbegin'), if_neg hbegin, if_neg hend, if_neg hbegin']
    by_cases hend' : contains line "End Instruction Section" = true
    · rw [if_pos hend']
      split_ifs <;> simp
    · rw [if_neg hend', if_neg (hfront _ hend')]
      exact fun h => absurd rfl h

/-- An entry of data, and an instruction. -/
def dataLine : List Char := "1 2".toList

def haltLine : List Char := "0 HLT".toList

theorem processLine_dataLine (p : Parser) (h : p.parsingDataSection = true) :
  p.processLine uninitialized dataLine = { p with dataSegment := p.dataSegment ++ [(1, 2)] }
  := by
  have hmarker : marker? dataLine = none := by decide
  rw [processLine_eq, hmarker, Option.elim_none, inSection, if_pos h]
  rfl

theorem processLine_haltLine (p : Parser) (h : p.parsingDataSection = false)
    (h' : p.parsingInstructionSection = true) :
  (p.processLine uninitialized haltLine).instructionMap 0 = some (.of .HLT [])
  := by
  have hmarker : marker? haltLine = none := by decide
  rw [processLine_eq, hmarker, Option.elim_none, inSection, h, if_neg Bool.false_ne_true, if_pos h']
  rfl

theorem processLine_closed (p : Parser) (h : p.parsingDataSection = false)
    (h' : p.parsingInstructionSection = false) (hmarker : marker? line = none) :
  p.processLine uninitialized line = p
  := by
  rw [processLine_eq, hmarker, Option.elim_none, inSection, h, h']
  rfl

theorem processDataLine_flags (p : Parser) (line : List Char) :
  (p.processDataLine line).parsingDataSection = p.parsingDataSection
  := by
  rw [processDataLine]
  split
  · split <;> rfl
  · rfl

theorem processInstructionLine_flags (uninitialized : Int → Option SyscallType) (p : Parser)
    (line : List Char) :
  (p.processInstructionLine uninitialized line).parsingDataSection = p.parsingDataSection
    ∧ (p.processInstructionLine uninitialized line).parsingInstructionSection
      = p.parsingInstructionSection
  := by
  rw [processInstructionLine]
  split
  · split <;> exact ⟨rfl, rfl⟩
  · exact ⟨rfl, rfl⟩

/-- The data are read only in their section. -/
theorem dataSegment_processLine (p : Parser) (h : p.parsingDataSection = false) (line : List Char) :
  (p.processLine uninitialized line).dataSegment = p.dataSegment
  := by
  rw [processLine_eq]
  cases marker? line with
  | none =>
      rw [Option.elim_none, inSection, h, if_neg Bool.false_ne_true]
      split_ifs
      · exact processInstructionLine_dataSegment uninitialized p line
      · rfl
  | some marker =>
      rw [Option.elim_some, atMarker]
      split_ifs <;> rfl

/-! ### Lines in a program -/

/-- The text of some lines. -/
def ofLines (lines : List (List Char)) : List Char := ['\n'].intercalate lines

theorem splitOn_ofLines {before after : List Char} (hline : '\n' ∉ line) (hbefore : '\n' ∉ before)
    (hafter : '\n' ∉ after) :
  (ofLines [before, line, after]).splitOn '\n' = [before, line, after]
  := by
  apply List.splitOn_intercalate
  · simp [hline, hbefore, hafter]
  · exact List.cons_ne_nil _ _

/-- A program with a line between two lines without comments. -/
theorem not_sameProgram_ofLines {before after : List Char} (hline : '\n' ∉ line)
    (hbefore : '\n' ∉ before ∧ '#' ∉ before) (hafter : '\n' ∉ after ∧ '#' ∉ after)
    (h : ¬SameProgram
      (((cleared.processLine uninitialized before).processLine uninitialized line).processLine
        uninitialized after)
      (((cleared.processLine uninitialized before).processLine uninitialized
        (removeComment line)).processLine uninitialized after)) :
  ¬SameProgram (parseFile uninitialized (ofLines [before, line, after]))
    (parseFile uninitialized (withoutComments (ofLines [before, line, after])))
  := by
  have hsplit := splitOn_ofLines hline hbefore.1 hafter.1
  rw [parseFile_eq, parseFile_eq, splitOn_withoutComments, hsplit, List.map_cons, List.map_cons,
    List.map_cons, List.map_nil, removeComment_of_notMem hbefore.2,
      removeComment_of_notMem hafter.2]
  exact h

/-- The parser in a section. -/
def opened (d i : Bool) : Parser := ⟨d, i, [], fun _ => none, []⟩

theorem opened_marked (d i : Bool) {marker : String} (h : marker? line = some marker) :
  (opened d i).processLine uninitialized line = (opened d i).atMarker marker
  := by rw [processLine_eq, h, Option.elim_some]

theorem opened_plain (d i : Bool) (h : marker? line = none) :
  (opened d i).processLine uninitialized line = (opened d i).inSection uninitialized line
  := by rw [processLine_eq, h, Option.elim_none]

/-- Only the line with the comment begins a section of data. -/
theorem not_sameProgram_of_beginData (uninitialized : Int → Option SyscallType)
    (hline : '\n' ∉ line) (hraw : marker? line = some "Begin Data Section")
    (hfront : marker? (removeComment line) ≠ some "Begin Data Section") :
  ¬SameProgram (parseFile uninitialized (ofLines [[], line, dataLine]))
    (parseFile uninitialized (withoutComments (ofLines [[], line, dataLine])))
  := by
  refine not_sameProgram_ofLines hline (by decide) (by decide) fun hsame => ?_
  have hstart : cleared.processLine uninitialized [] = opened false false := rfl
  have hclosed : ((opened false false).processLine uninitialized
      (removeComment line)).parsingDataSection = false := by
    cases hmarker : marker? (removeComment line) with
    | none =>
        rw [opened_plain _ _ hmarker]
        rfl
    | some marker =>
        have hne : marker ≠ "Begin Data Section" := by
          rintro rfl
          exact hfront hmarker
        rw [opened_marked _ _ hmarker, atMarker, if_neg hne]
        split_ifs <;> rfl
  have hsegment := hsame.1
  rw [hstart, opened_marked _ _ hraw, processLine_dataLine _ rfl,
    dataSegment_processLine _ hclosed, dataSegment_processLine _ rfl] at hsegment
  cases hsegment

/-- Only the line with the comment ends the section of data, the other begins one of
instructions. -/
theorem not_sameProgram_of_endData (uninitialized : Int → Option SyscallType)
    (hline : '\n' ∉ line) (hraw : marker? line = some "End Data Section")
    (hfront : marker? (removeComment line) = some "Begin Instruction Section") :
  ¬SameProgram (parseFile uninitialized (ofLines ["Begin Data Section".toList, line, haltLine]))
    (parseFile uninitialized
      (withoutComments (ofLines ["Begin Data Section".toList, line, haltLine])))
  := by
  refine not_sameProgram_ofLines hline (by decide) (by decide) fun hsame => ?_
  have hdata : cleared.processLine uninitialized "Begin Data Section".toList = opened true false :=
    rfl
  have hmap := congrFun hsame.2 0
  rw [hdata, opened_marked _ _ hraw, opened_marked _ _ hfront, processLine_closed _ rfl rfl
    (by decide), processLine_haltLine _ rfl rfl] at hmap
  cases hmap

/-- Only the line with the comment ends the section of data. -/
theorem not_sameProgram_of_closesData (uninitialized : Int → Option SyscallType)
    (hline : '\n' ∉ line) (hraw : marker? line = some "End Data Section")
    (hfront : marker? (removeComment line) = some "End Instruction Section"
      ∨ marker? (removeComment line) = none) :
  ¬SameProgram (parseFile uninitialized (ofLines ["Begin Data Section".toList, line, dataLine]))
    (parseFile uninitialized
      (withoutComments (ofLines ["Begin Data Section".toList, line, dataLine])))
  := by
  refine not_sameProgram_ofLines hline (by decide) (by decide) fun hsame => ?_
  have hdata : cleared.processLine uninitialized "Begin Data Section".toList = opened true false :=
    rfl
  have hopen : ((opened true false).processLine uninitialized
      (removeComment line)).parsingDataSection = true := by
    rcases hfront with hfront | hfront
    · rw [opened_marked _ _ hfront]
      rfl
    · rw [opened_plain _ _ hfront]
      exact processDataLine_flags _ _
  have hsegment := hsame.1
  rw [hdata, processLine_dataLine _ hopen, opened_marked _ _ hraw,
    processLine_closed _ rfl rfl (by decide)] at hsegment
  exact List.append_ne_nil_of_right_ne_nil _ (List.cons_ne_nil _ _) hsegment.symm

/-- Only the line with the comment begins a section of instructions. -/
theorem not_sameProgram_of_beginInstructions (uninitialized : Int → Option SyscallType)
    (hline : '\n' ∉ line) (hraw : marker? line = some "Begin Instruction Section")
    (hfront : marker? (removeComment line) = some "End Instruction Section"
      ∨ marker? (removeComment line) = none) :
  ¬SameProgram (parseFile uninitialized (ofLines [[], line, haltLine]))
    (parseFile uninitialized (withoutComments (ofLines [[], line, haltLine])))
  := by
  refine not_sameProgram_ofLines hline (by decide) (by decide) fun hsame => ?_
  have hstart : cleared.processLine uninitialized [] = opened false false := rfl
  have hclosed : (opened false false).processLine uninitialized (removeComment line)
      = opened false false := by
    rcases hfront with hfront | hfront
    · rw [opened_marked _ _ hfront]
      rfl
    · rw [opened_plain _ _ hfront]
      rfl
  have hmap := congrFun hsame.2 0
  rw [hstart, hclosed, opened_marked _ _ hraw, processLine_haltLine _ rfl rfl] at hmap
  cases hmap

/-- Only the line with the comment ends the section of instructions. -/
theorem not_sameProgram_of_endInstructions (uninitialized : Int → Option SyscallType)
    (hline : '\n' ∉ line) (hraw : marker? line = some "End Instruction Section")
    (hfront : marker? (removeComment line) = none) :
  ¬SameProgram
    (parseFile uninitialized (ofLines ["Begin Instruction Section".toList, line, haltLine]))
    (parseFile uninitialized
      (withoutComments (ofLines ["Begin Instruction Section".toList, line, haltLine])))
  := by
  refine not_sameProgram_ofLines hline (by decide) (by decide) fun hsame => ?_
  have hinstructions : cleared.processLine uninitialized "Begin Instruction Section".toList
      = opened false true := rfl
  have hopen := processInstructionLine_flags uninitialized (opened false true) (removeComment line)
  have hmap := congrFun hsame.2 0
  rw [hinstructions, opened_marked _ _ hraw, opened_plain _ _ hfront,
    processLine_closed _ rfl rfl (by decide)] at hmap
  cases hmap.trans (processLine_haltLine _ hopen.1 hopen.2)

/-- With a line before it that opens the right section and a line of that section after it, a line
whose comment matters makes a difference. -/
theorem exists_not_sameProgram (uninitialized : Int → Option SyscallType) (hline : '\n' ∉ line)
    (h : ¬Unaffected line) :
  ∃ before after, ('\n' ∉ before ∧ '#' ∉ before) ∧ ('\n' ∉ after ∧ '#' ∉ after)
    ∧ ¬SameProgram (parseFile uninitialized (ofLines [before, line, after]))
      (parseFile uninitialized (withoutComments (ofLines [before, line, after])))
  := by
  rcases marker?_cases h with ⟨hraw, hfront⟩ | ⟨hraw, hfront | hfront⟩ | ⟨hraw, hfront⟩
    | ⟨hraw, hfront⟩
  · exact ⟨_, _, by decide, by decide, not_sameProgram_of_beginData _ hline hraw hfront⟩
  · exact ⟨_, _, by decide, by decide, not_sameProgram_of_endData _ hline hraw hfront⟩
  · exact ⟨_, _, by decide, by decide, not_sameProgram_of_closesData _ hline hraw hfront⟩
  · exact ⟨_, _, by decide, by decide, not_sameProgram_of_beginInstructions _ hline hraw hfront⟩
  · exact ⟨_, _, by decide, by decide, not_sameProgram_of_endInstructions _ hline hraw hfront⟩

/-- Comments do not change a program if no line has another marker with its comment; and only such
lines never change a program whose other lines have no comments. -/
theorem comments_ignored_iff (uninitialized : Int → Option SyscallType) :
  (∀ contents, (∀ line ∈ contents.splitOn '\n', Unaffected line) →
      SameProgram (parseFile uninitialized contents)
        (parseFile uninitialized (withoutComments contents)))
    ∧ ∀ line, '\n' ∉ line →
      ((∀ contents, line ∈ contents.splitOn '\n' →
          (∀ other ∈ contents.splitOn '\n', other = line ∨ '#' ∉ other) →
          SameProgram (parseFile uninitialized contents)
            (parseFile uninitialized (withoutComments contents)))
        ↔ Unaffected line)
  := by
  have henough : ∀ contents, (∀ line ∈ contents.splitOn '\n', Unaffected line) →
      SameProgram (parseFile uninitialized contents)
        (parseFile uninitialized (withoutComments contents)) := by
    intro contents hlines
    rw [parseFile_eq, parseFile_eq, splitOn_withoutComments]
    have hcleared : Agrees cleared cleared := ⟨rfl, rfl, rfl, rfl⟩
    exact (hcleared.foldl hlines).same
  refine ⟨henough, fun line hline => ⟨fun hall => ?_, fun hline contents _ hothers => ?_⟩⟩
  · by_contra hnot
    obtain ⟨before, after, hbefore, hafter, hdiffer⟩ :=
      exists_not_sameProgram uninitialized hline hnot
    have hsplit := splitOn_ofLines hline hbefore.1 hafter.1
    refine hdiffer (hall _ ?_ ?_)
    · rw [hsplit]
      exact List.mem_cons_of_mem _ List.mem_cons_self
    · rw [hsplit]
      simp [hbefore.2, hafter.2]
  · apply henough contents
    intro other hother
    rcases hothers other hother with rfl | hhash
    · exact hline
    · exact unaffected_of_notMem hhash

/-- A marker in a comment does no harm behind the same marker. -/
example : Unaffected "Begin Data Section # Begin Data Section".toList := by decide

/-- A comment with a marker hides the entry in front of it. -/
theorem comment_hides_entry :
  ¬ ∀ contents : List Char,
      SameProgram (parseFile (fun _ => none) contents)
        (parseFile (fun _ => none) (withoutComments contents))
  := by
  intro h
  have hsegment := (h "Begin Data Section\n1 2# End Data Section".toList).1
  revert hsegment
  decide

end Parser

end Simulator
