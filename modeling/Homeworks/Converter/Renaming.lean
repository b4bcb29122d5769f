import Homeworks.CString.Text
import Homeworks.Converter.Conversions
import Mathlib.Data.List.Chain

/-!
# Other names

A line consists of identifiers and of other texts.  The converter searches the whole line for its
words, also the identifiers.
-/

namespace Converter

/-! ### Pieces of a line -/

/-- An identifier that is renamed, or a text that stays. -/
inductive Piece where
  | name (v : Line)
  | text (s : Line)

def Piece.chars : Piece → Line
  | .name v => v
  | .text s => s

def Piece.rename (f : Line → Line) : Piece → Piece
  | .name v => .name (f v)
  | .text s => .text s

def render (ps : List Piece) : Line := ps.flatMap Piece.chars

/-- An identifier ends where the next text starts, and starts where the text before it ends. -/
def Meets : Piece → Piece → Prop
  | .name _, .text s => ∀ d ∈ s.head?, isNameChar d = false
  | .text s, .name _ => ∀ c ∈ s.getLast?, isNameChar c = false
  | _, _ => False

structure WellFormed (ps : List Piece) : Prop where
  names : ∀ v, .name v ∈ ps → Identifier v
  texts : ∀ s, .text s ∈ ps → s ≠ []
  meets : ps.IsChain Meets

/-! ### Texts in a line -/

section

variable {α : Type} {w a b : List α}

/-- A text in two others is in one of them, or it has a part in each. -/
theorem infix_append_iff :
  w <:+: a ++ b ↔ w <:+: a ∨ w <:+: b ∨ ∃ u v, u ≠ [] ∧ v ≠ [] ∧ w = u ++ v ∧ u <:+ a ∧ v <+: b
  := by
  constructor
  · rintro ⟨s, t, h⟩
    rcases List.append_eq_append_iff.mp h with ⟨c, rfl, rfl⟩ | ⟨c, hs, rfl⟩
    · exact .inl ⟨s, c, rfl⟩
    · rcases List.append_eq_append_iff.mp hs with ⟨d, rfl, rfl⟩ | ⟨d, rfl, rfl⟩
      · by_cases hd : d = []
        · rw [hd]
          exact .inr (.inl ⟨[], t, rfl⟩)
        · by_cases hc : c = []
          · rw [hc, List.append_nil]
            exact .inl (List.suffix_append s d).isInfix
          · exact .inr (.inr ⟨d, c, hd, hc, rfl, List.suffix_append s d, List.prefix_append c t⟩)
      · exact .inr (.inl ⟨d, t, by rw [List.append_assoc]⟩)
  · rintro (h | h | ⟨u, v, -, -, rfl, ⟨s, rfl⟩, t, rfl⟩)
    · exact List.infix_append_of_infix_left h
    · exact List.infix_append_of_infix_right h
    · exact ⟨s, t, by simp⟩

end

variable {ps qs : List Piece} {p q : Piece} {w : Line} {f : Line → Line}

theorem WellFormed.tail (h : WellFormed (p :: ps)) :
  WellFormed ps
  where
  names v hv := h.names v (List.mem_cons_of_mem _ hv)
  texts s hs := h.texts s (List.mem_cons_of_mem _ hs)
  meets := h.meets.tail

theorem WellFormed.chars_ne_nil (h : WellFormed ps) (hp : p ∈ ps) :
  p.chars ≠ []
  := by
  cases p with
  | name v => exact (h.names v hp).ne_nil
  | text s => exact h.texts s hp

theorem render_cons (p : Piece) (ps : List Piece) :
  render (p :: ps) = p.chars ++ render ps
  := List.flatMap_cons

/-- Where two pieces meet there is a character of an identifier on one side only. -/
theorem WellFormed.border (h : WellFormed (p :: ps)) {c d : Char} (hc : c ∈ p.chars.getLast?)
    (hd : d ∈ (render ps).head?) :
  isNameChar c ≠ isNameChar d
  := by
  cases ps with
  | nil => cases hd
  | cons q ps =>
      have hmeets := (List.isChain_cons_cons.mp h.meets).1
      rw [render_cons, List.head?_append_of_ne_nil _
        (h.tail.chars_ne_nil List.mem_cons_self)] at hd
      cases p with
      | name v =>
          cases q with
          | name v' => exact hmeets.elim
          | text s =>
              have hname := (h.names v List.mem_cons_self).chars c (List.mem_of_getLast? hc)
              rw [hname, hmeets d hd]
              decide
      | text s =>
          cases q with
          | name v =>
              have hname := (h.names v (List.mem_cons_of_mem _ List.mem_cons_self)).chars d
                (List.mem_of_head? hd)
              rw [hname, hmeets c hc]
              decide
          | text s' => exact hmeets.elim

/-- A text whose characters are all of an identifier, or all not, is in one of the pieces. -/
theorem infix_render_iff (h : WellFormed ps) {k : Bool} (hne : w ≠ [])
    (hw : ∀ c ∈ w, isNameChar c = k) :
  w <:+: render ps ↔ ∃ p ∈ ps, w <:+: p.chars
  := by
  induction ps with
  | nil =>
      refine iff_of_false (fun hpart => hne (List.infix_nil.mp hpart)) ?_
      rintro ⟨p, hp, -⟩
      cases hp
  | cons p ps ih =>
      simp only [render_cons, infix_append_iff, ih h.tail, List.mem_cons, or_and_right, exists_or,
        exists_eq_left]
      apply or_congr_right
      refine or_iff_left ?_
      rintro ⟨u, v, hu, hv, rfl, hsuffix, hprefix⟩
      obtain ⟨c, hc⟩ := Option.isSome_iff_exists.mp (List.getLast?_isSome.mpr hu)
      obtain ⟨d, hd⟩ := Option.isSome_iff_exists.mp (List.isSome_head?.mpr hv)
      refine h.border (c := c) (d := d) ?_ ?_ ?_
      · obtain ⟨s, hs⟩ := hsuffix
        rw [← hs, List.getLast?_append, hc]
        rfl
      · obtain ⟨t, ht⟩ := hprefix
        rw [← ht, List.head?_append, hd]
        rfl
      · rw [hw c (List.mem_append_left _ (List.mem_of_getLast? hc)),
          hw d (List.mem_append_right _ (List.mem_of_head? hd))]

/-! ### Words -/

/-- A word stands outside of the identifiers. -/
def Shown (word : String) (ps : List Piece) : Prop := ∃ s, .text s ∈ ps ∧ word.toList <:+: s

/-- A word stands inside an identifier. -/
def Hidden (word : String) (ps : List Piece) : Prop := ∃ v, .name v ∈ ps ∧ word.toList <:+: v

/-- An identifier that ends with a word is followed by a space. -/
def HiddenSpace (word : String) (ps : List Piece) : Prop :=
  ∃ v s, [.name v, .text (' ' :: s)] <:+: ps ∧ word.toList <:+ v

theorem exists_piece_iff :
  (∃ p ∈ ps, w <:+: p.chars) ↔ (∃ s, .text s ∈ ps ∧ w <:+: s) ∨ ∃ v, .name v ∈ ps ∧ w <:+: v
  := by
  constructor
  · rintro ⟨p, hp, hpart⟩
    cases p with
    | name v => exact .inr ⟨v, hp, hpart⟩
    | text s => exact .inl ⟨s, hp, hpart⟩
  · rintro (⟨s, hs, hpart⟩ | ⟨v, hv, hpart⟩)
    · exact ⟨_, hs, hpart⟩
    · exact ⟨_, hv, hpart⟩

/-- A word is found in the identifiers and in the other texts. -/
theorem search_word (h : WellFormed ps) {word : String} (hne : word.toList ≠ [])
    (hword : ∀ c ∈ word.toList, isNameChar c = true) :
  search word (render ps) = true ↔ Shown word ps ∨ Hidden word ps
  := by rw [search, decide_eq_true_iff, infix_render_iff h hne hword, exists_piece_iff, Shown,
    Hidden]

/-- Other characters are found in the other texts only. -/
theorem search_other (h : WellFormed ps) {text : String} (hne : text.toList ≠ [])
    (htext : ∀ c ∈ text.toList, isNameChar c = false) :
  search text (render ps) = true ↔ Shown text ps
  := by
  rw [search, decide_eq_true_iff, infix_render_iff h hne htext, exists_piece_iff, Shown]
  refine or_iff_left ?_
  rintro ⟨v, hv, hpart⟩
  obtain ⟨c, hc⟩ := List.exists_mem_of_ne_nil _ hne
  have hname := (h.names v hv).chars c (hpart.subset hc)
  rw [htext c hc] at hname
  cases hname

theorem shown_rename {word : String} :
  Shown word (ps.map (Piece.rename f)) ↔ Shown word ps
  := by
  refine exists_congr fun s => and_congr_left fun _ => ?_
  rw [List.mem_map]
  constructor
  · rintro ⟨p, hp, heq⟩
    cases p with
    | name v => cases heq
    | text s' =>
        cases heq
        exact hp
  · intro hs
    exact ⟨.text s, hs, rfl⟩

/-- The parts of a word and a space in a piece and in the rest of a line. -/
theorem WellFormed.split_iff (h : WellFormed (p :: ps)) (hne : w ≠ [])
    (hw : ∀ c ∈ w, isNameChar c = true) :
  (∃ u v, u ≠ [] ∧ v ≠ [] ∧ w ++ [' '] = u ++ v ∧ u <:+ p.chars ∧ v <+: render ps)
    ↔ w <:+ p.chars ∧ [' '] <+: render ps
  := by
  constructor
  · rintro ⟨u, v, hu, hv, heq, hsuffix, hprefix⟩
    rcases List.append_eq_append_iff.mp heq with ⟨c, rfl, hspace⟩ | ⟨c, rfl, rfl⟩
    · cases c with
      | nil =>
          rw [List.append_nil] at hsuffix
          rw [List.nil_append] at hspace
          exact ⟨hsuffix, hspace ▸ hprefix⟩
      | cons d c =>
          rw [List.cons_append, List.cons.injEq] at hspace
          exact absurd (List.append_eq_nil_iff.mp hspace.2.symm).2 hv
    · cases c with
      | nil =>
          rw [List.append_nil]
          exact ⟨hsuffix, hprefix⟩
      | cons d c =>
          obtain ⟨e, he⟩ := Option.isSome_iff_exists.mp (List.getLast?_isSome.mpr hu)
          obtain ⟨s, hs⟩ := hsuffix
          obtain ⟨t, ht⟩ := hprefix
          refine absurd ?_ (h.border (c := e) (d := d) ?_ ?_)
          · rw [hw e (List.mem_append_left _ (List.mem_of_getLast? he)),
              hw d (List.mem_append_right _ List.mem_cons_self)]
          · rw [← hs, List.getLast?_append, he]
            rfl
          · rw [← ht]
            rfl
  · rintro ⟨hsuffix, hprefix⟩
    exact ⟨w, [' '], hne, List.cons_ne_nil _ _, rfl, hsuffix, hprefix⟩

/-- A word at the end of a piece that a space follows is the end of an identifier. -/
theorem WellFormed.end_iff (h : WellFormed (p :: ps)) (hne : w ≠ [])
    (hw : ∀ c ∈ w, isNameChar c = true) :
  w <:+ p.chars ∧ [' '] <+: render ps
    ↔ ∃ v s, [.name v, .text (' ' :: s)] <+: p :: ps ∧ w <:+ v
  := by
  constructor
  · rintro ⟨hsuffix, hprefix⟩
    cases ps with
    | nil => exact absurd (List.prefix_nil.mp hprefix) (List.cons_ne_nil _ _)
    | cons q ps =>
        obtain ⟨c, hc⟩ := Option.isSome_iff_exists.mp (List.getLast?_isSome.mpr hne)
        have hmeets := (List.isChain_cons_cons.mp h.meets).1
        cases p with
        | name v =>
            cases q with
            | name v' => exact hmeets.elim
            | text s =>
                obtain ⟨d, s, rfl⟩ := List.exists_cons_of_ne_nil
                  (h.texts s (List.mem_cons_of_mem _ List.mem_cons_self))
                obtain ⟨t, ht⟩ := hprefix
                rw [render_cons] at ht
                obtain rfl : ' ' = d := (List.cons.inj ht).1
                exact ⟨v, s, ⟨ps, rfl⟩, hsuffix⟩
        | text s =>
            cases q with
            | name v =>
                obtain ⟨s', hs⟩ := hsuffix
                have hs : s' ++ w = s := hs
                have hlast : c ∈ s.getLast? := by
                  rw [← hs, List.getLast?_append, hc]
                  rfl
                have hname := hw c (List.mem_of_getLast? hc)
                rw [hmeets c hlast] at hname
                cases hname
            | text s' => exact hmeets.elim
  · rintro ⟨v, s, ⟨t, ht⟩, hsuffix⟩
    rw [List.cons_append, List.cons_append, List.nil_append, List.cons.injEq] at ht
    obtain ⟨rfl, rfl⟩ := ht
    refine ⟨hsuffix, s ++ render t, ?_⟩
    rw [render_cons]
    rfl

/-- A word and a space are found in the other texts and at the ends of identifiers. -/
theorem search_space (h : WellFormed ps) {word spaced : String}
    (hspaced : spaced.toList = word.toList ++ [' ']) (hne : word.toList ≠ [])
    (hword : ∀ c ∈ word.toList, isNameChar c = true) :
  search spaced (render ps) = true ↔ Shown spaced ps ∨ HiddenSpace word ps
  := by
  rw [search, decide_eq_true_iff, hspaced, Shown, HiddenSpace, hspaced]
  induction ps with
  | nil =>
      refine iff_of_false (fun hpart => ?_) ?_
      · exact absurd (List.infix_nil.mp hpart) (by simp)
      · rintro (⟨s, hs, -⟩ | ⟨v, s, hpart, -⟩)
        · cases hs
        · exact absurd (List.infix_nil.mp hpart) (List.cons_ne_nil _ _)
  | cons p ps ih =>
      rw [render_cons, infix_append_iff, ih h.tail, h.split_iff hne hword, h.end_iff hne hword]
      constructor
      · rintro (hpart | (⟨s, hs, hpart⟩ | ⟨v, s, hpart, hsuffix⟩) | ⟨v, s, hprefix, hsuffix⟩)
        · cases p with
          | name v =>
              have hname := (h.names v List.mem_cons_self).chars ' ' (hpart.subset (by simp))
              exact absurd hname (by decide)
          | text s => exact .inl ⟨s, List.mem_cons_self, hpart⟩
        · exact .inl ⟨s, List.mem_cons_of_mem _ hs, hpart⟩
        · exact .inr ⟨v, s, List.infix_cons hpart, hsuffix⟩
        · exact .inr ⟨v, s, hprefix.isInfix, hsuffix⟩
      · rintro (⟨s, hs, hpart⟩ | ⟨v, s, hpart, hsuffix⟩)
        · rcases List.mem_cons.mp hs with rfl | hs
          · exact .inl hpart
          · exact .inr (.inl (.inl ⟨s, hs, hpart⟩))
        · rcases List.infix_cons_iff.mp hpart with hprefix | hpart
          · exact .inr (.inr ⟨v, s, hprefix, hsuffix⟩)
          · exact .inr (.inl (.inr ⟨v, s, hpart, hsuffix⟩))

/-! ### The type of a line -/

/-- What is found in a line, other than words. -/
structure Found where
  increment : Bool
  logical : Bool
  left : Bool
  right : Bool
  semicolon : Bool
  equals : Bool
  brace : Bool
  arithmetic : Bool

def found (line : Line) : Found where
  increment := searchAny ["++", "--"] line
  logical := searchAny ["<", ">", "<=", ">=", "==", "!=", "&&", "||"] line
  left := search "(" line
  right := search ")" line
  semicolon := search ";" line
  equals := search "=" line
  brace := search "\x7b" line
  arithmetic := searchAny ["+", "-", "*", "/", "%"] line

namespace Found

variable (r : Found)

def call : Bool := r.left && (r.right && (r.semicolon && true))

/-- The type is told without the names of types. -/
def settled : Bool := r.increment || r.logical || r.equals && r.call

def assignment : Bool := r.equals && (r.semicolon && true)

def definition : Bool := r.left && (r.right && (r.brace && true))

/-- The converter looks for the name of a type with a space. -/
def asksTypeSpace : Bool :=
  !r.settled && (r.call && !r.brace || !r.definition && r.assignment && r.arithmetic)

/-- The converter looks for the name of a type. -/
def asksType : Bool := !r.settled && !(r.call && !r.brace) && !r.definition && r.assignment

/-- The type of a line without the other words. -/
def lineType (typeSpace type : Bool) : LineType :=
  if r.increment then .postIncrementDecrement
  else if r.logical then .logicalOperation
  else if r.equals && r.call then .variableAssignmentByFunctionReturn
  else if typeSpace && r.call && !r.brace then .functionPrototypeDefinition
  else if r.call && !r.brace && true && !r.equals then .functionCall
  else if r.definition then .functionDefinition
  else if typeSpace && r.equals && r.arithmetic && r.semicolon then
    .variableDefinitionByArithmeticOperation
  else if type && r.assignment then .variableDefinition
  else if r.equals && r.arithmetic && r.semicolon && !r.left then
    .variableAssignmentByArithmeticOperation
  else if r.assignment && !r.left then .variableAssignment
  else if r.arithmetic && !r.equals then .arithmeticOperation
  else .unknown

/-- The names of types tell the type of the line where the converter looks for them. -/
theorem lineType_eq_iff {typeSpace type typeSpace' type' : Bool} :
  r.lineType typeSpace' type' = r.lineType typeSpace type
    ↔ (r.asksTypeSpace = true → typeSpace = typeSpace')
      ∧ (r.asksType = true → r.asksTypeSpace = true ∧ typeSpace = true ∨ type = type')
  := by
  obtain ⟨increment, logical, left, right, semicolon, equals, brace, arithmetic⟩ := r
  revert increment logical left right semicolon equals brace arithmetic typeSpace type typeSpace'
    type'
  decide

end Found

/-- The types of lines with a return. -/
def returnType (line : Line) : LineType :=
  if searchAny ["++", "--"] line then .postIncrementDecrementReturn
  else if searchAny ["+", "-", "*", "/", "%"] line then .arithmeticOperationReturn
  else if searchAny ["&&", "||", ">", "<", ">=", "<=", "==", "!="] line then .logicalOperationReturn
  else .returnStatement

def typeNames : List String := ["int", "float", "char", "double"]

def typeNamesSpace : List String := ["int ", "float ", "char ", "double "]

/-- The type of a line by the words that are found in it. -/
theorem lineType_eq (line : Line) :
  lineType line
    = if search "if" line then .ifStatement
      else if search "for" line then .forLoop
      else if search "while" line then .whileLoop
      else if search "\x7d" line then .curlyBrace
      else if search "return" line then returnType line
      else (found line).lineType (searchAny typeNamesSpace line) (searchAny typeNames line)
  := by
  unfold lineType
  cases search "return" line with
  | true => rfl
  | false => rfl

/-! ### Renaming -/

/-- The words are looked for in turn until one is found.  Each of them stands outside of the
identifiers, or it stands inside an identifier before and after the renaming, or inside none. -/
def SameUntil (ps qs : List Piece) (rest : Prop) : List String → Prop
  | [] => rest
  | word :: words =>
      Shown word ps
        ∨ (Hidden word ps ↔ Hidden word qs) ∧ (Hidden word ps ∨ SameUntil ps qs rest words)

def ShownType (ps : List Piece) : Prop := ∃ word ∈ typeNames, Shown word ps

def HiddenType (ps : List Piece) : Prop := ∃ word ∈ typeNames, Hidden word ps

def ShownTypeSpace (ps : List Piece) : Prop := ∃ word ∈ typeNamesSpace, Shown word ps

def HiddenTypeSpace (ps : List Piece) : Prop := ∃ word ∈ typeNames, HiddenSpace word ps

/-- The same for the names of types, where the converter looks for them. -/
def SameTypes (ps qs : List Piece) : Prop :=
  ((found (render ps)).asksTypeSpace = true →
      ShownTypeSpace ps ∨ (HiddenTypeSpace ps ↔ HiddenTypeSpace qs))
    ∧ ((found (render ps)).asksType = true →
      (found (render ps)).asksTypeSpace = true ∧ (ShownTypeSpace ps ∨ HiddenTypeSpace ps)
        ∨ ShownType ps ∨ (HiddenType ps ↔ HiddenType qs))

/-- The identifiers hide the same words, as far as the converter looks for them. -/
def SameWords (ps qs : List Piece) : Prop :=
  SameUntil ps qs (Shown "\x7d" ps ∨ SameUntil ps qs (SameTypes ps qs) ["return"])
    ["if", "for", "while"]

section

/-- Two lines have the same type if a word is found in both, or in none and the rest tells the
same. -/
theorem ite_eq_ite_iff {b b' : Bool} {shown hidden hidden' rest : Prop} {c x x' : LineType}
    (hb : b = true ↔ shown ∨ hidden) (hb' : b' = true ↔ shown ∨ hidden') (hx : x ≠ c) (hx' : x' ≠ c)
    (hrest : b = false → b' = false → (x' = x ↔ rest)) :
  (if b' then c else x') = (if b then c else x) ↔ shown ∨ (hidden ↔ hidden') ∧ (hidden ∨ rest)
  := by
  cases b with
  | true =>
      cases b' with
      | true =>
          refine iff_of_true rfl ?_
          rcases hb.mp rfl with hs | hh
          · exact .inl hs
          · rcases hb'.mp rfl with hs | hh'
            · exact .inl hs
            · exact .inr ⟨iff_of_true hh hh', .inl hh⟩
      | false =>
          have hnot' : ¬ (shown ∨ hidden') := fun h => Bool.false_ne_true (hb'.mpr h)
          refine iff_of_false hx' ?_
          rintro (hs | ⟨hiff, -⟩)
          · exact hnot' (.inl hs)
          · exact hnot' ((hb.mp rfl).imp_right hiff.mp)
  | false =>
      have hnot : ¬ (shown ∨ hidden) := fun h => Bool.false_ne_true (hb.mpr h)
      cases b' with
      | true =>
          refine iff_of_false (fun h => hx h.symm) ?_
          rintro (hs | ⟨hiff, -⟩)
          · exact hnot (.inl hs)
          · exact hnot ((hb'.mp rfl).imp_right hiff.mpr)
      | false =>
          have hnot' : ¬ (shown ∨ hidden') := fun h => Bool.false_ne_true (hb'.mpr h)
          refine (hrest rfl rfl).trans ⟨fun h => ?_, ?_⟩
          · exact .inr ⟨iff_of_false (fun hh => hnot (.inr hh)) fun hh => hnot' (.inr hh), .inr h⟩
          · rintro (hs | ⟨-, hh | h⟩)
            · exact absurd (.inl hs) hnot
            · exact absurd (.inr hh) hnot
            · exact h

theorem ite_ne {b : Bool} {c x d : LineType} (hc : c ≠ d) (hx : x ≠ d) :
  (if b then c else x) ≠ d
  := by
  cases b with
  | true => exact hc
  | false => exact hx

/-- The types that are told by words. -/
def wordTypes : List LineType :=
  [.ifStatement, .forLoop, .whileLoop, .curlyBrace, .postIncrementDecrementReturn,
    .arithmeticOperationReturn, .logicalOperationReturn, .returnStatement]

theorem Found.lineType_notMem (r : Found) (typeSpace type : Bool) :
  r.lineType typeSpace type ∉ wordTypes
  := by
  obtain ⟨increment, logical, left, right, semicolon, equals, brace, arithmetic⟩ := r
  revert increment logical left right semicolon equals brace arithmetic typeSpace type
  decide

theorem Found.lineType_ne (r : Found) (typeSpace type : Bool) {c : LineType} (hc : c ∈ wordTypes) :
  r.lineType typeSpace type ≠ c
  := by
  rintro rfl
  exact r.lineType_notMem typeSpace type hc

theorem returnType_mem (line : Line) :
  returnType line ∈ wordTypes.drop 4
  := by
  rw [returnType]
  split
  · decide
  · split
    · decide
    · split <;> decide

theorem returnType_ne (line : Line) {c : LineType} (hc : c ∈ wordTypes.take 4) :
  returnType line ≠ c
  := by
  have hall : ∀ d ∈ wordTypes.drop 4, ∀ c ∈ wordTypes.take 4, d ≠ c := by decide
  exact hall _ (returnType_mem line) c hc

theorem searchAny_congr {texts : List String} {line line' : Line}
    (h : ∀ text ∈ texts, search text line' = search text line) :
  searchAny texts line' = searchAny texts line
  := by
  induction texts with
  | nil => rfl
  | cons text texts ih =>
      rw [searchAny, searchAny, List.any_cons, List.any_cons, h text List.mem_cons_self]
      exact congrArg _ (ih fun t ht => h t (List.mem_cons_of_mem _ ht))

variable {line line' : Line}

/-- The texts without characters of identifiers that are searched for. -/
def others : List String :=
  ["\x7d", "\x7b", "++", "--", "+", "-", "*", "/", "%", "&&", "||", ">", "<", ">=", "<=", "==",
    "!=", "=", "(", ")", ";"]

theorem found_congr (h : ∀ text ∈ others, search text line' = search text line) :
  found line' = found line
  := by
  have hany : ∀ texts ⊆ others, searchAny texts line' = searchAny texts line :=
    fun texts htexts => searchAny_congr fun text htext => h text (htexts htext)
  rw [found, found, hany _ (by decide), hany _ (by decide), hany _ (by decide), h _ (by decide),
    h _ (by decide), h _ (by decide), h _ (by decide), h _ (by decide)]

theorem returnType_congr (h : ∀ text ∈ others, search text line' = search text line) :
  returnType line' = returnType line
  := by
  have hany : ∀ texts ⊆ others, searchAny texts line' = searchAny texts line :=
    fun texts htexts => searchAny_congr fun text htext => h text (htexts htext)
  rw [returnType, returnType, hany _ (by decide), hany _ (by decide), hany _ (by decide)]

end

theorem WellFormed.rename (h : WellFormed ps) (hf : ∀ v, .name v ∈ ps → Identifier (f v)) :
  WellFormed (ps.map (Piece.rename f))
  where
  names v hv := by
    obtain ⟨p, hp, heq⟩ := List.mem_map.mp hv
    cases p with
    | name v' =>
        cases heq
        exact hf v' hp
    | text s => cases heq
  texts s hs := by
    obtain ⟨p, hp, heq⟩ := List.mem_map.mp hs
    cases p with
    | name v => cases heq
    | text s' =>
        cases heq
        exact h.texts s hp
  meets := by
    refine (List.isChain_map _).mpr (h.meets.imp fun p q hmeets => ?_)
    cases p with
    | name v =>
        cases q with
        | name v' => exact hmeets
        | text s => exact hmeets
    | text s =>
        cases q with
        | name v => exact hmeets
        | text s' => exact hmeets

theorem searchAny_eq_true_iff {texts : List String} {line : Line} :
  searchAny texts line = true ↔ ∃ text ∈ texts, search text line = true
  := List.any_eq_true

/-- Texts that are not empty, and whose characters all belong to names or all do not. -/
theorem texts_of_all {texts : List String} {b : Bool}
    (h : texts.all (fun text =>
      !text.toList.isEmpty && text.toList.all fun c => isNameChar c == b) = true) :
  ∀ text ∈ texts, text.toList ≠ [] ∧ ∀ c ∈ text.toList, isNameChar c = b
  := by
  intro text htext
  obtain ⟨hne, hall⟩ := Bool.and_eq_true_iff.mp (List.all_eq_true.mp h text htext)
  exact ⟨by simpa using hne, CString.forall_mem_of_all hall⟩

theorem searchAny_typeNames (h : WellFormed ps) :
  searchAny typeNames (render ps) = true ↔ ShownType ps ∨ HiddenType ps
  := by
  have hwords : ∀ word ∈ typeNames, word.toList ≠ [] ∧ ∀ c ∈ word.toList, isNameChar c = true :=
    texts_of_all (by decide)
  rw [searchAny_eq_true_iff, ShownType, HiddenType, ← exists_or]
  refine exists_congr fun word => ?_
  rw [← and_or_left]
  exact and_congr_right fun hword =>
    search_word h (hwords word hword).1 (hwords word hword).2

theorem searchAny_typeNamesSpace (h : WellFormed ps) :
  searchAny typeNamesSpace (render ps) = true ↔ ShownTypeSpace ps ∨ HiddenTypeSpace ps
  := by
  have hwords : ∀ word ∈ typeNames, word.toList ≠ [] ∧ ∀ c ∈ word.toList, isNameChar c = true :=
    texts_of_all (by decide)
  have hspaced : typeNamesSpace = typeNames.map fun word => word ++ " " := by decide
  have hspace : " ".toList = [' '] := by decide
  rw [searchAny_eq_true_iff, ShownTypeSpace, HiddenTypeSpace, hspaced]
  simp only [List.mem_map, exists_exists_and_eq_and]
  rw [← exists_or]
  refine exists_congr fun word => ?_
  rw [← and_or_left]
  refine and_congr_right fun hword => search_space h ?_ (hwords word hword).1 (hwords word hword).2
  rw [String.toList_append, hspace]

theorem eq_iff_of_found {b b' : Bool} {shown hidden hidden' : Prop} (hb : b = true ↔ shown ∨ hidden)
    (hb' : b' = true ↔ shown ∨ hidden') :
  b = b' ↔ shown ∨ (hidden ↔ hidden')
  := by
  rw [Bool.eq_iff_iff, hb, hb']
  by_cases hs : shown
  · exact iff_of_true (iff_of_true (.inl hs) (.inl hs)) (.inl hs)
  · rw [or_iff_right hs, or_iff_right hs, or_iff_right hs]

theorem shownType_rename :
  ShownType (ps.map (Piece.rename f)) ↔ ShownType ps
  := exists_congr fun _ => and_congr_right fun _ => shown_rename

theorem shownTypeSpace_rename :
  ShownTypeSpace (ps.map (Piece.rename f)) ↔ ShownTypeSpace ps
  := exists_congr fun _ => and_congr_right fun _ => shown_rename

/-- The type of the line is the same if and only if the identifiers hide the same words. -/
theorem lineType_rename_iff (h : WellFormed ps) (hf : ∀ v, .name v ∈ ps → Identifier (f v)) :
  lineType (render (ps.map (Piece.rename f))) = lineType (render ps)
    ↔ SameWords ps (ps.map (Piece.rename f))
  := by
  have h' := h.rename hf
  have hothers : ∀ text ∈ others, text.toList ≠ [] ∧ ∀ c ∈ text.toList, isNameChar c = false :=
    texts_of_all (by decide)
  have hother : ∀ text ∈ others,
      search text (render (ps.map (Piece.rename f))) = search text (render ps) := by
    intro text htext
    rw [Bool.eq_iff_iff, search_other h (hothers text htext).1 (hothers text htext).2,
      search_other h' (hothers text htext).1 (hothers text htext).2, shown_rename]
  have hwords : ∀ word ∈ ["if", "for", "while", "return"],
      word.toList ≠ [] ∧ ∀ c ∈ word.toList, isNameChar c = true := texts_of_all (by decide)
  have hword : ∀ word ∈ ["if", "for", "while", "return"],
      search word (render ps) = true ↔ Shown word ps ∨ Hidden word ps :=
    fun word hmem => search_word h (hwords word hmem).1 (hwords word hmem).2
  have hafter : ∀ word ∈ ["if", "for", "while", "return"],
      search word (render (ps.map (Piece.rename f))) = true
        ↔ Shown word ps ∨ Hidden word (ps.map (Piece.rename f)) := by
    intro word hmem
    rw [search_word h' (hwords word hmem).1 (hwords word hmem).2, shown_rename]
  have hbrace : search "\x7d" (render ps) = true ↔ Shown "\x7d" ps :=
    search_other h (hothers _ (by decide)).1 (hothers _ (by decide)).2
  have htypes : (found (render ps)).lineType
        (searchAny typeNamesSpace (render (ps.map (Piece.rename f))))
        (searchAny typeNames (render (ps.map (Piece.rename f))))
      = (found (render ps)).lineType (searchAny typeNamesSpace (render ps))
          (searchAny typeNames (render ps)) ↔ SameTypes ps (ps.map (Piece.rename f)) := by
    have hspace := searchAny_typeNamesSpace h
    have hspace' := searchAny_typeNamesSpace h'
    rw [shownTypeSpace_rename] at hspace'
    have htype := searchAny_typeNames h
    have htype' := searchAny_typeNames h'
    rw [shownType_rename] at htype'
    rw [Found.lineType_eq_iff, eq_iff_of_found hspace hspace', eq_iff_of_found htype htype', hspace]
    rfl
  rw [lineType_eq, lineType_eq, found_congr hother, returnType_congr hother,
    hother "\x7d" (by decide)]
  -- The later types are different from those of the words that are looked for first.
  have hlater : ∀ b typeSpace type : Bool, ∀ c ∈ wordTypes.take 3,
      (if search "\x7d" (render ps) then LineType.curlyBrace
        else if b then returnType (render ps) else (found (render ps)).lineType typeSpace type)
          ≠ c := by
    intro b typeSpace type c hc
    have hcurly : ∀ c ∈ wordTypes.take 3, LineType.curlyBrace ≠ c := by decide
    have htake : wordTypes.take 3 ⊆ wordTypes.take 4 := by decide
    exact ite_ne (hcurly c hc) (ite_ne (returnType_ne _ (htake hc))
      (Found.lineType_ne _ typeSpace type (List.mem_of_mem_take hc)))
  refine ite_eq_ite_iff (hword "if" (by decide)) (hafter "if" (by decide)) ?_ ?_ fun _ _ => ?_
  · exact ite_ne (by decide) (ite_ne (by decide) (hlater _ _ _ _ (by decide)))
  · exact ite_ne (by decide) (ite_ne (by decide) (hlater _ _ _ _ (by decide)))
  refine ite_eq_ite_iff (hword "for" (by decide)) (hafter "for" (by decide)) ?_ ?_ fun _ _ => ?_
  · exact ite_ne (by decide) (hlater _ _ _ _ (by decide))
  · exact ite_ne (by decide) (hlater _ _ _ _ (by decide))
  refine ite_eq_ite_iff (hword "while" (by decide)) (hafter "while" (by decide)) ?_ ?_ fun _ _ => ?_
  · exact hlater _ _ _ _ (by decide)
  · exact hlater _ _ _ _ (by decide)
  cases hcase : search "\x7d" (render ps) with
  | true => exact iff_of_true rfl (.inl (hbrace.mp hcase))
  | false =>
      rw [if_neg Bool.false_ne_true, if_neg Bool.false_ne_true]
      refine Iff.trans ?_ (or_iff_right fun hshown => ?_).symm
      · have hfamily : ∀ typeSpace type,
            (found (render ps)).lineType typeSpace type ≠ returnType (render ps) :=
          fun typeSpace type =>
            Found.lineType_ne _ typeSpace type (List.mem_of_mem_drop (returnType_mem (render ps)))
        exact ite_eq_ite_iff (hword "return" (by decide)) (hafter "return" (by decide))
          (hfamily _ _) (hfamily _ _) fun _ _ => htypes
      · rw [hbrace.mpr hshown] at hcase
        cases hcase

/-! ### Identifiers without words -/

theorem Hidden.of_space {word : String} (h : HiddenSpace word ps) :
  Hidden word ps
  := by
  obtain ⟨v, s, hpart, hsuffix⟩ := h
  exact ⟨v, hpart.subset List.mem_cons_self, hsuffix.isInfix⟩

def words : List String := ["if", "for", "while", "return", "int", "float", "char", "double"]

/-- Identifiers that hide no words have nothing to tell. -/
theorem SameWords.of_not_hidden (hps : ∀ word ∈ words, ¬ Hidden word ps)
    (hqs : ∀ word ∈ words, ¬ Hidden word qs) :
  SameWords ps qs
  := by
  have hsame : ∀ word ∈ words, (Hidden word ps ↔ Hidden word qs) :=
    fun word hword => iff_of_false (hps word hword) (hqs word hword)
  have htypes : ∀ word ∈ typeNames, word ∈ words := by decide
  have hspace : ∀ {rs}, (∀ word ∈ words, ¬ Hidden word rs) → ¬ HiddenTypeSpace rs := by
    rintro rs hrs ⟨word, hword, hhidden⟩
    exact hrs word (htypes word hword) (Hidden.of_space hhidden)
  have htype : ∀ {rs}, (∀ word ∈ words, ¬ Hidden word rs) → ¬ HiddenType rs := by
    rintro rs hrs ⟨word, hword, hhidden⟩
    exact hrs word (htypes word hword) hhidden
  refine .inr ⟨hsame _ (by decide), .inr (.inr ⟨hsame _ (by decide), .inr (.inr
    ⟨hsame _ (by decide), .inr
      (.inr (.inr ⟨hsame _ (by decide), .inr ⟨fun _ => ?_, fun _ => ?_⟩⟩))⟩)⟩)⟩
  · exact .inr (iff_of_false (hspace hps) (hspace hqs))
  · exact .inr (.inr (iff_of_false (htype hps) (htype hqs)))

/-- An identifier of one letter hides nothing. -/
theorem not_hidden_letter (c : Char) (s : Line) :
  ∀ word ∈ words, ¬ Hidden word [.name [c], .text s]
  := by
  rintro word hword ⟨v, hv, hpart⟩
  have hlength : ∀ word ∈ words, 1 < word.toList.length := by decide
  rw [List.mem_cons, List.mem_singleton] at hv
  rcases hv with heq | heq
  · cases heq
    exact absurd hpart.length_le (Nat.not_le.mpr (hlength word hword))
  · cases heq

theorem lineType_rename_letter :
  lineType (render [.name ['e'], .text " = 1;".toList])
    = lineType (render [.name ['d'], .text " = 1;".toList])
  := by
  have hidentifier : ∀ c ∈ ['d', 'e'], Identifier [c] := by
    intro c hc
    rw [List.mem_cons, List.mem_singleton] at hc
    rcases hc with rfl | rfl
    · exact ⟨by decide, by simp, CString.forall_mem_of_all (by decide)⟩
    · exact ⟨by decide, by simp, CString.forall_mem_of_all (by decide)⟩
  have hps : WellFormed [.name ['d'], .text " = 1;".toList] := by
    refine ⟨fun v hv => ?_, fun s hs => ?_, ?_⟩
    · rw [List.mem_cons, List.mem_singleton] at hv
      rcases hv with heq | heq
      · cases heq
        exact hidentifier _ (by decide)
      · cases heq
    · rw [List.mem_cons, List.mem_singleton] at hs
      rcases hs with heq | heq
      · cases heq
      · cases heq
        decide
    · refine List.isChain_pair.mpr ?_
      have hchars : " = 1;".toList = [' ', '=', ' ', '1', ';'] := by decide
      rintro d hd
      rw [hchars] at hd
      cases hd
      decide
  refine (lineType_rename_iff hps (f := fun _ => ['e']) fun _ _ => hidentifier _ (by decide)).mpr ?_
  exact .of_not_hidden (not_hidden_letter _ _) (not_hidden_letter _ _)

/-- The identifier `diff` is taken for an `if`. -/
theorem lineType_rename_diff :
  lineType (render [.name ['d'], .text " = 1;".toList]) = .variableAssignment
    ∧ lineType (render [.name "diff".toList, .text " = 1;".toList]) = .ifStatement
  := by decide

end Converter
