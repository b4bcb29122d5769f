import Homeworks.CString.Fields

/-!
# Grids

The program reads the lines of a grid of letters and searches it for words, in three directions.
Both files are read with `fgets`, which stops at the end of a buffer.  The lines of a grid are read
into the rows, except that a row is taken to be one letter too short when its line has no newline.
-/

namespace WordSearch

open CString

def MAX_LINE : ℕ := 101

def MAX_CHAR : ℕ := 251

def MAX_WORD_LENGTH : ℕ := 11

/-! ### Reading -/

/-- What is done after `fgets`: the length is one less than that of the text, and a newline there is
removed, unless it is the first character. -/
def chop (s : List Char) : List Char × ℕ :=
  let length := s.length - 1
  if 0 < length ∧ s[length]? = some '\n' then (s.take length, length) else (s, length)

/-- `lines` and `line_length`, one element for each row. -/
abbrev Rows := List (List Char × ℕ)

/-- The loop that reads the grid, where some rows have been read. -/
def readLines (rows : ℕ) (file : List Char) : Rows :=
  match _h : fgets MAX_CHAR file with
  | none => []
  | some (line, rest) => if rows < MAX_LINE then chop line :: readLines (rows + 1) rest else []
termination_by file.length
decreasing_by exact length_of_fgets (Nat.le_add_left 2 249) _h

/-- `lines [row][column]`; the array was filled with null characters. -/
def letterAt (g : Rows) (row column : ℕ) : Char :=
  (((g[row]?.map Prod.fst).getD [])[column]?).getD '\x00'

def lineLength (g : Rows) (row : ℕ) : ℕ := (g[row]?.map Prod.snd).getD 0

def maxLength (g : Rows) : ℕ :=
  g.foldl (fun maxLength row => if row.2 > maxLength then row.2 else maxLength) 0

/-! ### Matching -/

/-- The loop of the three matchers, with the index at its end. -/
def advance (same : ℕ → Bool) (wordLength i : ℕ) : ℕ :=
  if i < wordLength then if same i then advance same wordLength (i + 1) else i else i

def letter (word : List Char) (i : ℕ) : Char := word[i]?.getD '\x00'

variable (g : Rows) (word : List Char) (wordLength row column : ℕ)

def isHorizontal : Bool :=
  if lineLength g row - column ≥ wordLength then
    advance (fun i => letterAt g row (column + i) = letter word i) wordLength 1 = wordLength
  else false

def isVertical : Bool :=
  if g.length - row ≥ wordLength then
    advance (fun i => letterAt g (row + i) column = letter word i) wordLength 1 = wordLength
  else false

def isDiagonal : Bool :=
  if g.length - row ≥ wordLength ∧ maxLength g - column ≥ wordLength then
    advance (fun i => letterAt g (row + i) (column + i) ≠ '\x00'
      && letterAt g (row + i) (column + i) = letter word i) wordLength 1 = wordLength
  else false

inductive Direction where
  | horizontal
  | vertical
  | diagonal
  deriving DecidableEq, Repr

/-- A line that is written: `word (row,column) direction`. -/
structure Line where
  word : List Char
  row : ℕ
  column : ℕ
  direction : Direction
  deriving DecidableEq, Repr

/-- The direction in which the word is found at a place.  The matchers do not look at its first
letter. -/
def found : Option Direction :=
  if letterAt g row column = letter word 0 then
    if isHorizontal g word wordLength row column then some .horizontal
    else if isVertical g word wordLength row column then some .vertical
    else if isDiagonal g word wordLength row column then some .diagonal
    else none
  else none

/-- The loops over the rows and the columns. -/
def search : List Line :=
  (List.range g.length).flatMap fun i =>
    (List.range (lineLength g i)).filterMap fun j =>
      (found g word wordLength i j).map fun direction => ⟨word, i + 1, j + 1, direction⟩

/-- The loop over the words. -/
def searchWords (file : List Char) : List Line :=
  match _h : fgets MAX_WORD_LENGTH file with
  | none => []
  | some (line, rest) =>
      let (word, wordLength) := chop line
      search g word wordLength ++ searchWords rest
termination_by file.length
decreasing_by exact length_of_fgets (Nat.le_add_left 2 9) _h

/-- `main`, with the contents of the two files. -/
def main (input1 input2 : List Char) : List Line := searchWords (readLines 0 input2) input1

end WordSearch

/-! ### Grids -/

namespace WordSearch

open CString

/-- The letters of a line. -/
def Plain (line : List Char) : Prop := ∀ c ∈ line, c ≠ '\n' ∧ c ≠ '\x00'

/-- The lines of a grid file.  The last one may have no newline. -/
structure Grid where
  lines : List (List Char)
  last : Option (List Char)
  plain : ∀ line ∈ lines ++ last.toList, Plain line
  last_ne : ∀ line ∈ last, line ≠ []
  length_le : (lines ++ last.toList).length ≤ 100
  width_le : ∀ line ∈ lines ++ last.toList, line.length ≤ 249

namespace Grid

def text (g : Grid) : List Char := g.lines.flatMap (· ++ ['\n']) ++ g.last.getD []

def all (g : Grid) : List (List Char) := g.lines ++ g.last.toList

/-- The letter at a place inside the lines. -/
def letter? (g : Grid) (row column : ℕ) : Option Char := g.all[row]?.bind (·[column]?)

/-- What the program takes the lengths of the lines to be. -/
def lengths (g : Grid) : List ℕ :=
  g.lines.map List.length ++ g.last.toList.map fun line => line.length - 1

def lineLength (g : Grid) (row : ℕ) : ℕ := g.lengths[row]?.getD 0

def maxLength (g : Grid) : ℕ := g.lengths.foldr max 0

/-- The rows after reading. -/
def rows (g : Grid) : Rows := readLines 0 g.text

end Grid

variable {g : Grid} {line : List Char} {rest : List Char} {r c : ℕ}

/-! ### Reading lines -/

/-- A line that ends in a newline, as it is stored. -/
def stored (line : List Char) : List Char × ℕ :=
  if line = [] then (['\n'], 0) else (line, line.length)

theorem chop_newline (line : List Char) : chop (line ++ ['\n']) = stored line
  := by
  rw [chop, stored, List.length_append, List.length_singleton, Nat.add_sub_cancel]
  cases line with
  | nil => rfl
  | cons c line =>
      rw [if_neg (List.cons_ne_nil c line), if_pos]
      · rw [List.take_append_of_le_length (Nat.le_refl _), List.take_length]
      · constructor
        · exact Nat.succ_pos _
        · rw [List.getElem?_append_right (Nat.le_refl _), Nat.sub_self]
          rfl

theorem chop_of_notMem (h : '\n' ∉ line) : chop line = (line, line.length - 1)
  := by
  rw [chop]
  apply if_neg
  rintro ⟨-, hlast⟩
  exact h (List.mem_of_getElem? hlast)

theorem Plain.notMem (h : Plain line) : '\n' ∉ line := fun hmem => (h _ hmem).1 rfl

theorem readLines_newline {k : ℕ} (hk : k < MAX_LINE) (hplain : Plain line)
    (hwidth : line.length ≤ 249) :
  readLines k (line ++ '\n' :: rest) = stored line :: readLines (k + 1) rest
  := by
  have hread : fgets MAX_CHAR (line ++ '\n' :: rest) = some (line ++ ['\n'], rest) :=
    fgets_line hplain.notMem (by rw [MAX_CHAR]; omega)
  rw [readLines]
  split
  · rename_i hnone
    rw [hread] at hnone
    cases hnone
  · rename_i hsome
    rw [hread] at hsome
    obtain ⟨rfl, rfl⟩ := Prod.mk.inj (Option.some.inj hsome)
    rw [if_pos hk, chop_newline]

theorem readLines_nil {k : ℕ} : readLines k [] = []
  := by
  rw [readLines]
  split
  · rfl
  · rename_i hsome
    cases hsome

theorem readLines_last {k : ℕ} (hk : k < MAX_LINE) (hplain : Plain line) (hne : line ≠ [])
    (hwidth : line.length ≤ 249) :
  readLines k line = [(line, line.length - 1)]
  := by
  have htake : line.take (MAX_CHAR - 1) = line :=
    List.take_of_length_le (hwidth.trans (Nat.le_succ 249))
  have hread : fgets MAX_CHAR line = some (line, []) := by
    have hdrop : line.drop (MAX_CHAR - 1) = [] :=
      List.drop_of_length_le (hwidth.trans (Nat.le_succ 249))
    rw [fgets_of_notMem hne (by rw [htake]; exact hplain.notMem), htake, hdrop]
  rw [readLines]
  split
  · rename_i hnone
    rw [hread] at hnone
    cases hnone
  · rename_i hsome
    rw [hread] at hsome
    obtain ⟨rfl, rfl⟩ := Prod.mk.inj (Option.some.inj hsome)
    rw [if_pos hk, chop_of_notMem hplain.notMem, readLines_nil]

/-- The rows are the lines that are stored. -/
theorem Grid.rows_eq (g : Grid) :
  g.rows = g.lines.map stored ++ g.last.toList.map fun line => (line, line.length - 1)
  := by
  have hread : ∀ (lines : List (List Char)) (k : ℕ), k + (lines ++ g.last.toList).length ≤ 100 →
      (∀ line ∈ lines, Plain line ∧ line.length ≤ 249) →
      readLines k (lines.flatMap (· ++ ['\n']) ++ g.last.getD [])
        = lines.map stored ++ g.last.toList.map fun line => (line, line.length - 1) := by
    intro lines
    induction lines with
    | nil =>
        intro k hk _
        cases hlast : g.last with
        | none => exact readLines_nil
        | some line =>
            rw [hlast] at hk
            have hmem : line ∈ g.lines ++ g.last.toList := by
              rw [hlast]
              exact List.mem_append_right _ List.mem_cons_self
            have hk' : k < MAX_LINE := Nat.lt_succ_of_le ((Nat.le_add_right k _).trans hk)
            exact readLines_last hk' (g.plain line hmem) (g.last_ne line hlast)
              (g.width_le line hmem)
    | cons line lines ih =>
        intro k hk hlines
        obtain ⟨hplain, hwidth⟩ := hlines line List.mem_cons_self
        rw [List.cons_append, List.length_cons] at hk
        rw [List.flatMap_cons, List.append_assoc, List.append_assoc, List.singleton_append,
          readLines_newline _ hplain hwidth, ih (k + 1) (by omega)]
        · rfl
        · exact fun l hl => hlines l (List.mem_cons_of_mem _ hl)
        · rw [MAX_LINE]
          omega
  apply hread g.lines 0
  · rw [Nat.zero_add]
    exact g.length_le
  · intro line hline
    exact ⟨g.plain line (List.mem_append_left _ hline), g.width_le line
      (List.mem_append_left _ hline)⟩

/-! ### What is stored -/

namespace Grid

theorem map_fst_rows (g : Grid) :
  g.rows.map Prod.fst = g.all.map fun line => if line = [] then ['\n'] else line
  := by
  rw [rows_eq, List.map_append, all, List.map_append, List.map_map, List.map_map]
  congr 1
  · apply List.map_congr_left
    intro line _
    rw [Function.comp_apply, stored]
    split_ifs <;> rfl
  · apply List.map_congr_left
    intro line hline
    rw [if_neg (g.last_ne line (Option.mem_toList.mp hline))]
    rfl

theorem map_snd_rows (g : Grid) : g.rows.map Prod.snd = g.lengths
  := by
  rw [rows_eq, List.map_append, lengths, List.map_map, List.map_map]
  congr 1
  apply List.map_congr_left
  intro line _
  rw [Function.comp_apply, stored]
  split_ifs with hline
  · rw [hline]
    rfl
  · rfl

theorem length_rows (g : Grid) : g.rows.length = g.all.length
  := by
  rw [← List.length_map Prod.fst, map_fst_rows, List.length_map]

theorem lineLength_rows : WordSearch.lineLength g.rows r = g.lineLength r
  := by
  rw [WordSearch.lineLength, ← List.getElem?_map, map_snd_rows, lineLength]

theorem maxLength_rows (g : Grid) : WordSearch.maxLength g.rows = g.maxLength
  := by
  have hfold : ∀ (rows : Rows) (m : ℕ),
      rows.foldl (fun maxLength row => if row.2 > maxLength then row.2 else maxLength) m
        = max m ((rows.map Prod.snd).foldr max 0) := by
    intro rows
    induction rows with
    | nil => exact fun m => (Nat.max_zero m).symm
    | cons row rows ih =>
        intro m
        rw [List.foldl_cons, ih, List.map_cons, List.foldr_cons]
        split_ifs <;> omega
  rw [WordSearch.maxLength, hfold, Nat.zero_max, map_snd_rows, maxLength]

/-- A letter is stored exactly where it is inside the lines. -/
theorem letterAt_eq_iff {ch : Char} (hch : ch ≠ '\n' ∧ ch ≠ '\x00') :
  letterAt g.rows r c = ch ↔ g.letter? r c = some ch
  := by
  rw [letterAt, ← List.getElem?_map, map_fst_rows, List.getElem?_map, letter?]
  cases hrow : g.all[r]? with
  | none =>
      constructor
      · intro h
        exact absurd h.symm hch.2
      · intro h
        cases h
  | some l =>
      rw [Option.map_some, Option.getD_some, Option.bind_some]
      split_ifs with hl
      · rw [hl]
        constructor
        · intro h
          cases c with
          | zero => exact absurd h.symm hch.1
          | succ c => exact absurd h.symm hch.2
        · intro h
          cases h
      · cases hletter : l[c]? with
        | none =>
            constructor
            · intro h
              exact absurd h.symm hch.2
            · intro h
              cases h
        | some ch' =>
            rw [Option.getD_some, Option.some_inj]

/-! ### Lengths -/

/-- A row that is not the last one is as long as its line; the last one may be one letter short. -/
theorem length_of_letter? {ch : Char} (h : g.letter? r c = some ch) :
  r < g.all.length ∧ c ≤ g.lineLength r ∧ (r + 1 < g.all.length → c < g.lineLength r)
  := by
  obtain ⟨line, hline, hletter⟩ := Option.bind_eq_some_iff.mp h
  obtain ⟨hr, -⟩ := List.getElem?_eq_some_iff.mp hline
  obtain ⟨hc, -⟩ := List.getElem?_eq_some_iff.mp hletter
  refine ⟨hr, ?_⟩
  rw [all, List.length_append] at hr ⊢
  rw [all] at hline
  rcases Nat.lt_or_ge r g.lines.length with hlt | hge
  · rw [List.getElem?_append_left hlt] at hline
    have hlength : g.lineLength r = line.length := by
      rw [lineLength, lengths, List.getElem?_append_left (by rwa [List.length_map]),
        List.getElem?_map, hline]
      rfl
    omega
  · rw [List.getElem?_append_right hge] at hline
    have hlast : g.last.toList.length ≤ 1 := by
      cases g.last with
      | none => exact Nat.zero_le 1
      | some line => exact Nat.le_refl 1
    have hlength : g.lineLength r = line.length - 1 := by
      rw [lineLength, lengths, List.getElem?_append_right (by rwa [List.length_map]),
        List.length_map, List.getElem?_map, hline]
      rfl
    omega

theorem lt_length_of_lt_lineLength (h : c < g.lineLength r) : r < g.all.length
  := by
  by_contra hge
  have hlength : g.lengths.length = g.all.length := by
    rw [lengths, all, List.length_append, List.length_append, List.length_map, List.length_map]
  rw [lineLength, List.getElem?_eq_none (by omega)] at h
  exact absurd h (Nat.not_lt_zero c)

theorem lineLength_le_maxLength (g : Grid) (r : ℕ) : g.lineLength r ≤ g.maxLength
  := by
  have hle : ∀ (lengths : List ℕ), ∀ n ∈ lengths, n ≤ lengths.foldr max 0 := by
    intro lengths
    induction lengths with
    | nil => exact fun n hn => absurd hn List.not_mem_nil
    | cons m lengths ih =>
        intro n hn
        rw [List.foldr_cons]
        rcases List.mem_cons.mp hn with rfl | hn
        · exact Nat.le_max_left _ _
        · exact (ih n hn).trans (Nat.le_max_right _ _)
  rw [lineLength]
  cases h : g.lengths[r]? with
  | none => exact Nat.zero_le _
  | some n => exact hle g.lengths n (List.mem_of_getElem? h)

end Grid

end WordSearch
