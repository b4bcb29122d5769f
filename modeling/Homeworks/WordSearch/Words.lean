import Homeworks.WordSearch.Matching
import Mathlib.Data.List.Nodup

/-!
# The words of a list

A word that does not fit into the buffer is read in pieces.  The program takes a piece without its
newline to be one letter shorter.
-/

namespace WordSearch

open CString

/-- A word of a list, and whether a newline follows. -/
structure Word where
  letters : List Char
  terminated : Bool
  plain : Plain letters
  ne_nil : letters ≠ []

def Word.text (w : Word) : List Char := w.letters ++ if w.terminated then ['\n'] else []

/-- The last word of a list may have no newline. -/
structure WordList where
  words : List Word
  terminated : ∀ w ∈ words.dropLast, w.terminated = true

def WordList.text (ws : WordList) : List Char := ws.words.flatMap Word.text

/-- The parts of a word that are read one after the other. -/
def pieces (letters : List Char) : List (List Char) :=
  if letters.length ≤ 10 then [letters] else letters.take 10 :: pieces (letters.drop 10)
termination_by letters.length
decreasing_by
  rw [List.length_drop]
  omega

/-- How many letters of a piece are compared. -/
def comparedLength (terminated : Bool) (piece : List Char) : ℕ :=
  if terminated = true ∧ piece.length ≤ 9 then piece.length else piece.length - 1

variable {g : Rows} {file line rest letters piece : List Char} {terminated : Bool}

/-! ### Reading words -/

theorem searchWords_nil : searchWords g [] = []
  := by
  rw [searchWords]
  split
  · rfl
  · rename_i hsome
    cases hsome

theorem searchWords_of_fgets (h : fgets MAX_WORD_LENGTH file = some (line, rest)) :
  searchWords g file = search g (chop line).1 (chop line).2 ++ searchWords g rest
  := by
  rw [searchWords]
  split
  · rename_i hnone
    rw [h] at hnone
    cases hnone
  · rename_i hsome
    rw [h] at hsome
    obtain ⟨rfl, rfl⟩ := Prod.mk.inj (Option.some.inj hsome)
    rfl

/-- With no letters to compare nothing is found, since the matchers begin with the second one. -/
theorem search_zero (word : List Char) : search g word 0 = []
  := by
  have hfound : ∀ i j, found g word 0 i j = none := by
    intro i j
    have hloop : ∀ same : ℕ → Bool, decide (advance same 0 1 = 0) = false :=
      fun same => decide_eq_false advance_zero
    rw [found, isHorizontal, isVertical, isDiagonal]
    simp only [hloop, ite_self, Bool.false_eq_true, if_false]
  rw [search]
  apply List.flatMap_eq_nil_iff.mpr
  intro i _
  apply List.filterMap_eq_nil_iff.mpr
  intro j _
  rw [hfound]
  rfl

/-- A newline that is left of a word finds nothing. -/
theorem searchWords_newline : searchWords g ('\n' :: rest) = searchWords g rest
  := by
  have hread : fgets MAX_WORD_LENGTH ([] ++ '\n' :: rest) = some ([] ++ ['\n'], rest) :=
    fgets_line List.not_mem_nil (by decide)
  rw [← List.nil_append ('\n' :: rest), searchWords_of_fgets hread, chop_newline]
  exact congrArg (· ++ searchWords g rest) (search_zero ['\n'])

/-- Ten letters fill the buffer. -/
theorem searchWords_full (hlength : piece.length = 10) (h : '\n' ∉ piece) :
  searchWords g (piece ++ rest) = search g piece 9 ++ searchWords g rest
  := by
  have htake : (piece ++ rest).take (MAX_WORD_LENGTH - 1) = piece :=
    List.take_left' hlength
  have hdrop : (piece ++ rest).drop (MAX_WORD_LENGTH - 1) = rest :=
    List.drop_left' hlength
  have hne : piece ++ rest ≠ [] := by
    apply List.append_ne_nil_of_left_ne_nil
    rw [← List.length_pos_iff, hlength]
    decide
  have hread : fgets MAX_WORD_LENGTH (piece ++ rest) = some (piece, rest) := by
    rw [fgets_of_notMem hne (by rwa [htake]), htake, hdrop]
  rw [searchWords_of_fgets hread, chop_of_notMem h, hlength]

/-- What is written while a word is read. -/
theorem searchWords_word (hplain : Plain letters) (hne : letters ≠ [])
    (hrest : terminated = false → rest = []) :
  searchWords g (letters ++ (if terminated then ['\n'] else []) ++ rest)
    = (pieces letters).flatMap (fun piece => search g piece (comparedLength terminated piece))
      ++ searchWords g rest
  := by
  fun_induction pieces letters with
  | case1 letters hle =>
      rw [List.flatMap_singleton]
      cases terminated with
      | false =>
          obtain rfl := hrest rfl
          have htake : letters.take (MAX_WORD_LENGTH - 1) = letters := List.take_of_length_le hle
          have hdrop : letters.drop (MAX_WORD_LENGTH - 1) = [] := List.drop_of_length_le hle
          have hread : fgets MAX_WORD_LENGTH letters = some (letters, []) := by
            rw [fgets_of_notMem hne (by rw [htake]; exact hplain.notMem), htake, hdrop]
          rw [List.append_nil, if_neg Bool.false_ne_true, List.append_nil,
            searchWords_of_fgets hread, chop_of_notMem hplain.notMem, comparedLength,
            if_neg (fun h => Bool.false_ne_true h.1)]
      | true =>
          rw [if_pos rfl, List.append_assoc, List.singleton_append]
          rcases Nat.lt_or_ge letters.length 10 with hlt | hge
          · have hread : fgets MAX_WORD_LENGTH (letters ++ '\n' :: rest)
                = some (letters ++ ['\n'], rest) :=
              fgets_line hplain.notMem (Nat.succ_lt_succ hlt)
            rw [searchWords_of_fgets hread, chop_newline, stored, if_neg hne, comparedLength,
              if_pos ⟨rfl, Nat.le_of_lt_succ hlt⟩]
          · have hlength := Nat.le_antisymm hle hge
            rw [searchWords_full hlength hplain.notMem, searchWords_newline, comparedLength,
              if_neg (fun h => by omega), hlength]
  | case2 letters hgt ih =>
      have hlength : (letters.take 10).length = 10 := List.length_take_of_le (by omega)
      have hplain' : Plain (letters.take 10) := fun c hc => hplain c (List.mem_of_mem_take hc)
      have hplain'' : Plain (letters.drop 10) := fun c hc => hplain c (List.mem_of_mem_drop hc)
      have hne' : letters.drop 10 ≠ [] := by
        rw [← List.length_pos_iff, List.length_drop]
        omega
      have hsplit : letters ++ (if terminated then ['\n'] else []) ++ rest
          = letters.take 10 ++ (letters.drop 10 ++ (if terminated then ['\n'] else [])
          ++ rest) := by
        rw [← List.append_assoc, ← List.append_assoc, List.take_append_drop]
      rw [hsplit, searchWords_full hlength hplain'.notMem, ih hplain'' hne', List.flatMap_cons,
        List.append_assoc, comparedLength, hlength, if_neg (fun h => absurd h.2 (by decide))]

/-- The words of a list are handled one after the other. -/
theorem searchWords_text (ws : WordList) :
  searchWords g ws.text = ws.words.flatMap fun w => searchWords g w.text
  := by
  have hwords : ∀ words : List Word, (∀ w ∈ words.dropLast, w.terminated = true) →
      searchWords g (words.flatMap Word.text) = words.flatMap fun w => searchWords g w.text := by
    intro words
    induction words with
    | nil => exact fun _ => searchWords_nil
    | cons w words ih =>
        intro hterminated
        cases words with
        | nil =>
            rw [List.flatMap_singleton, List.flatMap_singleton]
        | cons w' words =>
            rw [List.dropLast_cons_cons] at hterminated
            have hw := hterminated w List.mem_cons_self
            have hwhole : searchWords g (w.text ++ (w' :: words).flatMap Word.text) = _ :=
              searchWords_word w.plain w.ne_nil fun hfalse =>
                absurd (hw.symm.trans hfalse) (by decide)
            have halone : searchWords g (w.text ++ []) = _ :=
              searchWords_word w.plain w.ne_nil fun _ => rfl
            rw [List.append_nil, searchWords_nil, List.append_nil] at halone
            have htext : (w :: w' :: words).flatMap Word.text
                = w.text ++ (w' :: words).flatMap Word.text := List.flatMap_cons
            have hparts : (w :: w' :: words).flatMap (fun w => searchWords g w.text)
                = searchWords g w.text ++ (w' :: words).flatMap fun w => searchWords g w.text :=
              List.flatMap_cons
            rw [htext, hparts, hwhole, halone, ih fun w hw =>
              hterminated w (List.mem_cons_of_mem _ hw)]
  exact hwords ws.words ws.terminated

end WordSearch
