import Mathlib.Data.List.Basic
import Mathlib.Data.List.TakeWhile

/-!
# Texts

A text is a list of characters, each of which stands for one byte.  White space, words and
lines are those of the C locale.
-/

namespace CString

/-- `isspace`. -/
def isSpace (c : Char) : Bool := c = ' ' || ('\t' ≤ c && c ≤ '\r')

/-- The words of a text, as `>>` reads them. -/
def words (s : List Char) : List (List Char) :=
  (s.splitOnP isSpace).filter fun word => !word.isEmpty

/-- The pieces of a text up to a delimiter, as `getline` reads them: what follows the last delimiter
is a piece unless it is empty. -/
def getlines (d : Char) (s : List Char) : List (List Char) :=
  let all := s.splitOn d
  if all.getLast? = some [] then all.dropLast else all

/-- The lines of a text, as `getline` reads them. -/
def lines (s : List Char) : List (List Char) := getlines '\n' s

/-- The string that starts with the first of some bytes. -/
def string (bytes : List Char) : List Char := bytes.takeWhile (· ≠ '\x00')

/-- What is checked of the characters of a text one after another holds of each of them. -/
theorem forall_mem_of_all {p : Char → Bool} {b : Bool} {s : List Char}
    (h : s.all (fun c => p c == b) = true) :
  ∀ c ∈ s, p c = b
  := fun c hc => eq_of_beq (List.all_eq_true.mp h c hc)

/-! ### Lines -/

/-- The bytes before the first newline. -/
def firstLine (s : List Char) : List Char := s.takeWhile (· ≠ '\n')

variable {s line : List Char}

theorem firstLine_of_notMem (h : '\n' ∉ s) :
  firstLine s = s
  := List.takeWhile_eq_self_iff.mpr fun _ hc => decide_eq_true fun heq => h (heq ▸ hc)

theorem firstLine_append_newline (h : '\n' ∉ line) (s : List Char) :
  firstLine (line ++ '\n' :: s) = line
  := by
  have hline : ∀ c ∈ line, decide (c ≠ '\n') = true := fun _ hc =>
    decide_eq_true fun heq => h (heq ▸ hc)
  rw [firstLine, List.takeWhile_append_of_pos hline]
  exact List.append_nil line

theorem eq_append_newline (h : '\n' ∈ s) :
  ∃ line rest, '\n' ∉ line ∧ s = line ++ '\n' :: rest
  := by
  obtain ⟨line, rest, hs, hline⟩ := List.eq_append_cons_of_mem h
  exact ⟨line, rest, hline, hs⟩

theorem notMem_of_mem_splitOn {d : Char} (h : line ∈ s.splitOn d) :
  d ∉ line
  := by
  induction s generalizing line with
  | nil =>
      rw [List.mem_singleton.mp h]
      exact List.not_mem_nil
  | cons c s ih =>
      rw [List.splitOn_cons_eq_if_modifyHead] at h
      split at h
      next =>
        rcases List.mem_cons.mp h with rfl | h
        · exact List.not_mem_nil
        · exact ih h
      next hc =>
        obtain ⟨first, rest, hsplit⟩ := List.exists_cons_of_ne_nil (List.splitOn_ne_nil d s)
        rw [hsplit] at h ih
        rcases List.mem_cons.mp h with rfl | h
        · intro hmem
          rcases List.mem_cons.mp hmem with rfl | hmem
          · exact hc BEq.rfl
          · exact ih List.mem_cons_self hmem
        · exact ih (List.mem_cons_of_mem first h)

theorem getlines_of_notMem {d : Char} (hne : s ≠ []) (h : d ∉ s) :
  getlines d s = [s]
  := by
  rw [getlines, List.splitOn_eq_singleton h]
  exact if_neg fun hlast => hne (Option.some.inj hlast)

/-- What `getline` reads first, and what it reads then. -/
theorem getlines_append {d : Char} (h : d ∉ line) (s : List Char) :
  getlines d (line ++ d :: s) = line :: getlines d s
  := by
  have hsplit : (line ++ d :: s).splitOn d = line :: s.splitOn d := by
    rw [List.splitOn_append_cons_of_beq _ _ BEq.rfl, List.splitOn_eq_singleton h]
    rfl
  have hne := List.splitOn_ne_nil d s
  rw [getlines, getlines, hsplit, List.getLast?_cons_of_ne_nil hne,
    List.dropLast_cons_of_ne_nil hne]
  exact apply_ite (line :: ·) _ _ _ |>.symm

theorem notMem_of_mem_getlines {d : Char} (h : line ∈ getlines d s) :
  d ∉ line
  := by
  rw [getlines] at h
  split at h
  · exact notMem_of_mem_splitOn (List.dropLast_subset _ h)
  · exact notMem_of_mem_splitOn h

/-- Pieces that are written with delimiters are read again. -/
theorem getlines_flatMap {d : Char} {pieces : List (List Char)} (h : ∀ piece ∈ pieces, d ∉ piece) :
  getlines d (pieces.flatMap (· ++ [d])) = pieces
  := by
  induction pieces with
  | nil => rfl
  | cons piece pieces ih =>
      rw [List.flatMap_cons, List.append_assoc, List.singleton_append,
        getlines_append (h piece List.mem_cons_self),
        ih fun piece' hmem => h piece' (List.mem_cons_of_mem piece hmem)]

theorem lines_nil :
  lines [] = []
  := rfl

theorem lines_of_notMem (hne : s ≠ []) (h : '\n' ∉ s) :
  lines s = [s]
  := getlines_of_notMem hne h

theorem lines_append_newline (h : '\n' ∉ line) (s : List Char) :
  lines (line ++ '\n' :: s) = line :: lines s
  := getlines_append h s

theorem lines_of_ne_nil (h : s ≠ []) :
  lines s = firstLine s :: lines (s.drop ((firstLine s).length + 1))
  := by
  by_cases hmem : '\n' ∈ s
  · obtain ⟨line, rest, hline, rfl⟩ := eq_append_newline hmem
    rw [lines_append_newline hline, firstLine_append_newline hline]
    simp
  · rw [firstLine_of_notMem hmem, lines_of_notMem h hmem, List.drop_eq_nil_of_le (Nat.le_succ _),
      lines_nil]

end CString
