import Homeworks.CString.Fields
import Homeworks.Sparse.Matrix

/-!
# Printing and reading matrices

How a `double` is printed and read is a parameter.
-/

namespace SparseMatrix

open CString

abbrev Text := List Char

/-- `<<` and `>>` for a `double`. -/
structure Doubles where
  print : ℚ → Text
  extract : Text → Option (ℚ × Text)

/-- A value is read back where a space follows, and it is printed in one line. -/
structure Doubles.Exact (doubles : Doubles) (x : ℚ) : Prop where
  extract_print : ∀ rest, doubles.extract (doubles.print x ++ ' ' :: rest) = some (x, ' ' :: rest)
  one_line : '\n' ∉ doubles.print x

variable (doubles : Doubles)

/-! ### Printing -/

/-- An element without its row. -/
def pair (m : Mat) : Text := decimal m.index ++ ':' :: (doubles.print m.data ++ [' '])

/-- The loop of `operator<<` with the row of the last element, which there is none of at first. -/
def printFrom (exRow : Option ℤ) : SparseMatrix → Text
  | [] => []
  | m :: l =>
      (if exRow = some m.rowIndex then pair doubles m
        else '\n' :: (decimal m.rowIndex ++ ' ' :: pair doubles m))
      ++ printFrom (some m.rowIndex) l

/-- `operator<<`. -/
def print (a : SparseMatrix) : Text := printFrom doubles none a

/-! ### Reading -/

/-- `>>` for an `int`. -/
def readInt (s : Text) : Option (ℤ × Text) := do
  let (n, rest) ← number s
  if -2 ^ 31 ≤ n ∧ n < 2 ^ 31 then some (n, rest) else none

/-- `>>` for a `char`. -/
def readChar (s : Text) : Option (Char × Text) :=
  match s.dropWhile isSpace with
  | [] => none
  | c :: rest => some (c, rest)

/-- The loop over the elements of a line.  Each round reads a character at least, so there are no
more rounds than characters. -/
def entries (rowIndex : ℤ) : ℕ → Text → SparseMatrix
  | 0, _ => []
  | rounds + 1, s =>
      match do
        let (index, s) ← readInt s
        let (_, s) ← readChar s
        let (data, s) ← doubles.extract s
        return (index, data, s)
      with
      | none => []
      | some (index, data, s) => ⟨index, rowIndex, data⟩ :: entries rowIndex rounds s

/-- A line.  Where it does not start with a row nothing more is read from it. -/
def readLine (line : Text) : SparseMatrix :=
  match readInt line with
  | none => []
  | some (rowIndex, rest) => entries doubles rowIndex rest.length rest

/-- `SparseMatrix (filename)`. -/
def readFile (file : Text) : SparseMatrix := (lines file).flatMap (readLine doubles)

/-! ### A line is read back -/

variable {doubles}

/-- The indices of an element are of type `int` and its data is read back. -/
structure Readable (doubles : Doubles) (m : Mat) : Prop where
  index : -2 ^ 31 ≤ m.index ∧ m.index < 2 ^ 31
  rowIndex : -2 ^ 31 ≤ m.rowIndex ∧ m.rowIndex < 2 ^ 31
  data : doubles.Exact m.data

theorem number_space (s : Text) : number (' ' :: s) = number s
  := by
  rw [number, number]
  rfl

theorem readInt_decimal {n : ℤ} (h : -2 ^ 31 ≤ n ∧ n < 2 ^ 31) {c : Char} (hc : c.isDigit = false)
    (rest : Text) :
  readInt (decimal n ++ c :: rest) = some (n, c :: rest)
  := by
  have hend : EndsNumber (c :: rest) := by
    rintro _ ⟨⟩
    exact hc
  rw [readInt, number_decimal hend]
  exact if_pos h

theorem readInt_space (s : Text) : readInt (' ' :: s) = readInt s
  := by
  rw [readInt, number_space]
  rfl

theorem entries_pair {m : Mat} (h : Readable doubles m) (rounds : ℕ) (rest : Text) :
  entries doubles m.rowIndex (rounds + 1) (' ' :: (pair doubles m ++ rest))
    = m :: entries doubles m.rowIndex rounds (' ' :: rest)
  := by
  have hlist : pair doubles m ++ rest
      = decimal m.index ++ ':' :: (doubles.print m.data ++ ' ' :: rest) := by
    simp [pair]
  have hchar : readChar (':' :: (doubles.print m.data ++ ' ' :: rest))
      = some (':', doubles.print m.data ++ ' ' :: rest) := rfl
  rw [hlist, entries, readInt_space, readInt_decimal h.index (by decide)]
  simp only [Option.bind_eq_bind, Option.bind_some, hchar, h.data.extract_print]
  rfl

/-- The elements of a row are read back. -/
theorem entries_pairs {l : SparseMatrix} {r : ℤ} (hl : ∀ m ∈ l, Readable doubles m ∧ m.rowIndex = r)
    {rounds : ℕ} (hrounds : l.length < rounds) :
  entries doubles r rounds (' ' :: l.flatMap (pair doubles)) = l
  := by
  induction l generalizing rounds with
  | nil =>
      cases rounds with
      | zero => rfl
      | succ rounds => rfl
  | cons m l ih =>
      obtain ⟨⟨hm, rfl⟩, hl⟩ := List.forall_mem_cons.mp hl
      obtain ⟨rounds, rfl⟩ : ∃ k, rounds = k + 1 :=
        Nat.exists_eq_succ_of_ne_zero (Nat.ne_zero_of_lt hrounds)
      rw [List.flatMap_cons, entries_pair hm, ih hl (Nat.lt_of_succ_lt_succ hrounds)]

/-- A line for the elements of a row. -/
def rowLine (doubles : Doubles) (r : ℤ) (l : SparseMatrix) : Text :=
  decimal r ++ ' ' :: l.flatMap (pair doubles)

theorem readLine_rowLine {l : SparseMatrix} {r : ℤ} (hr : -2 ^ 31 ≤ r ∧ r < 2 ^ 31)
    (hl : ∀ m ∈ l, Readable doubles m ∧ m.rowIndex = r) :
  readLine doubles (rowLine doubles r l) = l
  := by
  have hlength : l.length < (' ' :: l.flatMap (pair doubles)).length := by
    rw [List.length_cons, Nat.lt_succ_iff]
    clear hl
    induction l with
    | nil => exact Nat.zero_le _
    | cons m l ih =>
        rw [List.flatMap_cons, List.length_append, List.length_cons, pair, List.length_append,
          List.length_cons]
        omega
  rw [rowLine, readLine, readInt_decimal hr (by decide)]
  exact entries_pairs hl hlength

theorem notMem_decimal (n : ℤ) : '\n' ∉ decimal n
  := by
  intro hn
  rcases of_mem_decimal hn with h | h
  · exact absurd h (by decide)
  · exact absurd h (by decide)

theorem notMem_rowLine {l : SparseMatrix} {r : ℤ} (hl : ∀ m ∈ l, Readable doubles m) :
  '\n' ∉ rowLine doubles r l
  := by
  have hpair : ∀ m ∈ l, '\n' ∉ pair doubles m := by
    intro m hm
    simp [pair, notMem_decimal, (hl m hm).data.one_line]
  simpa [rowLine, notMem_decimal] using hpair

/-! ### A file is read back -/

/-- What is printed for the other elements of a row, and for those after it. -/
theorem printFrom_eq (r : ℤ) (l : SparseMatrix) :
  ∃ l₁ l₂ : SparseMatrix, l = l₁ ++ l₂ ∧ (∀ m ∈ l₁, m.rowIndex = r)
    ∧ printFrom doubles (some r) l = l₁.flatMap (pair doubles) ++ printFrom doubles none l₂
  := by
  induction l with
  | nil => exact ⟨[], [], rfl, fun _ hm => absurd hm List.not_mem_nil, rfl⟩
  | cons m l ih =>
      by_cases hr : m.rowIndex = r
      · obtain ⟨l₁, l₂, rfl, hrow, hprint⟩ := ih
        refine ⟨m :: l₁, l₂, rfl, List.forall_mem_cons.mpr ⟨hr, hrow⟩, ?_⟩
        rw [printFrom, hr, if_pos rfl, hprint, List.flatMap_cons, List.append_assoc]
      · refine ⟨[], m :: l, rfl, fun _ hm => absurd hm List.not_mem_nil, ?_⟩
        rw [printFrom, if_neg fun heq => hr (Option.some.inj heq).symm]
        rfl

/-- What is printed for a matrix that is not empty is a new line and then a text whose lines are
read back. -/
theorem readFile_printFrom {l : SparseMatrix} (hl : ∀ m ∈ l, Readable doubles m) (hne : l ≠ []) :
  ∃ s, printFrom doubles none l = '\n' :: s ∧ readFile doubles s = l
  := by
  generalize hn : l.length = n
  induction n using Nat.strong_induction_on generalizing l with
  | h n ih =>
      obtain ⟨m, l, rfl⟩ := List.exists_cons_of_ne_nil hne
      obtain ⟨l₁, l₂, rfl, hrow, hprint⟩ : ∃ l₁ l₂ : SparseMatrix, l = l₁ ++ l₂
          ∧ (∀ x ∈ l₁, x.rowIndex = m.rowIndex) ∧ printFrom doubles (some m.rowIndex) l
            = l₁.flatMap (pair doubles) ++ printFrom doubles none l₂ :=
        printFrom_eq m.rowIndex l
      rw [← List.cons_append] at hl
      obtain ⟨hl₁, hl₂⟩ := List.forall_mem_append.mp hl
      have hm := hl₁ m List.mem_cons_self
      have hline : readLine doubles (rowLine doubles m.rowIndex (m :: l₁)) = m :: l₁ :=
        readLine_rowLine hm.rowIndex fun x hx => ⟨hl₁ x hx, by
          rcases List.mem_cons.mp hx with rfl | hx
          · rfl
          · exact hrow x hx⟩
      refine ⟨rowLine doubles m.rowIndex (m :: l₁) ++ printFrom doubles none l₂, ?_, ?_⟩
      · rw [printFrom, hprint]
        simp [rowLine]
      · by_cases hnil : l₂ = []
        · subst hnil
          have hlines : lines (rowLine doubles m.rowIndex (m :: l₁) ++ printFrom doubles none [])
              = [rowLine doubles m.rowIndex (m :: l₁)] := by
            rw [printFrom, List.append_nil]
            refine lines_of_notMem ?_ (notMem_rowLine hl₁)
            simp [rowLine]
          rw [readFile, hlines, List.flatMap_singleton, hline, List.append_nil]
        · have hlt : l₂.length < n := by
            rw [← hn, List.length_cons, List.length_append]
            omega
          obtain ⟨s, hs, hread⟩ := ih l₂.length hlt hl₂ hnil rfl
          rw [hs, readFile, lines_append_newline (notMem_rowLine hl₁), List.flatMap_cons, hline]
          exact congrArg (m :: l₁ ++ ·) hread

/-- A matrix whose indices are of type `int`, and whose data is printed and read exactly, is read
back from what is printed. -/
theorem readFile_print {a : SparseMatrix} (ha : ∀ m ∈ a, Readable doubles m) :
  readFile doubles (print doubles a) = a
  := by
  by_cases hne : a = []
  · subst hne
    rfl
  · obtain ⟨s, hs, hread⟩ := readFile_printFrom ha hne
    have hlines : lines ('\n' :: s) = [] :: lines s := lines_append_newline List.not_mem_nil s
    rw [print, hs, readFile, hlines]
    exact hread

/-- Values that are integers, printed and read as such. -/
def integers : Doubles where
  print x := decimal x.num
  extract s := (readInt s).map fun (n, rest) => (n, rest)

/-- Three rows, of which one is interrupted. -/
theorem readFile_interrupted :
  readFile integers (print integers [⟨5, 2, 3⟩, ⟨-1, 2, -7⟩, ⟨0, 1, 4⟩, ⟨3, 2, 1⟩])
    = [⟨5, 2, 3⟩, ⟨-1, 2, -7⟩, ⟨0, 1, 4⟩, ⟨3, 2, 1⟩]
  := by
  have hexact : ∀ n : ℤ, -2 ^ 31 ≤ n ∧ n < 2 ^ 31 → integers.Exact n := by
    intro n hn
    constructor
    · intro rest
      change (readInt (decimal (n : ℚ).num ++ ' ' :: rest)).map _ = _
      rw [Rat.num_intCast, readInt_decimal hn (by decide)]
      rfl
    · change '\n' ∉ decimal (n : ℚ).num
      exact notMem_decimal _
  have h : ∀ i r n : ℤ, -2 ^ 31 ≤ i ∧ i < 2 ^ 31 → -2 ^ 31 ≤ r ∧ r < 2 ^ 31 →
      -2 ^ 31 ≤ n ∧ n < 2 ^ 31 → Readable integers ⟨i, r, n⟩ :=
    fun i r n hi hr hn => ⟨hi, hr, hexact n hn⟩
  refine readFile_print ?_
  simp only [List.forall_mem_cons]
  exact ⟨h 5 2 3 (by decide) (by decide) (by decide), h (-1) 2 (-7) (by decide) (by decide)
    (by decide), h 0 1 4 (by decide) (by decide) (by decide), h 3 2 1 (by decide) (by decide)
    (by decide), fun _ hm => absurd hm List.not_mem_nil⟩

end SparseMatrix
