import Homeworks.LogicCircuit.Gates
import Homeworks.Occurrence.Places
import Mathlib.Algebra.Group.Nat.Even
import Mathlib.Data.List.DropRight

/-!
# The two counts of gates

A gate is counted where a line that `main` looks at begins with `G`, and created where a line has
three words of which the first is `GATE`.  An empty line that `main` looks at hides the next line,
since its newline is taken for a first character.
-/

namespace LogicCircuit

open CString Occurrence

/-! ### Lines -/

/-- The lines of a text with their newlines, where the beginning of a line is known. -/
def linesOf (line : List Char) : List Char → List (List Char)
  | [] => if line = [] then [] else [line]
  | c :: s => if c = '\n' then (line ++ [c]) :: linesOf [] s else linesOf (line ++ [c]) s

/-- The first three words of a line fit into their buffers. -/
def WordsFit (line : List Char) : Prop :=
  ∀ p ∈ ((words (string line)).take 3).zip [15, 15, 20], p.1.length < p.2

/-- The lines are shorter than the buffer for lines, and their words fit. -/
def Fits (file : List Char) : Prop :=
  ∀ line ∈ linesOf [] file, line.length < 100 ∧ WordsFit line

instance (line : List Char) : Decidable (WordsFit line) :=
  inferInstanceAs (Decidable (∀ _ ∈ _, _))

instance (file : List Char) : Decidable (Fits file) :=
  inferInstanceAs (Decidable (∀ _ ∈ _, _))

/-- The gate of a line. -/
def gate? (line : List Char) : Option Gate :=
  match (words (string line)).take 3 with
  | [keyword, gateType, name] =>
    if keyword = "GATE".toList then some (gates gateType name) else none
  | _ => none

variable {file line s : List Char} {before : List (List Char)} {size : ℕ}

theorem exists_linesOf (line : List Char) (c : Char) (s : List Char) :
  ∃ l ∈ linesOf line (c :: s), line.length + 1 ≤ l.length
  := by
  induction s generalizing line c with
  | nil =>
      rw [linesOf]
      split_ifs with hc
      · exact ⟨line ++ [c], List.mem_cons_self, by simp⟩
      · rw [linesOf, if_neg (by simp)]
        exact ⟨line ++ [c], List.mem_cons_self, by simp⟩
  | cons d s ih =>
      rw [linesOf]
      split_ifs with hc
      · exact ⟨line ++ [c], List.mem_cons_self, by simp⟩
      · obtain ⟨l, hl, hlength⟩ := ih (line ++ [c]) d
        rw [List.length_append, List.length_singleton] at hlength
        exact ⟨l, hl, by omega⟩

/-- `fgets` reads lines that are shorter than the buffer. -/
theorem fgets_eq (h : ∀ l ∈ linesOf line s, l.length < size) :
  fgets size line s = linesOf line s
  := by
  induction s generalizing line with
  | nil => rfl
  | cons c s ih =>
      rw [linesOf] at h ⊢
      rw [fgets]
      by_cases hc : c = '\n'
      · rw [if_pos hc] at h ⊢
        rw [if_pos (.inl hc), ih fun l hl => h l (List.mem_cons_of_mem _ hl)]
      · rw [if_neg hc] at h ⊢
        by_cases hlength : line.length + 2 = size
        · -- a full buffer is the end of the text
          rw [if_pos (.inr hlength)]
          cases s with
          | nil =>
              rw [fgets, if_pos rfl, linesOf, if_neg (by simp)]
          | cons d s =>
              obtain ⟨l, hl, hle⟩ := exists_linesOf (line ++ [c]) d s
              rw [List.length_append, List.length_singleton] at hle
              have hlt := h l hl
              omega
        · rw [if_neg (by simp [hc, hlength]), ih h]

/-! ### Creating gates -/

theorem createGates_cons {lines : List (List Char)} (h : WordsFit line) (count : ℕ)
    (gateArr : List (Option Gate)) :
  createGates (line :: lines) count gateArr
    = (gate? line).elim (createGates lines count gateArr) fun gate =>
        (write gateArr count [some gate]).bind (createGates lines (count + 1))
  := by
  have hscan : sscanf [15, 15, 20] line = .ok ((words (string line)).take 3) := if_pos h
  rw [createGates, hscan, gate?]
  split
  · contradiction
  · next keyword gateType name heq =>
      rw [Except.ok.inj heq]
      dsimp only
      split_ifs with hkeyword
      · dsimp only [Option.elim_some]
        cases write gateArr count [some (gates gateType name)] <;> rfl
      · rfl
  · next read hread heq =>
      rw [Except.ok.inj heq]
      split
      · next keyword gateType name =>
          exact absurd rfl (hread keyword gateType name)
      · rfl

/-- The gates are stored as long as there is a place for them. -/
theorem createGates_eq {lines : List (List Char)} (h : ∀ line ∈ lines, WordsFit line) {count : ℕ}
    {gateArr : List (Option Gate)} (hcount : count ≤ gateArr.length) :
  createGates lines count gateArr
    = if count + (lines.filterMap gate?).length ≤ gateArr.length then
        .ok (gateArr.take count ++ (lines.filterMap gate?).map some
          ++ gateArr.drop (count + (lines.filterMap gate?).length))
      else .error .writeOutside
  := by
  induction lines generalizing count gateArr with
  | nil =>
      rw [createGates]
      simp [hcount]
  | cons line lines ih =>
      obtain ⟨hline, hlines⟩ := List.forall_mem_cons.mp h
      rw [createGates_cons hline]
      cases hgate : gate? line with
      | none =>
          rw [Option.elim_none, ih hlines hcount, List.filterMap_cons_none hgate]
      | some gate =>
          rw [Option.elim_some, List.filterMap_cons_some hgate, List.length_cons]
          rcases Nat.lt_or_ge count gateArr.length with hlt | hge
          · have hwrite : write gateArr count [some gate]
              = .ok (gateArr.set count (some gate)) := by
              rw [write, if_pos hlt, write]
            rw [hwrite, Except.bind, ih hlines (by rw [List.length_set]; omega), List.length_set,
              Nat.add_right_comm, ← Nat.add_assoc]
            congr 2
            rw [List.drop_set_of_lt (by omega), List.take_add_one,
              List.take_set_of_le (Nat.le_refl _),
              List.getElem?_set_self hlt]
            simp
          · rw [write, if_neg (by omega), if_neg (by omega)]
            rfl

theorem filled_iff (h : Fits file) :
  Filled file ↔ ((linesOf [] file).filterMap gate?).length = gateCount file
  := by
  have hread : fgets 100 [] file = linesOf [] file := fgets_eq fun line hline => (h line hline).1
  have hcreate := createGates_eq (fun line hline => (h line hline).2) (Nat.zero_le
    (List.replicate (gateCount file) (none : Option Gate)).length)
  rw [List.length_replicate, Nat.zero_add, List.take_zero, List.nil_append, List.drop_replicate]
    at hcreate
  rw [Filled, hread, hcreate]
  split_ifs with hle
  · constructor
    · rintro ⟨gateArr, hgateArr, hsome⟩
      rw [← Except.ok.inj hgateArr] at hsome
      by_contra hne
      have hnone : (none : Option Gate) ∈ List.replicate
          (gateCount file - ((linesOf [] file).filterMap gate?).length) none :=
        List.mem_replicate.mpr ⟨by omega, rfl⟩
      exact Bool.false_ne_true (hsome _ (List.mem_append_right _ hnone))
    · intro heq
      refine ⟨_, rfl, ?_⟩
      rw [heq, Nat.sub_self, List.replicate_zero, List.append_nil]
      intro gate hgate
      obtain ⟨_, -, rfl⟩ := List.mem_map.mp hgate
      rfl
  · exact iff_of_false (by rintro ⟨_, hgateArr, -⟩; cases hgateArr) fun heq => hle heq.le

/-! ### Gates and counted lines -/

/-- A line is a gate: its words are `GATE` and two more. -/
def IsGate (line : List Char) : Prop := (gate? line).isSome = true

/-- The number of empty lines directly before a line. -/
def emptyLines (before : List (List Char)) : ℕ :=
  (before.rtakeWhile fun line => line = ['\n']).length

/-- A line begins with `G`, and an even number of empty lines is directly before it. -/
def Counted (before : List (List Char)) (line : List Char) : Prop :=
  line.head? = some 'G' ∧ Even (emptyLines before)

instance (line : List Char) : Decidable (IsGate line) := inferInstanceAs (Decidable (_ = _))

instance (before : List (List Char)) (line : List Char) : Decidable (Counted before line) :=
  inferInstanceAs (Decidable (_ ∧ _))

theorem emptyLines_concat (before : List (List Char)) (line : List Char) :
  emptyLines (before ++ [line]) = if line = ['\n'] then emptyLines before + 1 else 0
  := by
  rw [emptyLines, List.rtakeWhile_concat]
  split_ifs with h h' h'
  · rw [List.length_append, List.length_singleton, emptyLines]
  · exact absurd (of_decide_eq_true h) h'
  · exact absurd (decide_eq_true h') h
  · rfl

theorem length_filterMap_gate? (before lines : List (List Char)) :
  (lines.filterMap gate?).length = places (fun _ line => IsGate line) before lines
  := by
  induction lines generalizing before with
  | nil => rfl
  | cons line lines ih =>
      rw [places, ← ih]
      cases hgate : gate? line with
      | none =>
          rw [List.filterMap_cons_none hgate,
            if_neg (by rw [IsGate, hgate]; exact Bool.false_ne_true),
            Nat.zero_add]
      | some gate =>
          rw [List.filterMap_cons_some hgate, if_pos (by rw [IsGate, hgate]; rfl), List.length_cons,
            Nat.add_comm]

/-- A line that has begun is counted if its beginning is. -/
theorem counted_append (hne : line ≠ []) (part : List Char) :
  Counted before (line ++ part) ↔ Counted before line
  := by
  rw [Counted, Counted, List.head?_append_of_ne_nil _ hne]

/-- What the loops of `main` count from some place in a line on.  At the beginning of a line the
first loop is there if the number of empty lines before it is even. -/
theorem countLoop_eq (before : List (List Char)) (line : List Char) (hend : '\xff' ∉ s)
    (hline : '\n' ∉ line) :
  countLoop (decide (line = [] ∧ Even (emptyLines before))) s
      + (if line ≠ [] ∧ Counted before line then 1 else 0)
    = places Counted before (linesOf line s)
  := by
  induction s generalizing before line with
  | nil =>
      rw [countLoop, linesOf]
      by_cases hne : line = [] <;> simp [hne, places]
  | cons c s ih =>
      obtain ⟨hc, hend'⟩ := List.ne_and_not_mem_of_not_mem_cons hend
      rw [linesOf]
      by_cases hnewline : c = '\n'
      · subst hnewline
        have hrest := ih (before ++ [line ++ ['\n']]) [] hend' List.not_mem_nil
        rw [if_pos rfl, places, ← hrest, emptyLines_concat]
        by_cases hne : line = []
        · -- an empty line: the loop that is at its end depends on the one at its beginning
          subst hne
          have hnot : ¬Counted before ['\n'] := fun hcounted => by cases hcounted.1
          by_cases heven : Even (emptyLines before)
          · simp [heven, hnot, Nat.even_add_one, countLoop]
          · simp [heven, hnot, Nat.even_add_one, countLoop]
        · have hlong : line ++ ['\n'] ≠ ['\n'] := by simpa using hne
          simp [hne, hlong, counted_append hne, countLoop, Nat.add_comm]
      · have hline' : '\n' ∉ line ++ [c] := by simp [hline, Ne.symm hnewline]
        rw [if_neg hnewline, ← ih before (line ++ [c]) hend' hline']
        by_cases hne : line = []
        · subst hne
          by_cases heven : Even (emptyLines before)
          · simp [heven, hc.symm, Counted, countLoop, Nat.add_comm]
          · simp [heven, hc.symm, hnewline, Counted, countLoop]
        · simp [hne, hc.symm, hnewline, counted_append hne, countLoop]

theorem gateCount_eq (hend : '\xff' ∉ file) :
  gateCount file = places Counted [] (linesOf [] file)
  := by
  have hcount := countLoop_eq [] [] hend List.not_mem_nil
  rw [if_neg fun hne => hne.1 rfl, Nat.add_zero] at hcount
  rw [← hcount]
  rfl

/-- The gates are the lines that begin with `G` and have an even number of empty lines directly
before them. -/
def Regular (file : List Char) : Prop :=
  Everywhere (fun before line => IsGate line ↔ Counted before line) [] (linesOf [] file)

/-- If the gates are the lines that are counted, the array is filled; conversely, if the array is
filled and no gate is missed, or nothing else is counted, they are the lines that are counted. -/
theorem filled_of_regular (file : List Char) (h : Fits file) (hend : '\xff' ∉ file) :
  (Regular file → Filled file)
    ∧ (Everywhere (fun before line => IsGate line → Counted before line) [] (linesOf [] file)
        ∨ Everywhere (fun before line => Counted before line → IsGate line) [] (linesOf [] file) →
      (Filled file ↔ Regular file))
  := by
  have hfilled : Filled file ↔ places (fun _ line => IsGate line) [] (linesOf [] file)
      = places Counted [] (linesOf [] file) := by
    rw [filled_iff h, gateCount_eq hend, length_filterMap_gate? []]
  refine ⟨fun hregular => hfilled.mpr (places_congr hregular), ?_⟩
  rintro (hcounted | hgate)
  · exact hfilled.trans (places_eq_iff hcounted)
  · rw [hfilled, eq_comm, places_eq_iff hgate]
    exact forall₄_congr fun _ _ _ _ => Iff.comm

/-- Gates, empty lines before a gate, and a connection. -/
theorem filled_of_regular_wire :
  Filled "GATE INPUT a\n\n\nGATE OUTPUT b\n\nCONNECTION a b\n".toList
  := by
  have hregular : Regular "GATE INPUT a\n\n\nGATE OUTPUT b\n\nCONNECTION a b\n".toList := by
    have hlines : linesOf [] "GATE INPUT a\n\n\nGATE OUTPUT b\n\nCONNECTION a b\n".toList
        = ["GATE INPUT a\n".toList, ['\n'], ['\n'], "GATE OUTPUT b\n".toList, ['\n'],
          "CONNECTION a b\n".toList] := by decide
    rw [Regular, hlines]
    simp only [everywhere_cons]
    refine ⟨by decide, by decide, by decide, by decide, by decide, by decide, ?_⟩
    intro s a t heq
    cases s <;> cases heq
  exact (filled_of_regular _ (by decide) (by decide)).1 hregular

/-- A line that is empty hides the gate after it. -/
theorem hidden_gate :
  ¬ ∀ file, Fits file → Filled file
  := by
  intro h
  obtain ⟨gateArr, hgateArr, -⟩ := h "\nGATE INPUT a\n".toList (by decide)
  have hwrite : createGates (fgets 100 [] "\nGATE INPUT a\n".toList) 0
      (List.replicate (gateCount "\nGATE INPUT a\n".toList) none) = .error .writeOutside := by
    decide
  rw [hwrite] at hgateArr
  cases hgateArr

end LogicCircuit
