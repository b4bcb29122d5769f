import Homeworks.Editing.Doubles
import Mathlib.Data.Finset.Insert

/-!
# SpellChecker

`getSuggestions`, for sets that are exact.  The words are those that are one or two edits away;
the first of its loops adds a word as often as the word is generated.
-/

namespace SpellChecker

/-- The `char`s of a string. -/
abbrev Word := List UInt16

/-- The values of `c` in the loops from a to z. -/
def letters : List UInt16 := (List.range' 97 26).map UInt16.ofNat

/-! ### Generated words -/

def deletions (word : Word) : List Word := (List.range word.length).map fun i => word.eraseIdx i

def transpositions (word : Word) : List Word :=
  (List.finRange (word.length - 1)).map fun (i : Fin (word.length - 1)) =>
    let charI := word.get ⟨i, Nat.lt_of_lt_pred i.isLt⟩
    let charIplus1 := word.get ⟨i + 1, Nat.add_lt_of_lt_sub i.isLt⟩
    (word.set i charIplus1).set (i + 1) charI

/-- The builder `sb` keeps the letter that was set before. -/
def replacements (word : Word) : List Word :=
  (List.finRange word.length).flatMap fun i =>
    (letters.foldl (fun (sb, result) c =>
      if c ≠ word.get i then
        let sb : Word := sb.set i c
        (sb, result ++ [sb])
      else
        (sb, result)) (word, [])).2

def insertions (word : Word) : List Word :=
  (List.range (word.length + 1)).flatMap fun i => letters.map fun c => word.insertIdx i c

def generateEditDistance (word : Word) : List Word :=
  deletions word ++ transpositions word ++ replacements word ++ insertions word

/-! ### Suggestions -/

/-- The suggestions with their words as a set. -/
structure Found where
  suggestions : List Word
  uniqueWords : Finset Word
  mem_uniqueWords : ∀ x, x ∈ uniqueWords ↔ x ∈ suggestions

namespace Found

def none : Found := ⟨[], ∅, fun _ => Iff.rfl⟩

def add (found : Found) (word : Word) : Found where
  suggestions := found.suggestions ++ [word]
  uniqueWords := insert word found.uniqueWords
  mem_uniqueWords x := by
    rw [Finset.mem_insert, found.mem_uniqueWords, List.mem_append, List.mem_singleton, or_comm]

end Found

variable (dictionary : Finset Word)

/-- The body of the first loop. -/
def suggest (found : Found) (edit : Word) : Found :=
  if edit ∈ dictionary then found.add edit else found

/-- The body of the inner loop. -/
def suggestNew (found : Found) (edit2_word : Word) : Found :=
  if edit2_word ∈ dictionary then
    if edit2_word ∉ found.uniqueWords then found.add edit2_word else found
  else
    found

/-- The body of the second loop. -/
def processEdit (state : Found × Finset Word) (edit1_word : Word) : Found × Finset Word :=
  let (found, processedEdit) := state
  if edit1_word ∉ processedEdit then
    ((generateEditDistance edit1_word).foldl (suggestNew dictionary) found,
      insert edit1_word processedEdit)
  else
    (found, insert edit1_word processedEdit)

def getSuggestions (word : Word) : List Word :=
  let edits1 := generateEditDistance word
  let found := edits1.foldl (suggest dictionary) .none
  (edits1.foldl (processEdit dictionary) (found, ∅)).1.suggestions

variable {dictionary} {word x : Word} {words : List Word} {found : Found}

/-! ### Generated words are edits -/

theorem nodup_letters :
  letters.Nodup
  := by decide

theorem deletions_eq (word : Word) :
  deletions word = Editing.deletions word
  := by
  induction word with
  | nil => rfl
  | cons c word ih =>
      rw [Editing.deletions, ← ih, deletions, deletions, List.length_cons, List.range_succ_eq_map,
        List.map_cons, List.map_map, List.map_map]
      rfl

theorem transpositions_eq (word : Word) :
  transpositions word = Editing.transpositions word
  := by
  induction word with
  | nil => rfl
  | cons c word ih =>
      cases word with
      | nil => rfl
      | cons d word =>
          rw [Editing.transpositions, ← ih, transpositions, transpositions, List.map_map]
          change List.map _ (List.finRange (word.length + 1)) = _
          rw [List.finRange_succ, List.map_cons, List.map_map]
          rfl

theorem foldl_replace (word sb : Word) (result : List Word) (i : Fin word.length)
    (hsb : ∀ c, sb.set i c = word.set i c) (cs : List UInt16) :
  (cs.foldl (fun (sb, result) c =>
      if c ≠ word.get i then
        let sb : Word := sb.set i c
        (sb, result ++ [sb])
      else
        (sb, result)) (sb, result)).2
    = result ++ (cs.filter fun c => c ≠ word.get i).map fun c => word.set i c
  := by
  induction cs generalizing sb result with
  | nil => rw [List.filter_nil, List.map_nil, List.append_nil, List.foldl_nil]
  | cons c cs ih =>
      rw [List.foldl_cons]
      dsimp only
      by_cases hne : c ≠ word.get i
      · have hfilter : ((c :: cs).filter fun c => c ≠ word.get i)
            = c :: cs.filter fun c => c ≠ word.get i :=
          List.filter_cons_of_pos (decide_eq_true hne)
        rw [if_pos hne, ih, hfilter, List.map_cons, hsb, List.append_assoc]
        · rfl
        · intro d
          rw [List.set_set, hsb]
      · have hfilter : ((c :: cs).filter fun c => c ≠ word.get i)
            = cs.filter fun c => c ≠ word.get i :=
          List.filter_cons_of_neg fun h => hne (of_decide_eq_true h)
        rw [if_neg hne, ih sb result hsb, hfilter]

theorem replacements_eq (word : Word) :
  replacements word = Editing.replacements letters word
  := by
  have hreplace : ∀ word : Word, replacements word = (List.finRange word.length).flatMap fun i =>
      (letters.filter fun c => c ≠ word.get i).map fun c => word.set i c := by
    intro word
    rw [replacements]
    apply List.flatMap_congr
    intro i _
    rw [foldl_replace word word [] i (fun _ => rfl), List.nil_append]
  induction word with
  | nil => rfl
  | cons c word ih =>
      rw [Editing.replacements, ← ih, hreplace, hreplace]
      change List.flatMap _ (List.finRange (word.length + 1)) = _
      rw [List.finRange_succ, List.flatMap_cons, List.flatMap_map, List.map_flatMap]
      simp only [List.map_map]
      rfl

theorem insertions_eq (word : Word) :
  insertions word = Editing.insertions letters word
  := by
  induction word with
  | nil => rfl
  | cons c word ih =>
      rw [Editing.insertions, ← ih, insertions, insertions, List.length_cons,
        List.range_succ_eq_map, List.flatMap_cons, List.flatMap_map, List.map_flatMap]
      simp only [List.map_map]
      rfl

theorem generateEditDistance_eq (word : Word) :
  generateEditDistance word = Editing.edits letters word
  := by
  rw [generateEditDistance, deletions_eq, transpositions_eq, replacements_eq, insertions_eq]
  rfl

/-! ### The loops -/

/-- The first loop suggests the words of the dictionary, as often as they are generated. -/
theorem foldl_suggest :
  (words.foldl (suggest dictionary) found).suggestions
    = found.suggestions ++ words.filter (· ∈ dictionary)
  := by
  induction words generalizing found with
  | nil => rw [List.filter_nil, List.append_nil, List.foldl_nil]
  | cons word words ih =>
      rw [List.foldl_cons, ih, suggest]
      by_cases hword : word ∈ dictionary
      · rw [if_pos hword, List.filter_cons, if_pos (decide_eq_true hword), Found.add,
          List.append_assoc]
        rfl
      · rw [if_neg hword, List.filter_cons, if_neg fun h => hword (of_decide_eq_true h)]

theorem mem_suggestNew :
  x ∈ (suggestNew dictionary found word).suggestions
    ↔ x ∈ found.suggestions ∨ (x = word ∧ word ∈ dictionary)
  := by
  rw [suggestNew]
  by_cases hword : word ∈ dictionary
  · rw [if_pos hword]
    by_cases hnew : word ∉ found.uniqueWords
    · rw [if_pos hnew, Found.add, List.mem_append, List.mem_singleton, and_iff_left hword]
    · rw [if_neg hnew]
      rw [not_not, found.mem_uniqueWords] at hnew
      refine ⟨.inl, ?_⟩
      rintro (hx | ⟨rfl, -⟩)
      · exact hx
      · exact hnew
  · rw [if_neg hword]
    exact ⟨.inl, fun h => h.elim id fun hx => absurd hx.2 hword⟩

/-- What is not yet suggested is suggested once. -/
theorem nodup_suggestNew :
  (suggestNew dictionary found word).suggestions.Nodup ↔ found.suggestions.Nodup
  := by
  rw [suggestNew]
  split
  · split
    · rename_i hnew
      rw [found.mem_uniqueWords] at hnew
      rw [Found.add, List.nodup_append']
      refine ⟨And.left, fun h => ⟨h, List.nodup_singleton word, ?_⟩⟩
      rw [List.disjoint_singleton]
      exact hnew
    · exact Iff.rfl
  · exact Iff.rfl

theorem mem_foldl_suggestNew :
  x ∈ (words.foldl (suggestNew dictionary) found).suggestions
    ↔ x ∈ found.suggestions ∨ (x ∈ words ∧ x ∈ dictionary)
  := by
  induction words generalizing found with
  | nil => simp
  | cons word words ih =>
      rw [List.foldl_cons, ih, mem_suggestNew, List.mem_cons]
      constructor
      · rintro ((hx | ⟨rfl, hx⟩) | ⟨hx, hdictionary⟩)
        · exact .inl hx
        · exact .inr ⟨.inl rfl, hx⟩
        · exact .inr ⟨.inr hx, hdictionary⟩
      · rintro (hx | ⟨rfl | hx, hdictionary⟩)
        · exact .inl (.inl hx)
        · exact .inl (.inr ⟨rfl, hdictionary⟩)
        · exact .inr ⟨hx, hdictionary⟩

theorem nodup_foldl_suggestNew :
  (words.foldl (suggestNew dictionary) found).suggestions.Nodup ↔ found.suggestions.Nodup
  := by
  induction words generalizing found with
  | nil => exact Iff.rfl
  | cons word words ih => rw [List.foldl_cons, ih, nodup_suggestNew]

/-- The second loop suggests the edits of the words that have not been processed. -/
theorem mem_foldl_processEdit {processedEdit : Finset Word} :
  x ∈ (words.foldl (processEdit dictionary) (found, processedEdit)).1.suggestions
    ↔ x ∈ found.suggestions
      ∨ (∃ word ∈ words, word ∉ processedEdit ∧ x ∈ generateEditDistance word) ∧ x ∈ dictionary
  := by
  induction words generalizing found processedEdit with
  | nil => simp
  | cons word words ih =>
      rw [List.foldl_cons, processEdit, List.exists_mem_cons_iff]
      by_cases hword : word ∉ processedEdit
      · rw [if_pos hword, ih, mem_foldl_suggestNew, or_assoc, ← or_and_right]
        apply or_congr_right
        apply and_congr_left
        intro _
        constructor
        · rintro (hx | ⟨word', hword', hnot, hx⟩)
          · exact .inl ⟨hword, hx⟩
          · exact .inr ⟨word', hword', fun h => hnot (Finset.mem_insert_of_mem h), hx⟩
        · rintro (⟨-, hx⟩ | ⟨word', hword', hnot, hx⟩)
          · exact .inl hx
          · by_cases heq : word' = word
            · rw [heq] at hx
              exact .inl hx
            · refine .inr ⟨word', hword', ?_, hx⟩
              rw [Finset.mem_insert, not_or]
              exact ⟨heq, hnot⟩
      · rw [if_neg hword, ih, Finset.insert_eq_of_mem (not_not.mp hword)]
        apply or_congr_right
        apply and_congr_left
        intro _
        exact ⟨.inr, fun h => h.elim (fun hx => absurd hx.1 hword) id⟩

theorem nodup_foldl_processEdit {processedEdit : Finset Word} :
  (words.foldl (processEdit dictionary) (found, processedEdit)).1.suggestions.Nodup
    ↔ found.suggestions.Nodup
  := by
  induction words generalizing found processedEdit with
  | nil => exact Iff.rfl
  | cons word words ih =>
      rw [List.foldl_cons, processEdit]
      split
      · rw [ih, nodup_foldl_suggestNew]
      · rw [ih]

/-! ### Near words -/

/-- A word is obtained by one or two edits. -/
def Near (word x : Word) : Prop :=
  Editing.Edit letters word x
    ∨ ∃ edit, Editing.Edit letters word edit ∧ Editing.Edit letters edit x

theorem mem_getSuggestions :
  x ∈ getSuggestions dictionary word ↔ x ∈ dictionary ∧ Near word x
  := by
  have hedit : ∀ {word x : Word},
      x ∈ generateEditDistance word ↔ Editing.Edit letters word x := by
    intro word x
    rw [generateEditDistance_eq, Editing.mem_edits]
  rw [getSuggestions, mem_foldl_processEdit, foldl_suggest, Found.none, List.nil_append,
    List.mem_filter,
    decide_eq_true_iff, ← or_and_right, and_comm, Near, hedit]
  apply and_congr_right
  intro _
  apply or_congr_right
  apply exists_congr
  intro edit
  rw [hedit, hedit]
  exact and_congr_right fun _ => and_iff_right (Finset.notMem_empty edit)

/-- No word is suggested twice if no word of the dictionary is generated twice. -/
theorem nodup_getSuggestions :
  (getSuggestions dictionary word).Nodup ↔ Editing.NoDouble letters word (· ∈ dictionary)
  := by
  rw [getSuggestions, nodup_foldl_processEdit, foldl_suggest, Found.none, List.nil_append,
    generateEditDistance_eq,
    Editing.nodup_edits nodup_letters]

/-- The suggestions are the near words of the dictionary, once each, if no word of the dictionary
is obtained by deleting, inserting or swapping a letter next to an equal one. -/
theorem getSuggestions_exact (dictionary : Finset Word) (word : Word) :
  ((∀ x, x ∈ getSuggestions dictionary word ↔ x ∈ dictionary ∧ Near word x)
      ∧ (getSuggestions dictionary word).Nodup)
    ↔ Editing.NoDouble letters word (· ∈ dictionary)
  := by
  rw [nodup_getSuggestions]
  exact and_iff_right fun x => mem_getSuggestions

/-- The word "leter", and a dictionary with the word "letter". -/
theorem letter_suggested_twice :
  ¬ ∀ (dictionary : Finset Word) (word : Word),
    (∀ x, x ∈ getSuggestions dictionary word ↔ x ∈ dictionary ∧ Near word x)
      ∧ (getSuggestions dictionary word).Nodup
  := by
  intro hall
  have hnodup := (hall {[108, 101, 116, 116, 101, 114]} [108, 101, 116, 101, 114]).2
  have hinsertion := (nodup_getSuggestions.mp hnodup).insertion [108, 101] 116 [101, 114]
  revert hinsertion
  decide

end SpellChecker
