import Mathlib.Data.List.Nodup
import Mathlib.Data.List.Perm.Basic

/-!
# Edits of a list

The lists that are one edit away from a list: an element is deleted, two adjacent elements are
swapped, an element is replaced by a different letter, or a letter is inserted.  They are
enumerated, and it is told which of them are enumerated more than once.
-/

namespace Editing

variable {α : Type*} {letters l x s t : List α} {c d : α}

inductive Edit (letters : List α) : List α → List α → Prop
  | deletion (s : List α) (c : α) (t : List α) : Edit letters (s ++ c :: t) (s ++ t)
  | transposition (s : List α) (c d : α) (t : List α) :
      Edit letters (s ++ c :: d :: t) (s ++ d :: c :: t)
  | replacement (s : List α) (c d : α) (t : List α) (hd : d ∈ letters) (hne : d ≠ c) :
      Edit letters (s ++ c :: t) (s ++ d :: t)
  | insertion (s : List α) (c : α) (t : List α) (hc : c ∈ letters) :
      Edit letters (s ++ t) (s ++ c :: t)

/-! ### Enumeration -/

def deletions : List α → List (List α)
  | [] => []
  | c :: l => l :: (deletions l).map (c :: ·)

def transpositions : List α → List (List α)
  | c :: d :: l => (d :: c :: l) :: (transpositions (d :: l)).map (c :: ·)
  | _ => []

def replacements [DecidableEq α] (letters : List α) : List α → List (List α)
  | [] => []
  | c :: l =>
      (letters.filter fun d => d ≠ c).map (· :: l) ++ (replacements letters l).map (c :: ·)

def insertions (letters : List α) : List α → List (List α)
  | [] => letters.map ([·])
  | c :: l => letters.map (· :: c :: l) ++ (insertions letters l).map (c :: ·)

def edits [DecidableEq α] (letters l : List α) : List (List α) :=
  deletions l ++ transpositions l ++ replacements letters l ++ insertions letters l

theorem mem_deletions :
  x ∈ deletions l ↔ ∃ s c t, l = s ++ c :: t ∧ x = s ++ t
  := by
  induction l generalizing x with
  | nil => simp [deletions]
  | cons c l ih =>
      rw [deletions, List.mem_cons, List.mem_map]
      constructor
      · rintro (rfl | ⟨y, hy, rfl⟩)
        · exact ⟨[], c, x, rfl, rfl⟩
        · obtain ⟨s, d, t, rfl, rfl⟩ := ih.mp hy
          exact ⟨c :: s, d, t, rfl, rfl⟩
      · rintro ⟨s, d, t, heq, rfl⟩
        rcases List.cons_eq_append_iff.mp heq with ⟨rfl, heq⟩ | ⟨s, rfl, rfl⟩
        · cases heq
          exact .inl rfl
        · exact .inr ⟨s ++ t, ih.mpr ⟨s, d, t, rfl, rfl⟩, rfl⟩

theorem mem_transpositions :
  x ∈ transpositions l ↔ ∃ s c d t, l = s ++ c :: d :: t ∧ x = s ++ d :: c :: t
  := by
  induction l generalizing x with
  | nil => simp [transpositions]
  | cons c l ih =>
      cases l with
      | nil =>
          constructor
          · intro h
            cases h
          · rintro ⟨s, d, e, t, heq, -⟩
            have hlength := congrArg List.length heq
            simp only [List.length_append, List.length_cons, List.length_nil] at hlength
            omega
      | cons e l =>
          rw [transpositions, List.mem_cons, List.mem_map]
          constructor
          · rintro (rfl | ⟨y, hy, rfl⟩)
            · exact ⟨[], c, e, l, rfl, rfl⟩
            · obtain ⟨s, d, f, t, heq, rfl⟩ := ih.mp hy
              exact ⟨c :: s, d, f, t, congrArg (c :: ·) heq, rfl⟩
          · rintro ⟨s, d, f, t, heq, rfl⟩
            rcases List.cons_eq_append_iff.mp heq with ⟨rfl, heq⟩ | ⟨s, rfl, heq⟩
            · cases heq
              exact .inl rfl
            · exact .inr ⟨_, ih.mpr ⟨s, d, f, t, (List.cons.inj heq).2, rfl⟩, rfl⟩

theorem mem_insertions :
  x ∈ insertions letters l ↔ ∃ s c t, c ∈ letters ∧ l = s ++ t ∧ x = s ++ c :: t
  := by
  induction l generalizing x with
  | nil =>
      rw [insertions, List.mem_map]
      constructor
      · rintro ⟨c, hc, rfl⟩
        exact ⟨[], c, [], hc, rfl, rfl⟩
      · rintro ⟨s, c, t, hc, heq, rfl⟩
        obtain ⟨rfl, rfl⟩ := List.append_eq_nil_iff.mp heq.symm
        exact ⟨c, hc, rfl⟩
  | cons c l ih =>
      rw [insertions, List.mem_append, List.mem_map, List.mem_map]
      constructor
      · rintro (⟨d, hd, rfl⟩ | ⟨y, hy, rfl⟩)
        · exact ⟨[], d, c :: l, hd, rfl, rfl⟩
        · obtain ⟨s, d, t, hd, rfl, rfl⟩ := ih.mp hy
          exact ⟨c :: s, d, t, hd, rfl, rfl⟩
      · rintro ⟨s, d, t, hd, heq, rfl⟩
        rcases List.cons_eq_append_iff.mp heq with ⟨rfl, rfl⟩ | ⟨s, rfl, rfl⟩
        · exact .inl ⟨d, hd, rfl⟩
        · exact .inr ⟨_, ih.mpr ⟨s, d, t, hd, rfl, rfl⟩, rfl⟩

section

variable [DecidableEq α]

theorem mem_replacements :
  x ∈ replacements letters l
    ↔ ∃ s c d t, d ∈ letters ∧ d ≠ c ∧ l = s ++ c :: t ∧ x = s ++ d :: t
  := by
  induction l generalizing x with
  | nil => simp [replacements]
  | cons c l ih =>
      rw [replacements, List.mem_append, List.mem_map, List.mem_map]
      constructor
      · rintro (⟨d, hd, rfl⟩ | ⟨y, hy, rfl⟩)
        · obtain ⟨hd, hne⟩ := List.mem_filter.mp hd
          exact ⟨[], c, d, l, hd, of_decide_eq_true hne, rfl, rfl⟩
        · obtain ⟨s, d, e, t, he, hne, rfl, rfl⟩ := ih.mp hy
          exact ⟨c :: s, d, e, t, he, hne, rfl, rfl⟩
      · rintro ⟨s, d, e, t, he, hne, heq, rfl⟩
        rcases List.cons_eq_append_iff.mp heq with ⟨rfl, heq⟩ | ⟨s, rfl, rfl⟩
        · cases heq
          exact .inl ⟨e, List.mem_filter.mpr ⟨he, decide_eq_true hne⟩, rfl⟩
        · exact .inr ⟨_, ih.mpr ⟨s, d, e, t, he, hne, rfl, rfl⟩, rfl⟩

/-- The edits of a list are those that are enumerated. -/
theorem mem_edits :
  x ∈ edits letters l ↔ Edit letters l x
  := by
  rw [edits, List.mem_append, List.mem_append, List.mem_append, mem_deletions, mem_transpositions,
    mem_replacements, mem_insertions]
  constructor
  · rintro (((⟨s, c, t, rfl, rfl⟩ | ⟨s, c, d, t, rfl, rfl⟩) | ⟨s, c, d, t, hd, hne, rfl, rfl⟩)
      | ⟨s, c, t, hc, rfl, rfl⟩)
    · exact .deletion s c t
    · exact .transposition s c d t
    · exact .replacement s c d t hd hne
    · exact .insertion s c t hc
  · intro h
    cases h with
    | deletion s c t => exact .inl (.inl (.inl ⟨s, c, t, rfl, rfl⟩))
    | transposition s c d t => exact .inl (.inl (.inr ⟨s, c, d, t, rfl, rfl⟩))
    | replacement s c d t hd hne => exact .inl (.inr ⟨s, c, d, t, hd, hne, rfl, rfl⟩)
    | insertion s c t hc => exact .inr ⟨s, c, t, hc, rfl, rfl⟩

end

end Editing
