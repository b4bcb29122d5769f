import Homeworks.CString.Text
import Mathlib.Algebra.BigOperators.Intervals
import Mathlib.Algebra.Order.BigOperators.Group.Finset
import Mathlib.Data.List.Infix
import Mathlib.Data.List.TakeWhile

/-!
# Occurrences of a term in a text

An occurrence is a position from which on the text starts with the term, so that occurrences may
overlap.  An occurrence stays one when the text is cut off after it, and `strstr` finds the first.
-/

namespace CString

/-- `strstr`: the text from the first occurrence of the term on. -/
def strstr (s term : List Char) : Option (List Char) := s.tails.find? (term.isPrefixOf ·)

/-- The number of positions of a text at which a term occurs. -/
def occurrences (term s : List Char) : ℕ :=
  ((Finset.range s.length).filter fun p => term <+: s.drop p).card

variable {term s : List Char} {c : Char} {p k : ℕ}

theorem strstr_nil (h : term ≠ []) :
  strstr [] term = none
  := by
  cases term with
  | nil => exact absurd rfl h
  | cons d term => rfl

theorem strstr_cons_of_isPrefix (h : term <+: c :: s) :
  strstr (c :: s) term = some (c :: s)
  := by
  rw [strstr, List.tails_cons, List.find?_cons_of_pos (List.isPrefixOf_iff_prefix.mpr h)]

theorem strstr_cons_of_not (h : ¬ term <+: c :: s) :
  strstr (c :: s) term = strstr s term
  := by
  rw [strstr, List.tails_cons,
    List.find?_cons_of_neg fun hp => h (List.isPrefixOf_iff_prefix.mp hp)]
  rfl

/-- What `strstr` finds is a part of the text. -/
theorem isSuffix_of_strstr {found : List Char} (h : strstr s term = some found) :
  found <:+ s
  := (List.mem_tails _ _).mp (List.mem_of_find?_eq_some h)

/-- A term without a character that is at the beginning of a text ends before that character. -/
theorem isPrefix_of_append_cons {a b : List Char} {d : Char} (hd : d ∉ term)
    (h : term <+: a ++ d :: b) :
  term <+: a
  := by
  have ha : a ++ [d] <+: a ++ d :: b := ⟨b, by rw [List.append_assoc, List.singleton_append]⟩
  rcases List.prefix_or_prefix_of_prefix h ha with hle | hle
  · rcases List.prefix_concat_iff.mp hle with rfl | hle
    · exact absurd (List.mem_append_right a (List.mem_singleton_self d)) hd
    · exact hle
  · exact absurd (hle.subset (List.mem_append_right a (List.mem_singleton_self d))) hd

/-- A term that is not found before a character that it does not contain is found after it. -/
theorem strstr_append_cons {a b : List Char} {d : Char} (hne : term ≠ []) (hd : d ∉ term)
    (h : ¬ term <:+: a) :
  strstr (a ++ d :: b) term = strstr b term
  := by
  induction a with
  | nil =>
      apply strstr_cons_of_not
      intro hp
      exact hne (List.prefix_nil.mp (isPrefix_of_append_cons (a := []) hd hp))
  | cons c a ih =>
      rw [List.cons_append, strstr_cons_of_not, ih fun hinfix => h (List.infix_cons hinfix)]
      intro hp
      exact h (isPrefix_of_append_cons (a := c :: a) hd hp).isInfix

/-- A term that occurs in the first part of a text is found there. -/
theorem strstr_append_of_isInfix {a : List Char} (b : List Char) (hne : term ≠ [])
    (h : term <:+: a) :
  ∃ found, strstr (a ++ b) term = some found ∧ b.length < found.length
  := by
  induction a with
  | nil => exact absurd (List.infix_nil.mp h) hne
  | cons c a ih =>
      by_cases hp : term <+: c :: (a ++ b)
      · refine ⟨_, strstr_cons_of_isPrefix hp, ?_⟩
        change b.length < (c :: (a ++ b)).length
        rw [List.length_cons, List.length_append]
        omega
      · rw [List.cons_append, strstr_cons_of_not hp]
        apply ih
        rcases List.infix_cons_iff.mp h with hp' | hinfix
        · exact absurd (hp'.trans ((List.prefix_append (c :: a) b))) hp
        · exact hinfix

theorem occurrences_nil :
  occurrences term [] = 0
  := rfl

theorem occurrences_eq_sum :
  occurrences term s = ∑ p ∈ Finset.range s.length, if term <+: s.drop p then 1 else 0
  := Finset.card_filter _ _

theorem occurrences_cons :
  occurrences term (c :: s) = occurrences term s + if term <+: c :: s then 1 else 0
  := by
  rw [occurrences_eq_sum, occurrences_eq_sum, List.length_cons, Finset.sum_range_succ']
  rfl

/-- Beyond the end of the text nothing occurs. -/
theorem occurrences_eq_sum_of_le (h : term ≠ []) {n : ℕ} (hn : s.length ≤ n) :
  occurrences term s = ∑ p ∈ Finset.range n, if term <+: s.drop p then 1 else 0
  := by
  rw [occurrences_eq_sum]
  apply Finset.sum_subset (Finset.range_mono hn)
  intro p _ hp
  rw [Finset.mem_range, not_lt] at hp
  rw [List.drop_eq_nil_of_le hp]
  exact if_neg (mt List.prefix_nil.mp h)

/-- A text is searched up to a position and from that position on. -/
theorem occurrences_eq_add (h : term ≠ []) :
  occurrences term s
    = (∑ p ∈ Finset.range k, if term <+: s.drop p then 1 else 0) + occurrences term (s.drop k)
  := by
  have hlength : s.length ≤ k + (s.drop k).length := by
    rw [List.length_drop]
    omega
  rw [occurrences_eq_sum_of_le h hlength, Finset.sum_range_add, occurrences_eq_sum]
  simp only [List.drop_drop]

/-- The occurrences in the first characters of a text. -/
theorem isPrefix_drop_take :
  term <+: (s.take k).drop p ↔ term <+: s.drop p ∧ (p + term.length ≤ k ∨ term = [])
  := by
  rw [List.drop_take, List.prefix_take_iff]
  constructor
  · rintro ⟨hp, hlength⟩
    refine ⟨hp, ?_⟩
    cases term with
    | nil => exact .inr rfl
    | cons c term =>
        rw [List.length_cons] at hlength ⊢
        omega
  · rintro ⟨hp, hlength | rfl⟩
    · exact ⟨hp, by omega⟩
    · exact ⟨hp, Nat.zero_le _⟩

/-- How far `takeWhile` goes. -/
theorem le_length_takeWhile_iff {P : Char → Bool} (h : k ≤ s.length) :
  k ≤ (s.takeWhile P).length ↔ ∀ c ∈ s.take k, P c = true
  := by
  induction s generalizing k with
  | nil => simp_all
  | cons c s ih =>
      cases k with
      | zero => simp
      | succ k =>
          rw [List.length_cons, Nat.add_le_add_iff_right] at h
          rw [List.take_succ_cons, List.forall_mem_cons, ← ih h]
          cases hc : P c with
          | true => simp [hc]
          | false => simp [hc]

/-- The occurrences before the character at which the text is cut off. -/
theorem isPrefix_drop_takeWhile {P : Char → Bool} (hne : term ≠ []) (h : ∀ c ∈ term, P c = true) :
  term <+: (s.takeWhile P).drop p ↔ term <+: s.drop p ∧ ∀ c ∈ s.take p, P c = true
  := by
  have htake : s.takeWhile P = s.take (s.takeWhile P).length :=
    List.prefix_iff_eq_take.mp (List.takeWhile_prefix P)
  rw [htake, isPrefix_drop_take, or_iff_left hne]
  refine and_congr_right fun hp => ?_
  obtain ⟨rest, hrest⟩ := hp
  have hlength : p + term.length ≤ s.length := by
    have hpos := List.length_pos_iff.mpr hne
    have hdrop := congrArg List.length hrest
    rw [List.length_append, List.length_drop] at hdrop
    omega
  have hfront : s.take (p + term.length) = s.take p ++ term := by
    rw [List.take_add, ← hrest, List.take_left]
  rw [le_length_takeWhile_iff hlength, hfront, List.forall_mem_append]
  exact and_iff_left h

end CString
