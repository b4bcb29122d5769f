import Mathlib.Data.List.Count
import Mathlib.Data.List.Induction
import Mathlib.Data.List.Nodup
import Mathlib.Data.List.Perm.Subperm

/-!
# First occurrences

The elements of a list with a property whose keys no earlier element has, and the others; and the
elements in the order of their first occurrences, each with the number of its occurrences.
-/

namespace Occurrence

section

variable {α κ : Type} [DecidableEq κ] (p : α → Prop) [DecidablePred p] (key : α → κ)

/-- The elements with the property whose keys are new, where some keys have been seen. -/
def firsts : List κ → List α → List α
  | _, [] => []
  | seen, a :: l =>
      if p a ∧ key a ∉ seen then a :: firsts (key a :: seen) l else firsts (key a :: seen) l

/-- The elements that are not among the first ones. -/
def others : List κ → List α → List α
  | _, [] => []
  | seen, a :: l =>
      if p a ∧ key a ∉ seen then others (key a :: seen) l else a :: others (key a :: seen) l

variable {p key} {seen : List κ} {l : List α} {a b : α}

theorem firsts_append_others :
  (firsts p key seen l ++ others p key seen l).Perm l
  := by
  induction l generalizing seen with
  | nil => exact .refl []
  | cons a l ih =>
      rw [firsts, others]
      split_ifs
      · exact ih.cons a
      · exact List.perm_middle.trans (ih.cons a)

theorem of_mem_firsts (h : a ∈ firsts p key seen l) :
  p a ∧ key a ∉ seen ∧ a ∈ l
  := by
  induction l generalizing seen with
  | nil => cases h
  | cons b l ih =>
      rw [firsts] at h
      split_ifs at h with hb
      · rcases List.mem_cons.mp h with rfl | h
        · exact ⟨hb.1, hb.2, List.mem_cons_self⟩
        · obtain ⟨hp, hseen, hmem⟩ := ih h
          exact ⟨hp, fun hold => hseen (List.mem_cons_of_mem _ hold), List.mem_cons_of_mem _ hmem⟩
      · obtain ⟨hp, hseen, hmem⟩ := ih h
        exact ⟨hp, fun hold => hseen (List.mem_cons_of_mem _ hold), List.mem_cons_of_mem _ hmem⟩

/-! ### Two keys -/

/-- The first element with its key is among the first ones. -/
theorem mem_firsts {before after : List α} (hp : p a) (hseen : key a ∉ seen)
    (hbefore : key a ∉ before.map key) :
  a ∈ firsts p key seen (before ++ a :: after)
  := by
  induction before generalizing seen with
  | nil =>
      rw [List.nil_append, firsts, if_pos ⟨hp, hseen⟩]
      exact List.mem_cons_self
  | cons b before ih =>
      rw [List.map_cons, List.mem_cons, not_or] at hbefore
      have hmem := ih (List.not_mem_cons_of_ne_of_not_mem hbefore.1 hseen) hbefore.2
      rw [List.cons_append, firsts]
      split_ifs
      · exact List.mem_cons_of_mem b hmem
      · exact hmem

/-- One of the first elements has a place where its key is new. -/
theorem exists_place_of_mem_firsts (h : a ∈ firsts p key seen l) :
  ∃ before after, l = before ++ a :: after ∧ p a ∧ key a ∉ before.map key
  := by
  induction l generalizing seen with
  | nil => cases h
  | cons b l ih =>
      have hrest : ∀ {seen : List κ}, key b ∈ seen → a ∈ firsts p key seen l →
          ∃ before after, b :: l = before ++ a :: after ∧ p a ∧ key a ∉ before.map key := by
        intro seen hb hmem
        obtain ⟨before, after, rfl, hp, hnew⟩ := ih hmem
        refine ⟨b :: before, after, rfl, hp, ?_⟩
        apply List.not_mem_cons_of_ne_of_not_mem _ hnew
        exact fun heq => (of_mem_firsts hmem).2.1 (heq ▸ hb)
      rw [firsts] at h
      split_ifs at h with hb
      · rcases List.mem_cons.mp h with rfl | h
        · exact ⟨[], l, rfl, hb.1, List.not_mem_nil⟩
        · exact hrest List.mem_cons_self h
      · exact hrest List.mem_cons_self h

variable [DecidableEq α] {q : α → Prop} [DecidablePred q]

/-- Two properties, the first with a key, hold of the same elements at their first occurrences. -/
def Agree (p : α → Prop) (key : α → κ) (q : α → Prop) (l : List α) : Prop :=
  ∀ before a after, l = before ++ a :: after →
    (p a ∧ key a ∉ before.map key ↔ q a ∧ a ∉ before)

theorem Agree.congr_after (before : List α) (h : Agree p key q (before ++ l)) :
  firsts p key (before.reverse.map key) l = firsts q id before.reverse l
    ∧ others p key (before.reverse.map key) l = others q id before.reverse l
  := by
  induction l generalizing before with
  | nil => exact ⟨rfl, rfl⟩
  | cons a l ih =>
      have hcond := h before a l rfl
      have hmap : key a ∉ before.reverse.map key ↔ key a ∉ before.map key := by
        rw [List.map_reverse, List.mem_reverse]
      have ih := ih (before ++ [a]) (by rwa [List.append_assoc])
      rw [List.reverse_append, List.reverse_singleton, List.singleton_append, List.map_cons] at ih
      simp only [firsts, others, hmap, hcond, ih, id, List.mem_reverse, and_self]

/-- The first elements and the others are the same for the two properties. -/
theorem Agree.congr (h : Agree p key q l) :
  firsts p key [] l = firsts q id [] l ∧ others p key [] l = others q id [] l
  := Agree.congr_after [] h

/-- Conversely, if the others are the same, the two properties agree. -/
theorem agree_of_others_eq (h : others p key [] l = others q id [] l) : Agree p key q l
  := by
  have hperm : (firsts p key [] l ++ others p key [] l).Perm l := firsts_append_others
  have hperm' : (firsts q id [] l ++ others q id [] l).Perm l := firsts_append_others
  have hsame := hperm.trans hperm'.symm
  rw [h] at hsame
  have hfirsts := (List.perm_append_right_iff _).mp hsame
  rintro before a after rfl
  constructor
  · rintro ⟨hp, hnew⟩
    have hmem : a ∈ firsts p key [] (before ++ a :: after) := mem_firsts hp List.not_mem_nil hnew
    exact ⟨(of_mem_firsts (hfirsts.subset hmem)).1, fun ha => hnew (List.mem_map_of_mem ha)⟩
  · rintro ⟨hq, hnew⟩
    have hmem : a ∈ firsts q id [] (before ++ a :: after) :=
      mem_firsts hq List.not_mem_nil (by rwa [List.map_id])
    obtain ⟨before', after', heq, hp, hnew'⟩ :=
      exists_place_of_mem_firsts (hfirsts.symm.subset hmem)
    refine ⟨hp, ?_⟩
    -- the two places are the same, since neither has the element before it
    rcases List.append_eq_append_iff.mp heq with ⟨c, rfl, -⟩ | ⟨c, rfl, hc⟩
    · rw [List.map_append, List.mem_append, not_or] at hnew'
      exact hnew'.1
    · cases c with
      | nil => rwa [List.append_nil]
      | cons b c =>
          obtain ⟨rfl, -⟩ := List.cons.inj hc
          exact absurd (List.mem_append_right before' List.mem_cons_self) hnew

end

/-! ### Tallies -/

section

variable {α : Type*} [BEq α] [LawfulBEq α] {l : List α} {a : α}

def tally (l : List α) : List (α × ℕ) := l.eraseDups.map fun a => (a, l.count a)

theorem eraseDups_concat_of_mem (h : a ∈ l) : (l ++ [a]).eraseDups = l.eraseDups
  := by
  rw [List.eraseDups_append, List.removeAll, List.filter_singleton, List.elem_eq_true_of_mem h]
  exact List.append_nil _

theorem eraseDups_concat_of_not_mem (h : a ∉ l) : (l ++ [a]).eraseDups = l.eraseDups ++ [a]
  := by
  have hnew : List.elem a l = false := by
    rw [List.elem_eq_mem]
    exact decide_eq_false h
  rw [List.eraseDups_append, List.removeAll, List.filter_singleton, hnew]
  rfl

theorem nodup_eraseDups : l.eraseDups.Nodup
  := by
  induction l using List.reverseRecOn with
  | nil => exact List.nodup_nil
  | append_singleton l a ih =>
      by_cases h : a ∈ l
      · rwa [eraseDups_concat_of_mem h]
      · rw [eraseDups_concat_of_not_mem h]
        apply List.nodup_append.mpr
        refine ⟨ih, List.nodup_singleton a, ?_⟩
        intro b hb c hc heq
        rw [List.mem_singleton] at hc
        exact h (List.mem_eraseDups.mp (hc ▸ heq ▸ hb))

omit [LawfulBEq α] in
theorem map_fst_tally : (tally l).map Prod.fst = l.eraseDups
  := by
  rw [tally, List.map_map]
  exact List.map_id _

omit [LawfulBEq α] in
theorem length_tally : (tally l).length = l.eraseDups.length
  := List.length_map _

/-- A new element is counted once. -/
theorem tally_concat_of_not_mem (h : a ∉ l) : tally (l ++ [a]) = tally l ++ [(a, 1)]
  := by
  rw [tally, eraseDups_concat_of_not_mem h, List.map_append, tally]
  congr 1
  · apply List.map_congr_left
    intro b hb
    have hne : a ≠ b := fun heq => h (heq ▸ List.mem_eraseDups.mp hb)
    rw [List.count_append, List.count_singleton, beq_eq_false_iff_ne.mpr hne]
    rfl
  · rw [List.map_singleton, List.count_append, List.count_eq_zero_of_not_mem h,
      List.count_singleton_self]

/-- An element that has been seen is counted where it was seen first. -/
theorem tally_concat_of_mem (h : a ∈ l) :
  ∃ before after n, tally l = before ++ (a, n) :: after
    ∧ tally (l ++ [a]) = before ++ (a, n + 1) :: after
  := by
  obtain ⟨before, after, heq⟩ := List.append_of_mem (List.mem_eraseDups.mpr h)
  have hnodup : (before ++ a :: after).Nodup := heq ▸ nodup_eraseDups
  have hcount : ∀ {part : List α}, a ∉ part →
      part.map (fun b => (b, (l ++ [a]).count b)) = part.map fun b => (b, l.count b) := by
    intro part hpart
    apply List.map_congr_left
    intro b hb
    have hne : a ≠ b := fun heq => hpart (heq ▸ hb)
    rw [List.count_append, List.count_singleton, beq_eq_false_iff_ne.mpr hne]
    rfl
  have hdisjoint := List.nodup_middle.mp hnodup
  rw [List.nodup_cons, List.mem_append, not_or] at hdisjoint
  refine ⟨before.map fun b => (b, l.count b), after.map fun b => (b, l.count b), l.count a, ?_, ?_⟩
  · rw [tally, heq, List.map_append, List.map_cons]
  · rw [tally, eraseDups_concat_of_mem h, heq, List.map_append, List.map_cons,
      hcount hdisjoint.1.1, hcount hdisjoint.1.2, List.count_append, List.count_singleton_self]

end

end Occurrence
