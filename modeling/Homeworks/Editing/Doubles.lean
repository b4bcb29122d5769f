import Homeworks.Editing.Edits

/-!
# Edits that are enumerated twice

Two edits of a list are the same only around two adjacent equal elements, so the edits with a
property are enumerated once each if those edits do not have it.
-/

namespace Editing

variable {α : Type*} {letters l x : List α} {c d : α} {p : List α → Bool}

/-! ### Filtered lists -/

theorem nodup_filter_cons (x : α) (l : List α) (p : α → Bool) :
  ((x :: l).filter p).Nodup ↔ (p x = true → x ∉ l) ∧ (l.filter p).Nodup
  := by
  rw [List.filter_cons]
  split
  · rename_i hp
    rw [List.nodup_cons, List.mem_filter]
    exact and_congr_left fun _ => ⟨fun h _ hx => h ⟨hx, hp⟩, fun h hx => h hp hx.1⟩
  · rename_i hp
    exact ⟨fun h => ⟨fun hp' => absurd hp' hp, h⟩, And.right⟩

/-- Lists that begin with the same element. -/
theorem nodup_filter_map_cons (c : α) (ls : List (List α)) (p : List α → Bool) :
  ((ls.map (c :: ·)).filter p).Nodup ↔ (ls.filter fun l => p (c :: l)).Nodup
  := by
  rw [List.filter_map, List.nodup_map_iff List.cons_injective]
  rfl

/-- Lists that end in the same list. -/
theorem nodup_map_cons (hletters : letters.Nodup) (l : List α) :
  (letters.map (· :: l)).Nodup
  := hletters.map fun _ _ h => (List.cons.inj h).1

/-! ### Each kind of edit -/

/-- Deletions are the same if the elements that are deleted are adjacent and equal. -/
theorem nodup_deletions :
  ((deletions l).filter p).Nodup ↔ ∀ s c t, l = s ++ c :: c :: t → p (s ++ c :: t) = false
  := by
  induction l generalizing p with
  | nil => simp [deletions]
  | cons d l ih =>
      have hhead : (p l = true → l ∉ (deletions l).map (d :: ·))
          ↔ ∀ t, l = d :: t → p (d :: t) = false := by
        constructor
        · rintro h t rfl
          rw [← Bool.not_eq_true]
          exact fun hp => h hp (List.mem_map.mpr ⟨t, List.mem_cons_self, rfl⟩)
        · intro h hp hmem
          obtain ⟨t, -, rfl⟩ := List.mem_map.mp hmem
          cases (h t rfl).symm.trans hp
      rw [deletions, nodup_filter_cons, hhead, nodup_filter_map_cons, ih]
      constructor
      · rintro ⟨hfirst, hothers⟩ s c t heq
        rcases List.cons_eq_append_iff.mp heq with ⟨rfl, heq⟩ | ⟨s, rfl, rfl⟩
        · cases heq
          exact hfirst t rfl
        · exact hothers s c t rfl
      · intro h
        constructor
        · rintro t rfl
          exact h [] d t rfl
        · rintro s c t rfl
          exact h (d :: s) c t rfl

/-- There are not two places with adjacent equal elements. -/
def OneDouble (l : List α) : Prop :=
  ∀ s c t s' c' t', l = s ++ c :: c :: t → l = s' ++ c' :: c' :: t' → s = s'

theorem self_mem_transpositions :
  l ∈ transpositions l ↔ ∃ s c t, l = s ++ c :: c :: t
  := by
  rw [mem_transpositions]
  constructor
  · rintro ⟨s, c, d, t, hl, hx⟩
    have heq := List.append_cancel_left (hl.symm.trans hx)
    cases heq
    exact ⟨s, c, t, hl⟩
  · rintro ⟨s, c, t, hl⟩
    exact ⟨s, c, c, t, hl, hl⟩

theorem oneDouble_cons_cons :
  OneDouble (c :: d :: l) ↔ (c = d → ¬ ∃ s e t, d :: l = s ++ e :: e :: t) ∧ OneDouble (d :: l)
  := by
  constructor
  · intro h
    constructor
    · rintro rfl ⟨s, e, t, heq⟩
      cases h [] c l (c :: s) e t rfl (congrArg (c :: ·) heq)
    · intro s e t s' e' t' heq heq'
      exact (List.cons.inj (h (c :: s) e t (c :: s') e' t' (congrArg (c :: ·) heq)
        (congrArg (c :: ·) heq'))).2
  · rintro ⟨hfirst, hothers⟩ s e t s' e' t' heq heq'
    rcases List.cons_eq_append_iff.mp heq with ⟨rfl, heq⟩ | ⟨s, rfl, heq⟩
    · cases heq
      rcases List.cons_eq_append_iff.mp heq' with ⟨rfl, -⟩ | ⟨s', rfl, heq'⟩
      · rfl
      · exact absurd ⟨s', e', t', (List.cons.inj heq').2⟩ (hfirst rfl)
    · rcases List.cons_eq_append_iff.mp heq' with ⟨rfl, heq'⟩ | ⟨s', rfl, heq'⟩
      · cases heq'
        exact absurd ⟨s, e, t, (List.cons.inj heq).2⟩ (hfirst rfl)
      · have hsame := hothers s e t s' e' t' (List.cons.inj heq).2 (List.cons.inj heq').2
        exact congrArg (c :: ·) hsame

/-- Transpositions are the same if they swap equal elements. -/
theorem nodup_transpositions :
  ((transpositions l).filter p).Nodup ↔ (p l = true → OneDouble l)
  := by
  induction l generalizing p with
  | nil =>
      refine iff_of_true List.nodup_nil ?_
      intro _ s c t _ _ _ heq
      cases s with
      | nil => cases heq
      | cons _ s => cases heq
  | cons c l ih =>
      cases l with
      | nil =>
          refine iff_of_true List.nodup_nil ?_
          intro _ s e t _ _ _ heq
          have hlength := congrArg List.length heq
          simp only [List.length_append, List.length_cons, List.length_nil] at hlength
          omega
      | cons d l =>
          have hhead : (p (d :: c :: l) = true →
            d :: c :: l ∉ (transpositions (d :: l)).map (c :: ·))
              ↔ (p (c :: d :: l) = true → c = d → ¬ ∃ s e t, d :: l = s ++ e :: e :: t) := by
            rw [← self_mem_transpositions, List.mem_map]
            constructor
            · rintro h hp rfl hmem
              exact h hp ⟨c :: l, hmem, rfl⟩
            · rintro h hp ⟨x, hx, heq⟩
              cases heq
              exact h hp rfl hx
          rw [transpositions, nodup_filter_cons, hhead, nodup_filter_map_cons, ih,
            oneDouble_cons_cons, ← imp_and]

/-- Insertions are the same if they double an element. -/
theorem nodup_insertions (hletters : letters.Nodup) :
  ((insertions letters l).filter p).Nodup
    ↔ ∀ s c t, c ∈ letters → l = s ++ c :: t → p (s ++ c :: c :: t) = false
  := by
  induction l generalizing p with
  | nil =>
      rw [insertions]
      refine iff_of_true ((nodup_map_cons hletters []).filter p) ?_
      intro s c t _ heq
      cases s with
      | nil => cases heq
      | cons _ s => cases heq
  | cons d l ih =>
      have hdisjoint : ((letters.map (· :: d :: l)).filter p).Disjoint
            (((insertions letters l).map (d :: ·)).filter p)
          ↔ (d ∈ letters → p (d :: d :: l) = false) := by
        constructor
        · intro h hd
          rw [← Bool.not_eq_true]
          intro hp
          apply h (List.mem_filter.mpr ⟨List.mem_map.mpr ⟨d, hd, rfl⟩, hp⟩)
          rw [List.mem_filter, List.mem_map]
          exact ⟨⟨d :: l, mem_insertions.mpr ⟨[], d, l, hd, rfl, rfl⟩, rfl⟩, hp⟩
        · intro h x hx hx'
          obtain ⟨hx, hp⟩ := List.mem_filter.mp hx
          obtain ⟨c, hc, rfl⟩ := List.mem_map.mp hx
          obtain ⟨y, -, heq⟩ := List.mem_map.mp (List.mem_filter.mp hx').1
          cases heq
          cases (h hc).symm.trans hp
      rw [insertions, List.filter_append, List.nodup_append', hdisjoint, nodup_filter_map_cons, ih]
      constructor
      · rintro ⟨-, hothers, hfirst⟩ s c t hc heq
        rcases List.cons_eq_append_iff.mp heq with ⟨rfl, heq⟩ | ⟨s, rfl, rfl⟩
        · cases heq
          exact hfirst hc
        · exact hothers s c t hc rfl
      · intro h
        refine ⟨(nodup_map_cons hletters _).filter p, ?_, fun hd => h [] d l hd rfl⟩
        rintro s c t hc rfl
        exact h (d :: s) c t hc rfl

section

variable [DecidableEq α]

/-- No replacement is enumerated twice. -/
theorem nodup_replacements (hletters : letters.Nodup) :
  (replacements letters l).Nodup
  := by
  induction l with
  | nil => exact List.nodup_nil
  | cons c l ih =>
      rw [replacements, List.nodup_append']
      refine ⟨nodup_map_cons (hletters.filter _) l, ih.map List.cons_injective, ?_⟩
      intro x hx hx'
      obtain ⟨d, hd, rfl⟩ := List.mem_map.mp hx
      obtain ⟨y, -, heq⟩ := List.mem_map.mp hx'
      cases heq
      exact of_decide_eq_true (List.mem_filter.mp hd).2 rfl

/-! ### All edits -/

/-- A deletion is shorter, and a transposition has the same elements. -/
theorem disjoint_replacements :
  (deletions l ++ transpositions l).Disjoint (replacements letters l)
  := by
  intro x hx hx'
  obtain ⟨s, c, d, t, -, hne, rfl, rfl⟩ := mem_replacements.mp hx'
  rcases List.mem_append.mp hx with hx | hx
  · obtain ⟨s', c', t', heq, heq'⟩ := mem_deletions.mp hx
    have hlength := congrArg List.length heq
    have hlength' := congrArg List.length heq'
    simp only [List.length_append, List.length_cons] at hlength hlength'
    omega
  · obtain ⟨s', c', d', t', heq, heq'⟩ := mem_transpositions.mp hx
    have hperm : (s ++ c :: t).Perm (s ++ d :: t) := by
      rw [heq, heq']
      exact (List.Perm.swap d' c' t').append_left s'
    have hcons : ([c] ++ t).Perm ([d] ++ t) := (List.perm_append_left_iff s).mp hperm
    have hsingle := (List.perm_append_right_iff t).mp hcons
    exact hne (List.cons.inj (List.perm_singleton.mp hsingle)).1.symm

omit [DecidableEq α] in
theorem disjoint_transpositions :
  (deletions l).Disjoint (transpositions l)
  := by
  intro x hx hx'
  obtain ⟨s, c, t, rfl, rfl⟩ := mem_deletions.mp hx
  obtain ⟨s', c', d', t', heq, heq'⟩ := mem_transpositions.mp hx'
  have hlength := congrArg List.length heq
  have hlength' := congrArg List.length heq'
  simp only [List.length_append, List.length_cons] at hlength hlength'
  omega

theorem disjoint_insertions :
  (deletions l ++ transpositions l ++ replacements letters l).Disjoint (insertions letters l)
  := by
  intro x hx hx'
  obtain ⟨s, c, t, -, rfl, rfl⟩ := mem_insertions.mp hx'
  rw [List.mem_append, List.mem_append, mem_deletions, mem_transpositions, mem_replacements] at hx
  rcases hx with (⟨s', c', t', heq, heq'⟩ | ⟨s', c', d', t', heq, heq'⟩)
    | ⟨s', c', d', t', -, -, heq, heq'⟩
  all_goals
    have hlength := congrArg List.length heq
    have hlength' := congrArg List.length heq'
    simp only [List.length_append, List.length_cons] at hlength hlength'
    omega

/-- When the edits with a property are enumerated once each. -/
structure NoDouble (letters l : List α) (p : List α → Bool) : Prop where
  deletion : ∀ s c t, l = s ++ c :: c :: t → p (s ++ c :: t) = false
  transposition : p l = true → OneDouble l
  insertion : ∀ s c t, c ∈ letters → l = s ++ c :: t → p (s ++ c :: c :: t) = false

theorem nodup_edits (hletters : letters.Nodup) :
  ((edits letters l).filter p).Nodup ↔ NoDouble letters l p
  := by
  have hdisjoint : ∀ {a b : List (List α)}, a.Disjoint b →
      (((a ++ b).filter p).Nodup ↔ (a.filter p).Nodup ∧ (b.filter p).Nodup) := by
    intro a b h
    rw [List.filter_append, List.nodup_append']
    refine and_congr_right fun _ => ⟨And.left, fun hb => ⟨hb, ?_⟩⟩
    exact fun x hx hx' => h (List.mem_of_mem_filter hx) (List.mem_of_mem_filter hx')
  rw [edits, hdisjoint disjoint_insertions, hdisjoint disjoint_replacements,
    hdisjoint disjoint_transpositions, nodup_deletions, nodup_transpositions,
    nodup_insertions hletters]
  constructor
  · rintro ⟨⟨⟨hdeletion, htransposition⟩, -⟩, hinsertion⟩
    exact ⟨hdeletion, htransposition, hinsertion⟩
  · rintro ⟨hdeletion, htransposition, hinsertion⟩
    exact ⟨⟨⟨hdeletion, htransposition⟩, (nodup_replacements hletters).filter p⟩, hinsertion⟩

end

end Editing
