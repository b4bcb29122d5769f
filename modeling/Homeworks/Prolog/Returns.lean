import Homeworks.Prolog.Steps

/-!
# Calls of the resolver that return

A call returns if its recursive calls do, and more fuel does not change what it returns.
-/

namespace Prolog

variable {facts : List Exp} {rules : Rules} {query : Exp} {queryType : PredicateType}
  {rule : Nat × Axiom}

/-! ### More fuel -/

theorem foldlM_mono {β : Type} {f g : List String → β → Option (List String)} {l : List β}
    (h : ∀ b ∈ l, ∀ acc acc', f acc b = some acc' → g acc b = some acc') {init r : List String}
    (hfold : l.foldlM f init = some r) :
  l.foldlM g init = some r
  := by
  induction l generalizing init with
  | nil => exact hfold
  | cons b l ih =>
      rw [List.foldlM_cons, Option.bind_eq_bind, Option.bind_eq_some_iff] at hfold
      obtain ⟨acc, hacc, hfold⟩ := hfold
      rw [List.foldlM_cons, Option.bind_eq_bind, h b List.mem_cons_self init acc hacc,
        Option.bind_some]
      exact ih (fun b' hb' => h b' (List.mem_cons_of_mem b hb')) hfold

theorem resolveRule_mono {f g : Rules → Exp → PredicateType → Option (List String)}
    (h : ∀ rules query queryType r, f rules query queryType = some r →
      g rules query queryType = some r) {acc acc' : List String}
    (hrule : resolveRule f rules query queryType acc rule = some acc') :
  resolveRule g rules query queryType acc rule = some acc'
  := by
  rw [resolveRule] at hrule ⊢
  split at hrule
  · rename_i hpredicate
    rw [if_pos hpredicate]
    split at hrule
    · obtain ⟨more, hmore, rfl⟩ := Option.map_eq_some_iff.mp hrule
      exact Option.map_eq_some_iff.mpr ⟨more, h _ _ _ _ hmore, rfl⟩
    · rw [Option.bind_eq_bind, Option.bind_eq_some_iff] at hrule ⊢
      obtain ⟨e, hsubquery, hrule⟩ := hrule
      refine ⟨e, hsubquery, ?_⟩
      rw [Option.bind_eq_bind, Option.bind_eq_some_iff] at hrule ⊢
      obtain ⟨subqueries, hsubqueries, hrule⟩ := hrule
      refine ⟨subqueries, h _ _ _ _ hsubqueries, foldlM_mono (fun item _ acc acc' hacc => ?_) hrule⟩
      obtain ⟨more, hmore, rfl⟩ := Option.map_eq_some_iff.mp hacc
      exact Option.map_eq_some_iff.mpr ⟨more, h _ _ _ _ hmore, rfl⟩
    · exact hrule
  · rename_i hpredicate
    rw [if_neg hpredicate]
    exact hrule

theorem resolveSubqueries_succ {fuel : Nat} {result : List String}
    (h : resolveSubqueries fuel facts rules query queryType = some result) :
  resolveSubqueries (fuel + 1) facts rules query queryType = some result
  := by
  induction fuel generalizing rules query queryType result with
  | zero => cases h
  | succ fuel ih =>
      rw [resolveSubqueries, Option.bind_eq_bind, Option.bind_eq_some_iff] at h ⊢
      obtain ⟨l, hl, h⟩ := h
      exact ⟨l, hl, foldlM_mono (fun rule _ acc acc' hacc =>
        resolveRule_mono (fun rules query queryType r hr => ih hr) hacc) h⟩

theorem resolveSubqueries_mono {fuel fuel' : Nat} (hle : fuel ≤ fuel') {result : List String}
    (h : resolveSubqueries fuel facts rules query queryType = some result) :
  resolveSubqueries fuel' facts rules query queryType = some result
  := by
  induction hle with
  | refl => exact h
  | step _ ih => exact resolveSubqueries_succ ih

/-! ### Enough fuel -/

/-- With enough fuel a call returns the values with a property. -/
def Answers (facts : List Exp) (rules : Rules) (query : Exp) (queryType : PredicateType)
    (D : String → Prop) : Prop :=
  ∃ fuel result, resolveSubqueries fuel facts rules query queryType = some result
    ∧ ∀ v, v ∈ result ↔ D v

/-- With enough fuel a rule adds the values with a property. -/
def Adds (facts : List Exp) (rules : Rules) (query : Exp) (queryType : PredicateType)
    (rule : Nat × Axiom) (C : String → Prop) : Prop :=
  ∃ fuel, ∀ fuel' ≥ fuel, ∀ acc, ∃ acc',
    resolveRule (resolveSubqueries fuel' facts) rules query queryType acc rule = some acc'
      ∧ ∀ v, v ∈ acc' ↔ v ∈ acc ∨ C v

theorem Answers.congr {D D' : String → Prop} (h : Answers facts rules query queryType D)
    (hiff : ∀ v, D v ↔ D' v) :
  Answers facts rules query queryType D'
  := by
  obtain ⟨fuel, result, hresult, hmem⟩ := h
  exact ⟨fuel, result, hresult, fun v => (hmem v).trans (hiff v)⟩

theorem Adds.congr {C C' : String → Prop} (h : Adds facts rules query queryType rule C)
    (hiff : ∀ v, C v ↔ C' v) :
  Adds facts rules query queryType rule C'
  := by
  obtain ⟨fuel, hfuel⟩ := h
  refine ⟨fuel, fun fuel' hle acc => ?_⟩
  obtain ⟨acc', hacc', hmem⟩ := hfuel fuel' hle acc
  exact ⟨acc', hacc', fun v => (hmem v).trans (or_congr_right (hiff v))⟩

/-- A rule for another predicate adds nothing. -/
theorem adds_other (h : rule.2.head.predicate ≠ query.predicate) :
  Adds facts rules query queryType rule fun _ => False
  := by
  refine ⟨0, fun _ _ acc => ⟨acc, ?_, fun v => by rw [or_false]⟩⟩
  rw [resolveRule, if_neg h]

/-- A rule with one atom adds the answers of the atom. -/
theorem adds_one (h : rule.2.head.predicate = query.predicate) {b : Exp}
    (hbody : rule.2.body = [b]) {D : String → Prop}
    (hanswers : Answers facts rules ⟨b.predicate, query.left, query.right⟩ queryType D) :
  Adds facts rules query queryType rule D
  := by
  obtain ⟨fuel, result, hresult, hmem⟩ := hanswers
  refine ⟨fuel, fun fuel' hfuel acc => ⟨appendUniqueResults acc result, ?_, fun v => ?_⟩⟩
  · rw [resolveRule, if_pos h, hbody]
    dsimp only
    rw [resolveSubqueries_mono hfuel hresult, Option.map_some]
  · rw [mem_appendUniqueResults, hmem]

/-- Finitely many bounds have a common one. -/
theorem exists_bound {β : Type} {P : β → Nat → Prop} {l : List β}
    (h : ∀ b ∈ l, ∃ n, ∀ n' ≥ n, P b n') :
  ∃ n, ∀ n' ≥ n, ∀ b ∈ l, P b n'
  := by
  induction l with
  | nil => exact ⟨0, fun _ _ b hb => absurd hb List.not_mem_nil⟩
  | cons b l ih =>
      obtain ⟨n, hn⟩ := ih fun b' hb' => h b' (List.mem_cons_of_mem b hb')
      obtain ⟨m, hm⟩ := h b List.mem_cons_self
      refine ⟨max n m, fun n' hle b' hb' => ?_⟩
      rcases List.mem_cons.mp hb' with rfl | hb'
      · exact hm n' (Nat.le_trans (Nat.le_max_right _ _) hle)
      · exact hn n' (Nat.le_trans (Nat.le_max_left _ _) hle) b' hb'

/-- A rule with two atoms adds the answers that are joined. -/
theorem adds_two (h : rule.2.head.predicate = query.predicate) {b₁ b₂ newQuery newRule : Exp}
    {newQueryType : PredicateType} (hbody : rule.2.body = [b₁, b₂])
    (hsubquery : constructSubquery rule.2.head b₁ b₂ query queryType
      = some (newQuery, newRule, newQueryType)) {D : String → Prop} {D' : String → String → Prop}
    (hchosen : Answers facts (rules.filter fun other => other.1 ≠ rule.1) newQuery newQueryType D)
    (hother : ∀ item, D item → Answers facts rules
      (constructExtendedQuery newRule item query.left) newQueryType (D' item)) :
  Adds facts rules query queryType rule fun v => ∃ item, D item ∧ D' item v
  := by
  obtain ⟨fuel, items, hitems, hmem⟩ := hchosen
  have hbound : ∀ item ∈ items, ∃ n, ∀ n' ≥ n, ∃ result,
      resolveSubqueries n' facts rules (constructExtendedQuery newRule item query.left)
        newQueryType = some result ∧ ∀ v, v ∈ result ↔ D' item v := by
    intro item hitem
    obtain ⟨n, result, hresult, hmem'⟩ := hother item ((hmem item).mp hitem)
    exact ⟨n, fun n' hle => ⟨result, resolveSubqueries_mono hle hresult, hmem'⟩⟩
  obtain ⟨fuel', hfuel'⟩ := exists_bound hbound
  refine ⟨max fuel fuel', fun fuel'' hle acc => ?_⟩
  have hstep : ∀ item ∈ items, ∀ acc, ∃ acc',
      (resolveSubqueries fuel'' facts rules (constructExtendedQuery newRule item query.left)
        newQueryType).map (appendUniqueResults acc) = some acc'
        ∧ ∀ v, v ∈ acc' ↔ v ∈ acc ∨ D' item v := by
    intro item hitem acc
    obtain ⟨result, hresult, hmem'⟩ :=
      hfuel' fuel'' (Nat.le_trans (Nat.le_max_right _ _) hle) item hitem
    refine ⟨appendUniqueResults acc result, ?_, fun v => ?_⟩
    · rw [hresult, Option.map_some]
    · rw [mem_appendUniqueResults, hmem']
  obtain ⟨acc', hacc', hadds⟩ := exists_foldlM hstep acc
  refine ⟨acc', ?_, fun v => ?_⟩
  · rw [resolveRule, if_pos h, hbody]
    dsimp only
    rw [hsubquery, Option.bind_eq_bind, Option.bind_some]
    dsimp only
    rw [resolveSubqueries_mono (Nat.le_trans (Nat.le_max_left _ _) hle) hitems,
      Option.bind_eq_bind, Option.bind_some]
    exact hacc'
  · rw [hadds]
    simp only [hmem]

/-- A call returns if the rules do. -/
theorem answers_of_adds (hnil : queryType ≠ .nil) {C : Nat × Axiom → String → Prop}
    (h : ∀ rule ∈ rules, Adds facts rules query queryType rule (C rule)) :
  Answers facts rules query queryType fun v =>
    answer query v queryType ∈ facts ∨ ∃ rule ∈ rules, C rule v
  := by
  obtain ⟨fuel, hrules⟩ := exists_bound h
  obtain ⟨l, hl, hmem⟩ := findMatchingFacts_spec facts query hnil
  obtain ⟨result, hresult, hmem'⟩ := exists_foldlM (hrules fuel (Nat.le_refl fuel)) l
  refine ⟨fuel + 1, result, ?_, fun v => by rw [hmem', hmem]⟩
  rw [resolveSubqueries, Option.bind_eq_bind, hl, Option.bind_some]
  exact hresult

end Prolog
