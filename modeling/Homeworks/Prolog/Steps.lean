import Homeworks.Prolog.Resolver
import Mathlib.Logic.Relation

/-!
# Steps of the resolver

What a call of `resolve_subqueries` returns, in terms of its recursive calls.
-/

namespace Prolog

/-! ### Lists of results -/

@[simp]
theorem mem_appendUniqueResults {list1 list2 : List String} {v : String} :
  v ∈ appendUniqueResults list1 list2 ↔ v ∈ list1 ∨ v ∈ list2
  := by
  rw [appendUniqueResults]
  induction list2 generalizing list1 with
  | nil => simp
  | cons element list2 ih =>
      rw [List.foldl_cons, ih, List.mem_cons]
      split
      · rename_i hmem
        constructor
        · rintro (h | h)
          · exact .inl h
          · exact .inr (.inr h)
        · rintro (h | rfl | h)
          · exact .inl h
          · exact .inl hmem
          · exact .inr h
      · rw [List.mem_append, List.mem_singleton, or_assoc]

section

variable {β : Type} {step : List String → β → Option (List String)} {C : β → String → Prop}
  {l : List β}

/-- The results of a loop are those that its steps have added. -/
theorem mem_of_foldlM
    (hstep : ∀ b ∈ l, ∀ acc acc', step acc b = some acc' → ∀ v ∈ acc', v ∈ acc ∨ C b v)
    {init result : List String} (h : l.foldlM step init = some result) :
  ∀ v ∈ result, v ∈ init ∨ ∃ b ∈ l, C b v
  := by
  induction l generalizing init with
  | nil =>
      rw [List.foldlM_nil] at h
      cases h
      exact fun v hv => .inl hv
  | cons b l ih =>
      rw [List.foldlM_cons, Option.bind_eq_bind, Option.bind_eq_some_iff] at h
      obtain ⟨acc, hacc, h⟩ := h
      intro v hv
      rcases ih (fun b' hb' => hstep b' (List.mem_cons_of_mem b hb')) h v hv with hv | ⟨b', hb', hC⟩
      · rcases hstep b List.mem_cons_self init acc hacc v hv with hv | hC
        · exact .inl hv
        · exact .inr ⟨b, List.mem_cons_self, hC⟩
      · exact .inr ⟨b', List.mem_cons_of_mem b hb', hC⟩

/-- A loop returns if its steps do. -/
theorem exists_foldlM
    (hstep : ∀ b ∈ l, ∀ acc, ∃ acc', step acc b = some acc' ∧ ∀ v, v ∈ acc' ↔ v ∈ acc ∨ C b v)
    (init : List String) :
  ∃ result, l.foldlM step init = some result ∧ ∀ v, v ∈ result ↔ v ∈ init ∨ ∃ b ∈ l, C b v
  := by
  induction l generalizing init with
  | nil => exact ⟨init, rfl, fun v => by simp⟩
  | cons b l ih =>
      obtain ⟨acc, hacc, hmem⟩ := hstep b List.mem_cons_self init
      obtain ⟨result, hresult, hmem'⟩ :=
        ih (fun b' hb' => hstep b' (List.mem_cons_of_mem b hb')) acc
      refine ⟨result, ?_, fun v => ?_⟩
      · rw [List.foldlM_cons, Option.bind_eq_bind, hacc, Option.bind_some, hresult]
      · rw [hmem', hmem, or_assoc]
        apply or_congr_right
        constructor
        · rintro (hC | ⟨b', hb', hC⟩)
          · exact ⟨b, List.mem_cons_self, hC⟩
          · exact ⟨b', List.mem_cons_of_mem b hb', hC⟩
        · rintro ⟨b', hb', hC⟩
          rcases List.mem_cons.mp hb' with rfl | hb'
          · exact .inl hC
          · exact .inr ⟨b', hb', hC⟩

end

/-! ### Facts -/

/-- The query with a value in the place that is asked for. -/
def answer (query : Exp) (v : String) : PredicateType → Exp
  | .one => ⟨query.predicate, v, query.right⟩
  | .two => ⟨query.predicate, query.left, v⟩
  | .nil => nilExp

theorem findMatchingFacts_spec (facts : List Exp) (query : Exp) {queryType : PredicateType}
    (hnil : queryType ≠ .nil) :
  ∃ l, findMatchingFacts facts query queryType = some l
    ∧ ∀ v, v ∈ l ↔ answer query v queryType ∈ facts
  := by
  induction facts with
  | nil => exact ⟨[], by unfold findMatchingFacts; rfl, fun v => by simp⟩
  | cons fact rest ih =>
      obtain ⟨l, hl, hmem⟩ := ih
      obtain ⟨p, s, t⟩ := fact
      cases queryType with
      | one =>
          rw [findMatchingFacts]
          split
          · rename_i hmatch
            refine ⟨s :: l, by rw [hl, Option.map_some], fun v => ?_⟩
            rw [List.mem_cons, List.mem_cons, hmem, answer, Horn.Atom.mk.injEq]
            apply or_congr_left
            exact ⟨fun h => ⟨hmatch.1.symm, h, hmatch.2.symm⟩, fun h => h.2.1⟩
          · rename_i hmatch
            refine ⟨l, hl, fun v => ?_⟩
            rw [List.mem_cons, hmem, answer, Horn.Atom.mk.injEq]
            exact (or_iff_right fun h => hmatch ⟨h.1.symm, h.2.2.symm⟩).symm
      | two =>
          rw [findMatchingFacts]
          split
          · rename_i hmatch
            refine ⟨t :: l, by rw [hl, Option.map_some], fun v => ?_⟩
            rw [List.mem_cons, List.mem_cons, hmem, answer, Horn.Atom.mk.injEq]
            apply or_congr_left
            exact ⟨fun h => ⟨hmatch.1.symm, hmatch.2.symm, h⟩, fun h => h.2.2⟩
          · rename_i hmatch
            refine ⟨l, hl, fun v => ?_⟩
            rw [List.mem_cons, hmem, answer, Horn.Atom.mk.injEq]
            exact (or_iff_right fun h => hmatch ⟨h.1.symm, h.2.1.symm⟩).symm
      | nil => exact absurd rfl hnil

/-- The type `nil` gives an error, or there are no facts. -/
theorem findMatchingFacts_nil {facts : List Exp} {query : Exp} {l : List String}
    (h : findMatchingFacts facts query .nil = some l) :
  l = []
  := by
  cases facts with
  | nil =>
      rw [findMatchingFacts, Option.some.injEq] at h
      exact h.symm
  | cons fact rest =>
      rw [findMatchingFacts] at h
      cases h

/-! ### Rules -/

/-- The first atom of a body in which a variable occurs, with the other atom. -/
def chosen (var : String) (b₁ b₂ : Exp) : Option (Exp × Exp) :=
  [(b₁, b₂), (b₂, b₁)].find? fun e => e.1.left = var ∨ e.1.right = var

theorem chosen_mem {var : String} {b₁ b₂ b other : Exp} (h : chosen var b₁ b₂ = some (b, other)) :
  ∀ a, a ∈ [b₁, b₂] ↔ a = b ∨ a = other
  := by
  have hmem := List.mem_of_find?_eq_some h
  rw [List.mem_cons, List.mem_singleton, Prod.mk.injEq, Prod.mk.injEq] at hmem
  intro a
  rw [List.mem_cons, List.mem_singleton]
  rcases hmem with ⟨rfl, rfl⟩ | ⟨rfl, rfl⟩
  · exact Iff.rfl
  · exact or_comm

theorem chosen_occurs {var : String} {b₁ b₂ b other : Exp}
    (h : chosen var b₁ b₂ = some (b, other)) :
  b.left = var ∨ b.right = var
  := by
  simpa using List.find?_some h

/-- The query for an atom in which a variable occurs. -/
def subqueryOf (var : String) (query b : Exp) : Exp × PredicateType :=
  if b.left = var then
    (⟨b.predicate, query.left, b.right⟩, .two)
  else
    (⟨b.predicate, b.left, query.right⟩, .one)

theorem subqueryLoop_eq (var : String) (query b₁ b₂ : Exp) :
  subqueryLoop var query [(b₁, b₂), (b₂, b₁)]
    = (chosen var b₁ b₂).map fun e =>
        ((subqueryOf var query e.1).1, e.2, (subqueryOf var query e.1).2)
  := by
  have hloop : ∀ pairs : List (Exp × Exp), subqueryLoop var query pairs
      = (pairs.find? fun e => e.1.left = var ∨ e.1.right = var).map fun e =>
          ((subqueryOf var query e.1).1, e.2, (subqueryOf var query e.1).2) := by
    intro pairs
    induction pairs with
    | nil => rfl
    | cons e rest ih =>
        obtain ⟨b, other⟩ := e
        rw [subqueryLoop, List.find?_cons]
        by_cases hleft : b.left = var
        · simp [hleft, subqueryOf]
        · by_cases hright : b.right = var
          · simp [hleft, hright, subqueryOf]
          · simp [hleft, hright, ih]
  exact hloop _

/-- The variable of a head in the place that is known. -/
def knownVar (head : Exp) : PredicateType → String
  | .one => head.right
  | .two => head.left
  | .nil => "NIL"

theorem constructSubquery_cases {head b₁ b₂ query newQuery newRule : Exp}
    {queryType newQueryType : PredicateType}
    (h : constructSubquery head b₁ b₂ query queryType = some (newQuery, newRule, newQueryType)) :
  queryType ≠ .nil ∧ (newQueryType = .nil
    ∨ ∃ b, chosen (knownVar head queryType) b₁ b₂ = some (b, newRule)
        ∧ newQuery = (subqueryOf (knownVar head queryType) query b).1
        ∧ newQueryType = (subqueryOf (knownVar head queryType) query b).2)
  := by
  have hcases : ∀ var : String, (subqueryLoop var query [(b₁, b₂), (b₂, b₁)]).getD
      (nilExp, nilExp, .nil) = (newQuery, newRule, newQueryType) → newQueryType = .nil
        ∨ ∃ b, chosen var b₁ b₂ = some (b, newRule) ∧ newQuery = (subqueryOf var query b).1
          ∧ newQueryType = (subqueryOf var query b).2 := by
    intro var hvar
    rw [subqueryLoop_eq] at hvar
    cases hchosen : chosen var b₁ b₂ with
    | none =>
        rw [hchosen] at hvar
        exact .inl (congrArg (fun e => e.2.2) hvar).symm
    | some e =>
        rw [hchosen] at hvar
        cases hvar
        exact .inr ⟨e.1, rfl, rfl, rfl⟩
  cases queryType with
  | one => exact ⟨by decide, hcases _ (Option.some.inj h)⟩
  | two => exact ⟨by decide, hcases _ (Option.some.inj h)⟩
  | nil => cases h

/-- A value that a rule contributes to the results of a query. -/
inductive Contributes (fuel : Nat) (facts : List Exp) (rules : Rules) (query : Exp)
    (queryType : PredicateType) (rule : Nat × Axiom) (v : String) : Prop where
  | one {b : Exp} {more : List String} (hbody : rule.2.body = [b])
      (hmore : resolveSubqueries fuel facts rules ⟨b.predicate, query.left, query.right⟩ queryType
        = some more) (hv : v ∈ more)
  | two {b₁ b₂ newQuery newRule : Exp} {newQueryType : PredicateType} {item : String}
      {subqueries more : List String} (hbody : rule.2.body = [b₁, b₂])
      (hsubquery : constructSubquery rule.2.head b₁ b₂ query queryType
        = some (newQuery, newRule, newQueryType))
      (hsubqueries : resolveSubqueries fuel facts (rules.filter fun other => other.1 ≠ rule.1)
        newQuery newQueryType = some subqueries) (hitem : item ∈ subqueries)
      (hmore : resolveSubqueries fuel facts rules
        (constructExtendedQuery newRule item query.left) newQueryType = some more) (hv : v ∈ more)

theorem resolveRule_cases {fuel : Nat} {facts : List Exp} {rules : Rules} {query : Exp}
    {queryType : PredicateType} {rule : Nat × Axiom} {acc acc' : List String}
    (h : resolveRule (resolveSubqueries fuel facts) rules query queryType acc rule = some acc')
    {v : String} (hv : v ∈ acc') :
  v ∈ acc ∨ rule.2.head.predicate = query.predicate
    ∧ Contributes fuel facts rules query queryType rule v
  := by
  rw [resolveRule] at h
  split at h
  · rename_i hpredicate
    split at h
    · rename_i b hbody
      obtain ⟨more, hmore, rfl⟩ := Option.map_eq_some_iff.mp h
      rcases mem_appendUniqueResults.mp hv with hv | hv
      · exact .inl hv
      · exact .inr ⟨hpredicate, .one hbody hmore hv⟩
    · rename_i b₁ b₂ hbody
      rw [Option.bind_eq_bind, Option.bind_eq_some_iff] at h
      obtain ⟨⟨newQuery, newRule, newQueryType⟩, hsubquery, h⟩ := h
      rw [Option.bind_eq_bind, Option.bind_eq_some_iff] at h
      obtain ⟨subqueries, hsubqueries, h⟩ := h
      have hitems := mem_of_foldlM (C := fun item v => ∃ more,
        resolveSubqueries fuel facts rules (constructExtendedQuery newRule item query.left)
          newQueryType = some more ∧ v ∈ more) ?_ h v hv
      · rcases hitems with hv | ⟨item, hitem, more, hmore, hv⟩
        · exact .inl hv
        · exact .inr ⟨hpredicate, .two hbody hsubquery hsubqueries hitem hmore hv⟩
      · intro item _ acc acc' hacc v hv
        obtain ⟨more, hmore, rfl⟩ := Option.map_eq_some_iff.mp hacc
        rcases mem_appendUniqueResults.mp hv with hv | hv
        · exact .inl hv
        · exact .inr ⟨more, hmore, hv⟩
    · cases h
      exact .inl hv
  · cases h
    exact .inl hv

/-- A result comes from a fact or from a rule. -/
theorem resolveSubqueries_cases {fuel : Nat} {facts : List Exp} {rules : Rules} {query : Exp}
    {queryType : PredicateType} {result : List String}
    (h : resolveSubqueries (fuel + 1) facts rules query queryType = some result) {v : String}
    (hv : v ∈ result) :
  (queryType ≠ .nil ∧ answer query v queryType ∈ facts)
    ∨ ∃ rule ∈ rules, rule.2.head.predicate = query.predicate
        ∧ Contributes fuel facts rules query queryType rule v
  := by
  rw [resolveSubqueries, Option.bind_eq_bind, Option.bind_eq_some_iff] at h
  obtain ⟨l, hl, h⟩ := h
  have hstep : ∀ rule ∈ rules, ∀ acc acc',
      resolveRule (resolveSubqueries fuel facts) rules query queryType acc rule = some acc' →
        ∀ v ∈ acc', v ∈ acc ∨ rule.2.head.predicate = query.predicate
          ∧ Contributes fuel facts rules query queryType rule v :=
    fun rule _ acc acc' hacc v hv => resolveRule_cases hacc hv
  rcases mem_of_foldlM hstep h v hv with hv | hrule
  · by_cases hnil : queryType = .nil
    · rw [hnil] at hl
      rw [findMatchingFacts_nil hl] at hv
      cases hv
    · obtain ⟨l', hl', hmem⟩ := findMatchingFacts_spec facts query hnil
      rw [hl, Option.some.injEq] at hl'
      rw [hl', hmem] at hv
      exact .inl ⟨hnil, hv⟩
  · exact .inr hrule

/-! ### Calls -/

/-- The arguments of a call, except for the facts. -/
structure Goal where
  rules : Rules
  query : Exp
  queryType : PredicateType

/-- A value is among those that the call returns. -/
def Goal.Returns (facts : List Exp) (goal : Goal) (v : String) : Prop :=
  ∃ fuel result, resolveSubqueries fuel facts goal.rules goal.query goal.queryType = some result
    ∧ v ∈ result

/-- A call uses a rule with two atoms; what is constructed for it. -/
structure Goal.Joins (goal : Goal) (rule : Nat × Axiom) (e : Exp × Exp × PredicateType) : Prop where
  mem : rule ∈ goal.rules
  predicate : rule.2.head.predicate = goal.query.predicate
  body : ∃ b₁ b₂, rule.2.body = [b₁, b₂]
    ∧ constructSubquery rule.2.head b₁ b₂ goal.query goal.queryType = some e

/-- The call for the atom of a rule. -/
def Goal.single (goal : Goal) (b : Exp) : Goal :=
  ⟨goal.rules, ⟨b.predicate, goal.query.left, goal.query.right⟩, goal.queryType⟩

/-- The call for the atom that is asked first, without the rule. -/
def Goal.first (goal : Goal) (rule : Nat × Axiom) (e : Exp × Exp × PredicateType) : Goal :=
  ⟨goal.rules.filter fun other => other.1 ≠ rule.1, e.1, e.2.2⟩

/-- The call for the atom that is asked second. -/
def Goal.second (goal : Goal) (e : Exp × Exp × PredicateType) (item : String) : Goal :=
  ⟨goal.rules, constructExtendedQuery e.2.1 item goal.query.left, e.2.2⟩

/-- The calls that a call makes.  The atom that is asked second is only asked for answers to the
other one. -/
inductive Goal.Calls (facts : List Exp) : Goal → Goal → Prop where
  | single {goal : Goal} {rule : Nat × Axiom} {b : Exp} (hrule : rule ∈ goal.rules)
      (hpredicate : rule.2.head.predicate = goal.query.predicate) (hbody : rule.2.body = [b]) :
      Calls facts goal (goal.single b)
  | first {goal : Goal} {rule : Nat × Axiom} {e : Exp × Exp × PredicateType}
      (h : goal.Joins rule e) : Calls facts goal (goal.first rule e)
  | second {goal : Goal} {rule : Nat × Axiom} {e : Exp × Exp × PredicateType} {item : String}
      (h : goal.Joins rule e) (hitem : (goal.first rule e).Returns facts item) :
      Calls facts goal (goal.second e item)

/-- The calls that a call leads to. -/
def Goal.LeadsTo (facts : List Exp) : Goal → Goal → Prop :=
  Relation.ReflTransGen (Goal.Calls facts)

theorem Goal.Calls.rules_subset {facts : List Exp} {goal goal' : Goal}
    (h : Goal.Calls facts goal goal') :
  goal'.rules ⊆ goal.rules
  := by
  cases h with
  | single => exact List.Subset.refl _
  | first => exact List.filter_sublist.subset
  | second => exact List.Subset.refl _

/-- No rules are added. -/
theorem Goal.LeadsTo.rules_subset {facts : List Exp} {goal goal' : Goal}
    (h : Goal.LeadsTo facts goal goal') :
  goal'.rules ⊆ goal.rules
  := by
  induction h with
  | refl => exact List.Subset.refl _
  | tail _ hcalls ih => exact List.Subset.trans hcalls.rules_subset ih

end Prolog
