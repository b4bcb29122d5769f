import Homeworks.Prolog.Returns
import Homeworks.Prolog.Soundness
import Homeworks.Relation.Acyclic

/-!
# Termination of the resolver

Rules of the forms `p(X,Y) < q(X,Y)` and `p(X,Y) < q(X,Z) r(Z,Y)` over acyclic facts.  The atom that
is asked first is asked without the rule; the other one is asked for an answer, which the facts
connect with the known argument, or for a variable, which has no answers.
-/

namespace Prolog

section

variable {x y z : String} {queryType : PredicateType}

/-! ### Both types of queries -/

/-- An atom with a known argument in the place that a type knows. -/
def place (queryType : PredicateType) (p v k : String) : Exp :=
  match queryType with
  | .one => ⟨p, v, k⟩
  | .two => ⟨p, k, v⟩
  | .nil => nilExp

/-- The predicate of a body that is asked first. -/
def askedFirst (queryType : PredicateType) (q r : String) : String :=
  match queryType with
  | .one => r
  | _ => q

/-- The predicate of a body that is asked second. -/
def askedSecond (queryType : PredicateType) (q r : String) : String :=
  match queryType with
  | .one => q
  | _ => r

theorem place_predicate (hnil : queryType ≠ .nil) (p v k : String) :
  (place queryType p v k).predicate = p
  := by
  cases queryType with
  | one | two => rfl
  | nil => exact absurd rfl hnil

theorem answer_place (hnil : queryType ≠ .nil) (p slot k v : String) :
  answer (place queryType p slot k) v queryType = place queryType p v k
  := by
  cases queryType with
  | one | two => rfl
  | nil => exact absurd rfl hnil

theorem place_body (hnil : queryType ≠ .nil) (p q slot k : String) :
  (⟨q, (place queryType p slot k).left, (place queryType p slot k).right⟩ : Exp)
    = place queryType q slot k
  := by
  cases queryType with
  | one | two => rfl
  | nil => exact absurd rfl hnil

/-- The query for the atom that is asked first. -/
theorem constructSubquery_place (hne : x ≠ y ∧ x ≠ z ∧ y ≠ z) (hnil : queryType ≠ .nil)
    (p q r slot k : String) :
  constructSubquery ⟨p, x, y⟩ ⟨q, x, z⟩ ⟨r, z, y⟩ (place queryType p slot k) queryType
    = some (place queryType (askedFirst queryType q r) z k,
        if queryType = .one then ⟨q, x, z⟩ else ⟨r, z, y⟩, queryType)
  := by
  cases queryType with
  | one =>
      rw [constructSubquery, subqueryLoop, if_neg hne.1, if_neg hne.2.2.symm, subqueryLoop,
        if_neg hne.2.2.symm, if_pos rfl]
      rfl
  | two =>
      rw [constructSubquery, subqueryLoop, if_pos rfl]
      rfl
  | nil => exact absurd rfl hnil

/-! ### Facts that lead to others -/

variable {facts : List Exp}

/-- A fact leads from its first argument to the second one. -/
def Leads (facts : List Exp) (s t : String) : Prop := ∃ p, ⟨p, s, t⟩ ∈ facts

/-- An answer is connected to the known argument by facts. -/
def Below (facts : List Exp) (queryType : PredicateType) (v k : String) : Prop :=
  match queryType with
  | .one => Relation.TransGen (Leads facts) v k
  | _ => Relation.TransGen (Leads facts) k v

theorem wellFounded_below (hacyclic : ∀ s, ¬ Relation.TransGen (Leads facts) s s)
    (queryType : PredicateType) :
  WellFounded (Below facts queryType)
  := by
  have hright : WellFounded fun b a => Leads facts a b := by
    apply Relation.wellFounded_of_acyclic (facts.map fun a => a.right) _ hacyclic
    rintro a b ⟨p, hfact⟩
    exact List.mem_map.mpr ⟨_, hfact, rfl⟩
  have hleft : WellFounded (Leads facts) := by
    apply Relation.wellFounded_of_acyclic (facts.map fun a => a.left)
    · rintro a b ⟨p, hfact⟩
      exact List.mem_map.mpr ⟨_, hfact, rfl⟩
    · exact fun a h => hacyclic a (Relation.transGen_swap.mp h)
  cases queryType with
  | one => exact hleft.transGen
  | two | nil =>
      refine Subrelation.wf ?_ hright.transGen
      exact fun h => Relation.transGen_swap.mpr h

theorem Below.of_fact (hnil : queryType ≠ .nil) {p v k : String}
    (h : place queryType p v k ∈ facts) :
  Below facts queryType v k
  := by
  cases queryType with
  | one | two => exact .single ⟨p, h⟩
  | nil => exact absurd rfl hnil

theorem Below.trans {m v k : String} (h : Below facts queryType v m)
    (h' : Below facts queryType m k) :
  Below facts queryType v k
  := by
  cases queryType with
  | one => exact Relation.TransGen.trans h h'
  | two | nil => exact Relation.TransGen.trans h' h

/-- The arguments of facts are constants. -/
theorem Below.isConst (hfacts : ∀ a ∈ facts, isConst a.left = true ∧ isConst a.right = true)
    {v k : String} (h : Below facts queryType v k) :
  isConst k = true
  := by
  have hleads : ∀ {s t}, Relation.TransGen (Leads facts) s t →
      Prolog.isConst s = true ∧ Prolog.isConst t = true := by
    intro s t hst
    induction hst with
    | single hst =>
        obtain ⟨p, hfact⟩ := hst
        exact hfacts _ hfact
    | tail _ hst ih =>
        obtain ⟨p, hfact⟩ := hst
        exact ⟨ih.1, (hfacts _ hfact).2⟩
  cases queryType with
  | one => exact (hleads h).2
  | two | nil => exact (hleads h).1

/-! ### Rules with their own variables -/

/-- The forms of the rules. -/
inductive RuleForm : Axiom → Prop where
  | one {x y : String} (hx : isVar x = true) (hy : isVar y = true) (hne : x ≠ y) (p q : String) :
      RuleForm ⟨⟨p, x, y⟩, [⟨q, x, y⟩]⟩
  | two {x y z : String} (hx : isVar x = true) (hy : isVar y = true) (hz : isVar z = true)
      (hne : x ≠ y ∧ x ≠ z ∧ y ≠ z) (p q r : String) :
      RuleForm ⟨⟨p, x, y⟩, [⟨q, x, z⟩, ⟨r, z, y⟩]⟩

/-- A rule with one atom leads from the predicate of its head to the one of the atom. -/
def Renames (rules : Rules) (p q : String) : Prop :=
  ∃ rule ∈ rules, rule.2.head.predicate = p ∧ ∃ b, rule.2.body = [b] ∧ b.predicate = q

theorem wellFounded_renames {rules : Rules}
    (hacyclic : ∀ p, ¬ Relation.TransGen (Renames rules) p p) :
  WellFounded fun q p => Renames rules p q
  := by
  apply Relation.wellFounded_of_acyclic
    (rules.flatMap fun rule => rule.2.body.map fun b => b.predicate) _ hacyclic
  rintro p q ⟨rule, hrule, -, b, hbody, rfl⟩
  refine List.mem_flatMap.mpr ⟨rule, hrule, List.mem_map_of_mem ?_⟩
  rw [hbody]
  exact List.mem_cons_self

/-- A call returns, and the facts connect what it returns with the known argument. -/
def Ends (facts : List Exp) (rules : Rules) (queryType : PredicateType)
    (p slot k : String) : Prop :=
  ∃ D, Answers facts rules (place queryType p slot k) queryType D
    ∧ ∀ v, D v → Below facts queryType v k

/-- The query for the atom that is asked second is for the answer, or it is for the variable that
the atoms share. -/
theorem constructExtendedQuery_cases (hnil : queryType ≠ .nil) {k : String}
    (hk : queryType = .two → z ≠ k) (p slot x y q r item : String) :
  ∃ p' slot', constructExtendedQuery (if queryType = .one then ⟨q, x, z⟩ else ⟨r, z, y⟩) item
      (place queryType p slot k).left = place queryType p' slot' item
    ∨ constructExtendedQuery (if queryType = .one then ⟨q, x, z⟩ else ⟨r, z, y⟩) item
      (place queryType p slot k).left = place queryType p' slot' z
  := by
  cases queryType with
  | one =>
      rw [if_pos rfl, constructExtendedQuery]
      split
      · exact ⟨q, x, .inl rfl⟩
      · exact ⟨q, item, .inr rfl⟩
  | two =>
      rw [if_neg (by decide), constructExtendedQuery]
      exact ⟨r, y, .inl (if_neg (hk rfl))⟩
  | nil => exact absurd rfl hnil

/-- A call returns if all calls do whose known argument is an answer, or a variable if there is an
answer. -/
theorem ends_of_below (hfacts : ∀ a ∈ facts, isConst a.left = true ∧ isConst a.right = true)
    (hnil : queryType ≠ .nil) {rules : Rules} (hforms : ∀ rule ∈ rules, RuleForm rule.2)
    (hrenames : ∀ p, ¬ Relation.TransGen (Renames rules) p p) {k : String}
    (hbelow : ∀ m, Below facts queryType m k → ∀ k', k' = m ∨ isVar k' = true →
      ∀ left, left ⊆ rules → ∀ p slot, Ends facts left queryType p slot k')
    {left : Rules} (hleft : left ⊆ rules) (p slot : String) :
  Ends facts left queryType p slot k
  := by
  -- Induction on the number of rules, and for the same rules on the predicate.
  induction hn : left.length using Nat.strongRecOn generalizing left p slot with
  | ind n ihn =>
  induction p using (wellFounded_renames hrenames).induction with
  | h p ihp =>
  have hadds : ∀ rule ∈ left, ∃ C, Adds facts left (place queryType p slot k) queryType rule C
      ∧ ∀ v, C v → Below facts queryType v k := by
    rintro ⟨i, c⟩ hrule
    by_cases hp : c.head.predicate = p
    · cases hforms _ (hleft hrule) with
      | one hx hy hne p' q =>
          obtain rfl : p' = p := hp
          obtain ⟨D, hanswers, hD⟩ := ihp q ⟨_, hleft hrule, rfl, _, rfl, rfl⟩
          rw [← place_body hnil p' q] at hanswers
          exact ⟨D, adds_one (place_predicate hnil p' slot k).symm rfl hanswers, hD⟩
      | @two x y z hx hy hz hne p' q r =>
          obtain rfl : p' = p := hp
          have hlt : (left.filter fun other => other.1 ≠ i).length < n := by
            rw [← hn]
            refine List.length_filter_lt_length_iff_exists.mpr ⟨_, hrule, ?_⟩
            exact fun h => of_decide_eq_true h rfl
          obtain ⟨D, hfirst, hD⟩ := ihn _ hlt (List.Subset.trans (List.filter_subset_self _) hleft)
            (askedFirst queryType q r) z rfl
          have hsecond : ∀ item, ∃ D', D item → Answers facts left
              (constructExtendedQuery (if queryType = .one then ⟨q, x, z⟩ else ⟨r, z, y⟩) item
                (place queryType p' slot k).left) queryType D'
              ∧ ∀ v, D' v → Below facts queryType v k := by
            intro item
            by_cases hitem : D item
            · have hk : z ≠ k := by
                rintro rfl
                exact not_isConst_of_isVar hz ((hD item hitem).isConst hfacts)
              obtain ⟨p'', slot', heq | heq⟩ := constructExtendedQuery_cases hnil
                (fun _ => hk) p' slot x y q r item
              · obtain ⟨D', hanswers, hD'⟩ := hbelow item (hD item hitem) item (.inl rfl) left hleft
                  p'' slot'
                refine ⟨D', fun _ => ⟨heq ▸ hanswers, fun v hv => (hD' v hv).trans (hD item hitem)⟩⟩
              · obtain ⟨D', hanswers, hD'⟩ := hbelow item (hD item hitem) z (.inr hz) left hleft
                  p'' slot'
                refine ⟨D', fun _ => ⟨heq ▸ hanswers, fun v hv => ?_⟩⟩
                exact absurd ((hD' v hv).isConst hfacts) (not_isConst_of_isVar hz)
            · exact ⟨fun _ => False, fun h => absurd h hitem⟩
          choose D' hD' using hsecond
          refine ⟨fun v => ∃ item, D item ∧ D' item v, ?_, ?_⟩
          · exact adds_two (place_predicate hnil p' slot k).symm rfl
              (constructSubquery_place hne hnil p' q r slot k) hfirst
              fun item hitem => (hD' item hitem).1
          · rintro v ⟨item, hitem, hv⟩
            exact (hD' item hitem).2 v hv
    · refine ⟨fun _ => False, adds_other ?_, fun v => False.elim⟩
      rw [place_predicate hnil]
      exact hp
  choose! C hC using hadds
  refine ⟨_, answers_of_adds hnil fun rule hrule => (hC rule hrule).1, ?_⟩
  rintro v (hfact | ⟨rule, hrule, hv⟩)
  · rw [answer_place hnil] at hfact
    exact .of_fact hnil hfact
  · exact (hC rule hrule).2 v hv

/-- Every call returns. -/
theorem ends (hfacts : ∀ a ∈ facts, isConst a.left = true ∧ isConst a.right = true)
    (hacyclic : ∀ s, ¬ Relation.TransGen (Leads facts) s s) (hnil : queryType ≠ .nil)
    {rules : Rules}
    (hforms : ∀ rule ∈ rules, RuleForm rule.2)
    (hrenames : ∀ p, ¬ Relation.TransGen (Renames rules) p p) (p slot k : String) :
  Ends facts rules queryType p slot k
  := by
  have hvar : ∀ k, isVar k = true → ∀ left, left ⊆ rules → ∀ p slot,
      Ends facts left queryType p slot k := by
    intro k hk left hleft p slot
    refine ends_of_below hfacts hnil hforms hrenames ?_ hleft p slot
    intro m hm
    exact absurd (hm.isConst hfacts) (not_isConst_of_isVar hk)
  have hall : ∀ left, left ⊆ rules → ∀ p slot, Ends facts left queryType p slot k := by
    induction k using (wellFounded_below hacyclic queryType).induction with
    | h k ih =>
        intro left hleft p slot
        refine ends_of_below hfacts hnil hforms hrenames ?_ hleft p slot
        rintro m hm k' (rfl | hk')
        · exact ih k' hm
        · exact hvar k' hk'
  exact hall rules (List.Subset.refl _) p slot

/-- The resolver returns, whatever the query is. -/
theorem resolveSubqueries_terminates
    (hfacts : ∀ a ∈ facts, isConst a.left = true ∧ isConst a.right = true)
    (hacyclic : ∀ s, ¬ Relation.TransGen (Leads facts) s s) {rules : Rules}
    (hforms : ∀ rule ∈ rules, RuleForm rule.2)
    (hrenames : ∀ p, ¬ Relation.TransGen (Renames rules) p p) (hnil : queryType ≠ .nil)
    (query : Exp) :
  ∃ fuel result, resolveSubqueries fuel facts rules query queryType = some result
  := by
  obtain ⟨slot, k, hquery⟩ : ∃ slot k, query = place queryType query.predicate slot k := by
    cases queryType with
    | one => exact ⟨query.left, query.right, rfl⟩
    | two => exact ⟨query.right, query.left, rfl⟩
    | nil => exact absurd rfl hnil
  obtain ⟨D, ⟨fuel, result, hresult, -⟩, -⟩ :=
    ends hfacts hacyclic hnil hforms hrenames query.predicate slot k
  rw [← hquery] at hresult
  exact ⟨fuel, result, hresult⟩

end

/-- A relation is acyclic if its steps make a number less. -/
theorem not_transGen_self {R : String → String → Prop} (f : String → Nat)
    (h : ∀ s t, R s t → f t < f s) (s : String) :
  ¬ Relation.TransGen R s s
  := by
  have hlt : ∀ t, Relation.TransGen R s t → f t < f s := by
    intro t hst
    induction hst with
    | single hst => exact h _ _ hst
    | tail _ hst ih => exact Nat.lt_trans (h _ _ hst) ih
  exact fun hcycle => Nat.lt_irrefl _ (hlt s hcycle)

theorem resolveSubqueries_terminates_ancestor :
  ∃ fuel result, resolveSubqueries fuel [⟨"parent", "ann", "bob"⟩, ⟨"parent", "bob", "eve"⟩]
    [(0, ⟨⟨"ancestor", "X", "Y"⟩, [⟨"parent", "X", "Y"⟩]⟩),
      (1, ⟨⟨"ancestor", "X", "Y"⟩, [⟨"ancestor", "X", "Z"⟩, ⟨"ancestor", "Z", "Y"⟩]⟩)]
    ⟨"ancestor", "X", "eve"⟩ .one = some result
  := by
  refine resolveSubqueries_terminates (by decide) ?_ ?_ ?_ (by decide) _
  · apply not_transGen_self fun s => ["eve", "bob", "ann"].idxOf s
    rintro s t ⟨p, hfact⟩
    have hall : ∀ a ∈ [(⟨"parent", "ann", "bob"⟩ : Exp), ⟨"parent", "bob", "eve"⟩],
        ["eve", "bob", "ann"].idxOf a.right < ["eve", "bob", "ann"].idxOf a.left := by decide
    exact hall _ hfact
  · intro rule hrule
    rw [List.mem_cons, List.mem_singleton] at hrule
    rcases hrule with rfl | rfl
    · exact .one (by decide) (by decide) (by decide) _ _
    · exact .two (by decide) (by decide) (by decide) (by decide) _ _ _
  · apply not_transGen_self fun p => ["parent", "ancestor"].idxOf p
    rintro p q ⟨rule, hrule, rfl, b, hbody, rfl⟩
    rw [List.mem_cons, List.mem_singleton] at hrule
    rcases hrule with rfl | rfl
    · cases hbody
      decide
    · cases hbody

end Prolog
