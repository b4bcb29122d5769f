import Homeworks.Prolog.Termination

/-!
# Completeness of the resolver

Rules of the forms `p(X,Y) < q(X,Y)` and `p(X,Y) < q(X,Z) r(Z,Y)` over acyclic facts.  One of the
atoms of a body with two atoms is asked first, with the rule removed; all answers are found if this
query does not need the rule.
-/

namespace Prolog

/-- The forms of the axioms. -/
inductive Form (x y z : String) : Axiom → Prop where
  | fact {p s t : String} (hs : isConst s = true) (ht : isConst t = true) :
      Form x y z ⟨⟨p, s, t⟩, []⟩
  | one (p q : String) : Form x y z ⟨⟨p, x, y⟩, [⟨q, x, y⟩]⟩
  | two (p q r : String) : Form x y z ⟨⟨p, x, y⟩, [⟨q, x, z⟩, ⟨r, z, y⟩]⟩

structure Chain (x y z : String) (axioms : List Axiom) : Prop where
  vars : isVar x = true ∧ isVar y = true ∧ isVar z = true
  ne : x ≠ y ∧ x ≠ z ∧ y ≠ z
  forms : ∀ c ∈ axioms, Form x y z c

/-- A fact leads from its first argument to the second one. -/
def Edge (axioms : List Axiom) (s t : String) : Prop := ∃ p, ⟨p, s, t⟩ ∈ factsOf axioms

def Acyclic (axioms : List Axiom) : Prop := ∀ s, ¬ Relation.TransGen (Edge axioms) s s

/-- What a call needs: all rules for its predicate, no way back to it through rules with one atom,
and for the left argument the variable of the heads if an atom that is asked first has an answer. -/
structure Goal.Served (axioms : List Axiom) (x : String) (goal : Goal) : Prop where
  present : ∀ c ∈ axioms, c.body ≠ [] → c.head.predicate = goal.query.predicate →
    ∃ i, (i, c) ∈ goal.rules
  acyclic : ¬ Relation.TransGen (Renames goal.rules) goal.query.predicate goal.query.predicate
  joined : goal.queryType = .one → ∀ rule e item, goal.Joins rule e →
    (goal.first rule e).Returns (factsOf axioms) item → goal.query.left = x

section

variable {x y z : String} {axioms : List Axiom}

theorem Chain.wellFormed (h : Chain x y z axioms) :
  WellFormed axioms
  where
  facts c hc hbody := by
    cases h.forms c hc with
    | fact hs ht => exact ⟨hs, ht⟩
    | one => cases hbody
    | two => cases hbody
  heads c hc hbody := by
    cases h.forms c hc with
    | fact => exact absurd rfl hbody
    | one => exact ⟨h.vars.1, h.vars.2.1⟩
    | two => exact ⟨h.vars.1, h.vars.2.1⟩
  bodies c hc b hb := by
    cases h.forms c hc with
    | fact => cases hb
    | one =>
        rw [List.mem_singleton.mp hb]
        exact ⟨h.vars.1, h.vars.2.1⟩
    | two =>
        rw [List.mem_cons, List.mem_singleton] at hb
        rcases hb with rfl | rfl
        · exact ⟨h.vars.1, h.vars.2.2⟩
        · exact ⟨h.vars.2.2, h.vars.2.1⟩

/-! ### Derivations -/

/-- An atom is derivable from a fact, from a rule with one atom or from a rule with two atoms. -/
theorem derives_iff (h : Chain x y z axioms) {p s t : String} :
  Horn.Derives isVar axioms ⟨p, s, t⟩
    ↔ ⟨p, s, t⟩ ∈ factsOf axioms
      ∨ (∃ q, ⟨⟨p, x, y⟩, [⟨q, x, y⟩]⟩ ∈ axioms ∧ Horn.Derives isVar axioms ⟨q, s, t⟩)
      ∨ ∃ q r, ⟨⟨p, x, y⟩, [⟨q, x, z⟩, ⟨r, z, y⟩]⟩ ∈ axioms
          ∧ ∃ m, Horn.Derives isVar axioms ⟨q, s, m⟩ ∧ Horn.Derives isVar axioms ⟨r, m, t⟩
  := by
  have hx := subst_of_isVar h.vars.1
  have hy := subst_of_isVar h.vars.2.1
  have hz := subst_of_isVar h.vars.2.2
  constructor
  · intro hderives
    generalize ha : (⟨p, s, t⟩ : Exp) = a at hderives
    cases hderives with
    | @clause c hc σ hbody =>
        cases h.forms c hc with
        | @fact p' s' t' hs ht =>
            rw [Horn.Atom.subst, subst_of_isConst hs, subst_of_isConst ht]
            exact .inl (List.mem_map.mpr ⟨_, List.mem_filter.mpr ⟨hc, rfl⟩, rfl⟩)
        | one p' q =>
            rw [Horn.Atom.subst, hx, hy] at ha
            cases ha
            have hq := hbody _ List.mem_cons_self
            rw [Horn.Atom.subst, hx, hy] at hq
            exact .inr (.inl ⟨q, hc, hq⟩)
        | two p' q r =>
            rw [Horn.Atom.subst, hx, hy] at ha
            cases ha
            have hq := hbody _ List.mem_cons_self
            have hr := hbody _ (List.mem_cons_of_mem _ List.mem_cons_self)
            rw [Horn.Atom.subst, hx, hz] at hq
            rw [Horn.Atom.subst, hz, hy] at hr
            exact .inr (.inr ⟨q, r, hc, σ z, hq, hr⟩)
  · have hxy := h.ne.1
    have hxz := h.ne.2.1
    have hyz := h.ne.2.2
    rintro (hfact | ⟨q, hc, hq⟩ | ⟨q, r, hc, m, hq, hr⟩)
    · exact derives_fact h.wellFormed hfact
    · apply Horn.Derives.of_clause hc fun v => if v = x then s else t
      · rw [Horn.Atom.subst, hx, hy, if_pos rfl, if_neg hxy.symm]
      · intro b hb
        rw [List.mem_singleton.mp hb, Horn.Atom.subst, hx, hy, if_pos rfl, if_neg hxy.symm]
        exact hq
    · apply Horn.Derives.of_clause hc fun v => if v = x then s else if v = z then m else t
      · rw [Horn.Atom.subst, hx, hy, if_pos rfl, if_neg hxy.symm, if_neg hyz]
      · intro b hb
        rw [List.mem_cons, List.mem_singleton] at hb
        rcases hb with rfl | rfl
        · rw [Horn.Atom.subst, hx, hz, if_pos rfl, if_neg hxz.symm, if_pos rfl]
          exact hq
        · rw [Horn.Atom.subst, hz, hy, if_neg hxz.symm, if_pos rfl, if_neg hxy.symm, if_neg hyz]
          exact hr

/-- The arguments of a derivable atom are connected by facts. -/
theorem edge_of_derives (h : Chain x y z axioms) {a : Exp}
    (hderives : Horn.Derives isVar axioms a) :
  Relation.TransGen (Edge axioms) a.left a.right
  := by
  induction hderives with
  | @clause c hc σ hbody ih =>
      cases h.forms c hc with
      | @fact p s t hs ht =>
          rw [Horn.Atom.subst, subst_of_isConst hs, subst_of_isConst ht]
          exact .single ⟨p, List.mem_map.mpr ⟨_, List.mem_filter.mpr ⟨hc, rfl⟩, rfl⟩⟩
      | one p q =>
          have hq := ih ⟨q, x, y⟩ List.mem_cons_self
          exact hq
      | two p q r =>
          have hq := ih ⟨q, x, z⟩ List.mem_cons_self
          have hr := ih ⟨r, z, y⟩ (List.mem_cons_of_mem _ List.mem_cons_self)
          exact Relation.TransGen.trans hq hr

/-- The arguments of a derivable atom are constants. -/
theorem isConst_of_edge (h : Chain x y z axioms) {s t : String}
    (hedge : Relation.TransGen (Edge axioms) s t) :
  isConst s = true ∧ isConst t = true
  := by
  induction hedge with
  | single hedge =>
      obtain ⟨p, hfact⟩ := hedge
      exact factsOf_const h.wellFormed hfact
  | tail _ hedge ih =>
      obtain ⟨p, hfact⟩ := hedge
      exact ⟨ih.1, (factsOf_const h.wellFormed hfact).2⟩

/-! ### Both types of queries -/

/-- An answer is connected to the known argument by facts. -/
def Closer (axioms : List Axiom) (queryType : PredicateType) (m k : String) : Prop :=
  match queryType with
  | .one => Relation.TransGen (Edge axioms) m k
  | _ => Relation.TransGen (Edge axioms) k m

variable {queryType : PredicateType}

theorem place_derives_iff (h : Chain x y z axioms) (hnil : queryType ≠ .nil) {p v k : String} :
  Horn.Derives isVar axioms (place queryType p v k)
    ↔ place queryType p v k ∈ factsOf axioms
      ∨ (∃ q, ⟨⟨p, x, y⟩, [⟨q, x, y⟩]⟩ ∈ axioms
          ∧ Horn.Derives isVar axioms (place queryType q v k))
      ∨ ∃ q r, ⟨⟨p, x, y⟩, [⟨q, x, z⟩, ⟨r, z, y⟩]⟩ ∈ axioms
          ∧ ∃ m, Horn.Derives isVar axioms (place queryType (askedFirst queryType q r) m k)
            ∧ Horn.Derives isVar axioms (place queryType (askedSecond queryType q r) v m)
  := by
  cases queryType with
  | one =>
      simp only [place, askedFirst, askedSecond]
      rw [derives_iff h]
      simp only [and_comm]
  | two => exact derives_iff h
  | nil => exact absurd rfl hnil

theorem closer_of_derives (h : Chain x y z axioms) (hnil : queryType ≠ .nil) {p m k : String}
    (hderives : Horn.Derives isVar axioms (place queryType p m k)) :
  Closer axioms queryType m k ∧ isConst m = true
  := by
  have hedge := edge_of_derives h hderives
  cases queryType with
  | one => exact ⟨hedge, (isConst_of_edge h hedge).1⟩
  | two => exact ⟨hedge, (isConst_of_edge h hedge).2⟩
  | nil => exact absurd rfl hnil

theorem wellFounded_closer (hacyclic : Acyclic axioms) (queryType : PredicateType) :
  WellFounded (Closer axioms queryType)
  := wellFounded_below hacyclic queryType

/-! ### Rules -/

theorem mem_rulesOf {rule : Nat × Axiom} (h : rule ∈ rulesOf axioms) :
  rule.2 ∈ axioms ∧ rule.2.body ≠ []
  := by
  refine ⟨rulesOf_mem axioms rule h, fun hempty => ?_⟩
  have hbody := (List.mem_filter.mp h).2
  rw [hempty] at hbody
  cases hbody

/-- The rules with one atom do not come back to the predicates of calls. -/
theorem wellFounded_called (hnil : queryType ≠ .nil) {start : Goal}
    (hserved : ∀ goal, Goal.LeadsTo (factsOf axioms) start goal → goal.Served axioms x)
    (rules : Rules) (slot k : String) :
  WellFounded fun q p =>
    Goal.LeadsTo (factsOf axioms) start ⟨rules, place queryType p slot k, queryType⟩
      ∧ Renames rules p q
  := by
  apply Relation.wellFounded_of_acyclic (R := fun p q =>
    Goal.LeadsTo (factsOf axioms) start ⟨rules, place queryType p slot k, queryType⟩
      ∧ Renames rules p q) (rules.flatMap fun rule => rule.2.body.map fun b => b.predicate)
  · rintro p q ⟨_, rule, hrule, -, b, hbody, rfl⟩
    refine List.mem_flatMap.mpr ⟨rule, hrule, List.mem_map_of_mem ?_⟩
    rw [hbody]
    exact List.mem_cons_self
  · intro p hcycle
    obtain ⟨_, ⟨hleads, _⟩, _⟩ := Relation.TransGen.head'_iff.mp hcycle
    have hrenames : Relation.TransGen (Renames rules) p p := hcycle.lift id fun _ _ h => h.2
    have hnot := (hserved _ hleads).acyclic
    dsimp only at hnot
    rw [place_predicate hnil] at hnot
    exact hnot hrenames

/-- The answers that a rule has for a predicate. -/
def RuleAnswer (x y z : String) (axioms : List Axiom) (queryType : PredicateType) (p k : String)
    (c : Axiom) (v : String) : Prop :=
  (∃ q, c = ⟨⟨p, x, y⟩, [⟨q, x, y⟩]⟩ ∧ Horn.Derives isVar axioms (place queryType q v k))
    ∨ ∃ q r, c = ⟨⟨p, x, y⟩, [⟨q, x, z⟩, ⟨r, z, y⟩]⟩
        ∧ ∃ m, Horn.Derives isVar axioms (place queryType (askedFirst queryType q r) m k)
          ∧ Horn.Derives isVar axioms (place queryType (askedSecond queryType q r) v m)

/-- A rule for another predicate has no answer. -/
theorem not_ruleAnswer {p k v : String} {c : Axiom} (h : c.head.predicate ≠ p) :
  ¬RuleAnswer x y z axioms queryType p k c v
  := by
  rintro (⟨q, rfl, -⟩ | ⟨q, r, rfl, -⟩)
  · exact h rfl
  · exact h rfl

theorem ruleAnswer_one {p k v q : String} :
  RuleAnswer x y z axioms queryType p k ⟨⟨p, x, y⟩, [⟨q, x, y⟩]⟩ v
    ↔ Horn.Derives isVar axioms (place queryType q v k)
  := by
  constructor
  · rintro (⟨_, hform, hderives⟩ | ⟨_, _, hform, _⟩)
    · cases hform
      exact hderives
    · cases hform
  · exact fun hderives => .inl ⟨q, rfl, hderives⟩

theorem ruleAnswer_two {p k v q r : String} :
  RuleAnswer x y z axioms queryType p k ⟨⟨p, x, y⟩, [⟨q, x, z⟩, ⟨r, z, y⟩]⟩ v
    ↔ ∃ m, Horn.Derives isVar axioms (place queryType (askedFirst queryType q r) m k)
      ∧ Horn.Derives isVar axioms (place queryType (askedSecond queryType q r) v m)
  := by
  constructor
  · rintro (⟨_, hform, _⟩ | ⟨_, _, hform, hderives⟩)
    · cases hform
    · cases hform
      exact hderives
  · exact fun hderives => .inr ⟨q, r, rfl, hderives⟩

/-- The rules answer for their predicate what the axioms do. -/
theorem exists_ruleAnswer_iff {rules : Rules} {p k v : String} (hrules : rules ⊆ rulesOf axioms)
    (hpresent : ∀ c ∈ axioms, c.body ≠ [] → c.head.predicate = p → ∃ i, (i, c) ∈ rules) :
  (∃ rule ∈ rules, RuleAnswer x y z axioms queryType p k rule.2 v)
    ↔ (∃ q, ⟨⟨p, x, y⟩, [⟨q, x, y⟩]⟩ ∈ axioms
        ∧ Horn.Derives isVar axioms (place queryType q v k))
      ∨ ∃ q r, ⟨⟨p, x, y⟩, [⟨q, x, z⟩, ⟨r, z, y⟩]⟩ ∈ axioms
        ∧ ∃ m, Horn.Derives isVar axioms (place queryType (askedFirst queryType q r) m k)
          ∧ Horn.Derives isVar axioms (place queryType (askedSecond queryType q r) v m)
  := by
  constructor
  · rintro ⟨rule, hrule, ⟨q, hform, hderives⟩ | ⟨q, r, hform, hderives⟩⟩
    · exact .inl ⟨q, hform ▸ (mem_rulesOf (hrules hrule)).1, hderives⟩
    · exact .inr ⟨q, r, hform ▸ (mem_rulesOf (hrules hrule)).1, hderives⟩
  · rintro (⟨q, hc, hderives⟩ | ⟨q, r, hc, hderives⟩)
    · obtain ⟨i, hi⟩ := hpresent _ hc (List.cons_ne_nil _ _) rfl
      exact ⟨_, hi, .inl ⟨q, rfl, hderives⟩⟩
    · obtain ⟨i, hi⟩ := hpresent _ hc (List.cons_ne_nil _ _) rfl
      exact ⟨_, hi, .inr ⟨q, r, rfl, hderives⟩⟩

/-- The query for the atom that is asked second. -/
theorem constructExtendedQuery_place (h : Chain x y z axioms) (hnil : queryType ≠ .nil)
    {p slot k : String} (hk : isConst k = true) (hslot : queryType = .one → slot = x)
    (q r item : String) :
  constructExtendedQuery (if queryType = .one then ⟨q, x, z⟩ else ⟨r, z, y⟩) item
      (place queryType p slot k).left
    = place queryType (askedSecond queryType q r) (if queryType = .one then x else y) item
  := by
  cases queryType with
  | one =>
      rw [if_pos rfl, if_pos rfl, constructExtendedQuery]
      exact if_pos (hslot rfl).symm
  | two =>
      have hne : z ≠ k := by
        rintro rfl
        exact not_isConst_of_isVar h.vars.2.2 hk
      rw [if_neg (by decide), if_neg (by decide), constructExtendedQuery]
      exact if_neg hne
  | nil => exact absurd rfl hnil

/-! ### Every depth -/

/-- The answers with enough fuel are the derivable ones. -/
theorem answers_place (h : Chain x y z axioms) (hacyclic : Acyclic axioms)
    (hnil : queryType ≠ .nil) (k : String) (hk : isConst k = true) (p slot : String) (rules : Rules)
    (hrules : rules ⊆ rulesOf axioms)
    (hserved : ∀ goal, Goal.LeadsTo (factsOf axioms) ⟨rules, place queryType p slot k, queryType⟩
      goal → goal.Served axioms x) :
  Answers (factsOf axioms) rules (place queryType p slot k) queryType fun v =>
    Horn.Derives isVar axioms (place queryType p v k)
  := by
  -- Induction on the known argument, on the number of rules, and on the predicate.
  induction k using (wellFounded_closer hacyclic queryType).induction generalizing p slot rules with
  | h k ihk =>
  induction hn : rules.length using Nat.strongRecOn generalizing p slot rules with
  | ind n ihn =>
  have hwf := wellFounded_called hnil hserved rules slot k
  suffices hall : ∀ p', Goal.LeadsTo (factsOf axioms) ⟨rules, place queryType p slot k, queryType⟩
      ⟨rules, place queryType p' slot k, queryType⟩ →
        Answers (factsOf axioms) rules (place queryType p' slot k) queryType fun v =>
          Horn.Derives isVar axioms (place queryType p' v k) from hall p .refl
  intro p hleads
  induction p using hwf.induction with
  | h p ihp =>
  have hgoal := hserved _ hleads
  have hadds : ∀ rule ∈ rules, Adds (factsOf axioms) rules (place queryType p slot k) queryType rule
      (RuleAnswer x y z axioms queryType p k rule.2) := by
    rintro ⟨place', c⟩ hrule
    obtain ⟨hc, hbody⟩ := mem_rulesOf (hrules hrule)
    by_cases hp : c.head.predicate = p
    swap
    · refine (adds_other ?_).congr fun v => iff_of_false id (not_ruleAnswer hp)
      rwa [place_predicate hnil]
    subst hp
    have hpredicate := (place_predicate hnil c.head.predicate slot k).symm
    cases h.forms c hc with
    | fact => exact absurd rfl hbody
    | one p q =>
        have hcalls : Goal.Calls (factsOf axioms) ⟨rules, place queryType p slot k, queryType⟩
            (Goal.single _ ⟨q, x, y⟩) := .single hrule hpredicate rfl
        dsimp only [Goal.single] at hcalls
        rw [place_body hnil p q] at hcalls
        have hanswers := ihp q ⟨hleads, _, hrule, rfl, _, rfl, rfl⟩ (hleads.tail hcalls)
        rw [← place_body hnil p q] at hanswers
        exact (adds_one hpredicate rfl hanswers).congr fun v => ruleAnswer_one.symm
    | two p q r =>
        have hconstruct := constructSubquery_place h.ne hnil p q r slot k
        have hjoins : Goal.Joins ⟨rules, place queryType p slot k, queryType⟩
            (place', ⟨⟨p, x, y⟩, [⟨q, x, z⟩, ⟨r, z, y⟩]⟩) _ :=
          ⟨hrule, hpredicate, _, _, rfl, hconstruct⟩
        have hlt : (rules.filter fun other => other.1 ≠ place').length < n := by
          rw [← hn]
          refine List.length_filter_lt_length_iff_exists.mpr ⟨_, hrule, ?_⟩
          exact fun h => of_decide_eq_true h rfl
        have hanswersFirst := ihn _ hlt (askedFirst queryType q r) z _
          (List.Subset.trans List.filter_sublist.subset hrules)
          (fun goal hgoal => hserved goal (hleads.trans (.head (.first hjoins) hgoal))) rfl
        have hanswersSecond : ∀ item,
            Horn.Derives isVar axioms (place queryType (askedFirst queryType q r) item k) →
              Answers (factsOf axioms) rules
                (constructExtendedQuery (if queryType = .one then ⟨q, x, z⟩ else ⟨r, z, y⟩) item
                  (place queryType p slot k).left) queryType fun v =>
                Horn.Derives isVar axioms (place queryType (askedSecond queryType q r) v item) := by
          intro item hitem
          obtain ⟨fuel, result, hresult, hmem⟩ := hanswersFirst
          have hreturns : (Goal.first ⟨rules, place queryType p slot k, queryType⟩
              (place', ⟨⟨p, x, y⟩, [⟨q, x, z⟩, ⟨r, z, y⟩]⟩)
              (place queryType (askedFirst queryType q r) z k,
                if queryType = .one then ⟨q, x, z⟩ else ⟨r, z, y⟩, queryType)).Returns
              (factsOf axioms) item := ⟨fuel, result, hresult, (hmem item).mpr hitem⟩
          have hslot : queryType = .one → slot = x := by
            rintro rfl
            exact hgoal.joined rfl _ _ item hjoins hreturns
          have hcalls := Goal.Calls.second hjoins hreturns
          obtain ⟨hcloser, hconst⟩ := closer_of_derives h hnil hitem
          dsimp only [Goal.second] at hcalls
          rw [constructExtendedQuery_place h hnil hk hslot] at hcalls ⊢
          exact ihk item hcloser hconst _ _ rules hrules
            fun goal hgoal => hserved goal (hleads.trans (.head hcalls hgoal))
        exact (adds_two hpredicate rfl hconstruct hanswersFirst hanswersSecond).congr
          fun v => ruleAnswer_two.symm
  have hpresent : ∀ c ∈ axioms, c.body ≠ [] → c.head.predicate = p → ∃ i, (i, c) ∈ rules :=
    fun c hc hbody hp => hgoal.present c hc hbody (hp.trans (place_predicate hnil p slot k).symm)
  refine (answers_of_adds hnil hadds).congr fun v => ?_
  rw [answer_place hnil, place_derives_iff h hnil, exists_ruleAnswer_iff hrules hpresent]

/-! ### Queries -/

/-- More fuel gives the same answers to a query with one variable. -/
theorem prologProve_unique {query : Exp} (hquery : OneVariable query) {fuel fuel' : Nat}
    {answers answers' : List Answer} (h : prologProve fuel axioms [query] = some answers)
    (h' : prologProve fuel' axioms [query] = some answers') :
  answers = answers'
  := by
  rw [prologProve_singleton, processQuery_oneVariable hquery, Option.bind_eq_some_iff] at h h'
  obtain ⟨c, hc, h⟩ := h
  obtain ⟨c', hc', h'⟩ := h'
  rw [hc, Option.some.injEq] at hc'
  subst hc'
  split at h
  · rename_i hlower
    rw [if_pos hlower] at h'
    obtain ⟨result, hresult, rfl⟩ := Option.map_eq_some_iff.mp h
    obtain ⟨result', hresult', rfl⟩ := Option.map_eq_some_iff.mp h'
    have hmax := resolveSubqueries_mono (Nat.le_max_left fuel fuel') hresult
    rw [resolveSubqueries_mono (Nat.le_max_right fuel fuel') hresult', Option.some.injEq] at hmax
    rw [hmax]
  · rename_i hupper
    rw [if_neg hupper] at h'
    exact Option.some.inj (h.symm.trans h')

/-- All answers are found if every call that the query leads to has what it needs. -/
theorem prologProve_complete (h : Chain x y z axioms) (hacyclic : Acyclic axioms) {query : Exp}
    (hquery : query.left = x ∧ isConst query.right = true
      ∨ isConst query.left = true ∧ query.right = y)
    (hpredicate : isConst query.predicate = true)
    (hserved : ∀ goal, Goal.LeadsTo (factsOf axioms) (startGoal axioms query) goal →
      goal.Served axioms x) :
  ∃ fuel answers, prologProve fuel axioms [query] = some answers
    ∧ ∀ v, isVar v = false →
        Horn.Consequence isVar axioms (answer query v (typeOf query)) → .value v ∈ answers
  := by
  obtain ⟨c, hc, hlower⟩ := firstChar_of_isConst hpredicate
  have hone : OneVariable query := by
    rcases hquery with ⟨hleft, hright⟩ | ⟨hleft, hright⟩
    · exact .inl ⟨hleft ▸ h.vars.1, hright⟩
    · exact .inr ⟨hleft, hright ▸ h.vars.2.1⟩
  have hanswers : ∃ k, isConst k = true ∧ typeOf query ≠ .nil
      ∧ (∀ v, answer query v (typeOf query) = place (typeOf query) query.predicate v k)
      ∧ Answers (factsOf axioms) (rulesOf axioms) query (typeOf query) fun v =>
        Horn.Derives isVar axioms (place (typeOf query) query.predicate v k) := by
    obtain ⟨p, s, t⟩ := query
    rcases hquery with ⟨rfl, hright⟩ | ⟨hleft, rfl⟩
    · have htype : typeOf ⟨p, s, t⟩ = .one := if_pos h.vars.1
      rw [startGoal, htype] at hserved
      rw [htype]
      have hanswers := answers_place h hacyclic (by decide : PredicateType.one ≠ .nil) t hright p s
        _ (List.Subset.refl _) hserved
      exact ⟨t, hright, by decide, fun v => rfl, hanswers⟩
    · have htype : typeOf ⟨p, s, t⟩ = .two :=
        if_neg (by rw [isVar_of_isConst hleft]; exact Bool.false_ne_true)
      rw [startGoal, htype] at hserved
      rw [htype]
      have hanswers := answers_place h hacyclic (by decide : PredicateType.two ≠ .nil) s hleft p t
        _ (List.Subset.refl _) hserved
      exact ⟨s, hleft, by decide, fun v => rfl, hanswers⟩
  obtain ⟨k, hk, hnil, hplace, fuel, result, hresult, hmem⟩ := hanswers
  refine ⟨fuel, result.map .value, ?_, fun v hv hconsequence => ?_⟩
  · rw [prologProve_singleton, processQuery_oneVariable hone, hc, Option.bind_some,
      if_pos (toLower_of_isLower hlower).symm, hresult, Option.map_some]
  · rw [hplace] at hconsequence
    apply List.mem_map_of_mem
    rw [hmem]
    cases htype : typeOf query with
    | one =>
        rw [htype] at hconsequence
        exact (Horn.consequence_iff hv (isVar_of_isConst hk)).mp hconsequence
    | two =>
        rw [htype] at hconsequence
        exact (Horn.consequence_iff (isVar_of_isConst hk) hv).mp hconsequence
    | nil => exact absurd htype hnil

end

/-! ### The demo -/

/-- The axioms of `HW4_demo.LISP`. -/
def demoAxioms : List Axiom :=
  [⟨⟨"father", "jim", "jill"⟩, []⟩, ⟨⟨"mother", "anna", "jill"⟩, []⟩,
    ⟨⟨"father", "sam", "jim"⟩, []⟩, ⟨⟨"mother", "lisa", "anna"⟩, []⟩,
    ⟨⟨"father", "john", "sam"⟩, []⟩, ⟨⟨"parent", "X", "Y"⟩, [⟨"father", "X", "Y"⟩]⟩,
    ⟨⟨"parent", "X", "Y"⟩, [⟨"mother", "X", "Y"⟩]⟩,
    ⟨⟨"ancestor", "X", "Y"⟩, [⟨"parent", "X", "Y"⟩]⟩,
    ⟨⟨"ancestor", "X", "Y"⟩, [⟨"parent", "X", "Z"⟩, ⟨"ancestor", "Z", "Y"⟩]⟩]

theorem chain_demoAxioms :
  Chain "X" "Y" "Z" demoAxioms
  where
  vars := by decide
  ne := by decide
  forms c hc := by
    simp only [demoAxioms, List.mem_cons, List.not_mem_nil, or_false] at hc
    rcases hc with rfl | rfl | rfl | rfl | rfl | rfl | rfl | rfl | rfl
    · exact .fact (by decide) (by decide)
    · exact .fact (by decide) (by decide)
    · exact .fact (by decide) (by decide)
    · exact .fact (by decide) (by decide)
    · exact .fact (by decide) (by decide)
    · exact .one _ _
    · exact .one _ _
    · exact .one _ _
    · exact .two _ _ _

/-- The generations of the demo. -/
def generation (s : String) : Nat :=
  ["jill", "jim", "sam", "john"].idxOf s % 4 + ["jill", "anna", "lisa"].idxOf s % 3

theorem acyclic_demoAxioms :
  Acyclic demoAxioms
  := by
  have hedge : ∀ s t, Edge demoAxioms s t → generation t < generation s := by
    rintro s t ⟨p, hfact⟩
    have hall : ∀ a ∈ factsOf demoAxioms, generation a.right < generation a.left := by decide
    exact hall _ hfact
  exact not_transGen_self generation hedge

/-- The parents need the facts, and the ancestors need the parents. -/
def level (p : String) : Nat := ["father", "parent", "ancestor"].idxOf p % 3

theorem acyclic_renames {rules : Rules} (hrules : rules ⊆ rulesOf demoAxioms) (p : String) :
  ¬ Relation.TransGen (Renames rules) p p
  := by
  apply not_transGen_self level
  rintro p q ⟨rule, hrule, rfl, b, hbody, rfl⟩
  have hall : ∀ rule ∈ rulesOf demoAxioms, rule.2.body.length = 1 →
      ∀ b ∈ rule.2.body, level b.predicate < level rule.2.head.predicate := by decide
  exact hall rule (hrules hrule) (by rw [hbody]; rfl) b (by rw [hbody]; exact List.mem_cons_self)

/-- The calls for descendants: only the parents are asked without the rule for ancestors. -/
inductive Descending : Goal → Prop where
  | all (query : Exp) : Descending ⟨rulesOf demoAxioms, query, .two⟩
  | removed (query : Exp) (h : query.predicate ≠ "ancestor") :
      Descending ⟨(rulesOf demoAxioms).filter fun other => other.1 ≠ 8, query, .two⟩

theorem Descending.of_calls {goal goal' : Goal} (h : Descending goal)
    (hcalls : Goal.Calls (factsOf demoAxioms) goal goal') :
  Descending goal'
  := by
  have htwo : ∀ {rule : Nat × Axiom} {e : Exp × Exp × PredicateType}, goal.Joins rule e →
      goal.rules = rulesOf demoAxioms ∧ rule.1 = 8 ∧ e.1.predicate = "parent" ∧ e.2.2 = .two := by
    rintro rule e ⟨hrule, hpredicate, b₁, b₂, hbody, hconstruct⟩
    have hall : ∀ rule ∈ rulesOf demoAxioms, rule.2.body.length = 2 →
        rule = (8, ⟨⟨"ancestor", "X", "Y"⟩, [⟨"parent", "X", "Z"⟩, ⟨"ancestor", "Z", "Y"⟩]⟩) := by
      decide
    cases h with
    | all query =>
        obtain rfl := hall rule hrule (by rw [hbody]; rfl)
        cases hbody
        cases hconstruct
        exact ⟨rfl, rfl, rfl, rfl⟩
    | removed query hquery =>
        have hmem := List.mem_filter.mp hrule
        obtain rfl := hall rule hmem.1 (by rw [hbody]; rfl)
        exact absurd rfl (of_decide_eq_true hmem.2)
  cases hcalls with
  | @single rule b hrule hpredicate hbody =>
      cases h with
      | all query => exact .all _
      | removed query hquery =>
          apply Descending.removed
          have hall : ∀ rule ∈ rulesOf demoAxioms, rule.2.head.predicate ≠ "ancestor" →
              ∀ b ∈ rule.2.body, b.predicate ≠ "ancestor" := by decide
          exact hall rule (List.mem_filter.mp hrule).1 (hpredicate ▸ hquery) b
            (by rw [hbody]; exact List.mem_cons_self)
  | @first rule e hjoins =>
      obtain ⟨hrules, hplace, hparent, htype⟩ := htwo hjoins
      rw [Goal.first, hrules, hplace, htype]
      exact .removed _ (by rw [hparent]; decide)
  | @second rule e item hjoins hitem =>
      obtain ⟨hrules, -, -, htype⟩ := htwo hjoins
      rw [Goal.second, hrules, htype]
      exact .all _

theorem Descending.served {goal : Goal} (h : Descending goal) : goal.Served demoAxioms "X"
  := by
  cases h with
  | all query =>
      have hall : ∀ c ∈ demoAxioms, c.body ≠ [] → c ∈ (rulesOf demoAxioms).map Prod.snd := by decide
      refine ⟨fun c hc hbody _ => ?_, acyclic_renames (List.Subset.refl _) _, by rintro ⟨⟩⟩
      obtain ⟨⟨i, c⟩, hrule, rfl⟩ := List.mem_map.mp (hall c hc hbody)
      exact ⟨i, hrule⟩
  | removed query hquery =>
      have hall : ∀ c ∈ demoAxioms, c.body ≠ [] → c.head.predicate ≠ "ancestor" →
          c ∈ ((rulesOf demoAxioms).filter fun other => other.1 ≠ 8).map Prod.snd := by decide
      have hsubset : ((rulesOf demoAxioms).filter fun other => other.1 ≠ 8) ⊆ rulesOf demoAxioms :=
        List.filter_sublist.subset
      refine ⟨fun c hc hbody hpredicate => ?_, acyclic_renames hsubset _, by rintro ⟨⟩⟩
      obtain ⟨⟨i, c⟩, hrule, rfl⟩ := List.mem_map.mp (hall c hc hbody (hpredicate ▸ hquery))
      exact ⟨i, hrule⟩

theorem served_demoAxioms {goal : Goal} (h : Goal.LeadsTo (factsOf demoAxioms)
    (startGoal demoAxioms ⟨"ancestor", "john", "Y"⟩) goal) :
  goal.Served demoAxioms "X"
  := by
  have hstart : Descending (startGoal demoAxioms ⟨"ancestor", "john", "Y"⟩) := .all _
  have hgoal : Descending goal := by
    induction h with
    | refl => exact hstart
    | tail _ hcalls ih => exact ih.of_calls hcalls
  exact hgoal.served

theorem derives_demoAxioms :
  Horn.Derives isVar demoAxioms ⟨"ancestor", "john", "jill"⟩
  := by
  have hfact := fun p s t => (derives_iff (p := p) (s := s) (t := t) chain_demoAxioms).mpr
  have hparent : ∀ s t, ⟨"father", s, t⟩ ∈ factsOf demoAxioms →
      Horn.Derives isVar demoAxioms ⟨"parent", s, t⟩ := fun s t h =>
    hfact "parent" s t (.inr (.inl ⟨"father", by decide, hfact "father" s t (.inl h)⟩))
  have hjim := hfact "ancestor" "jim" "jill"
    (.inr (.inl ⟨"parent", by decide, hparent "jim" "jill" (by decide)⟩))
  have hsam := hfact "ancestor" "sam" "jill" (.inr (.inr ⟨"parent", "ancestor", by decide, "jim",
    hparent "sam" "jim" (by decide), hjim⟩))
  exact hfact "ancestor" "john" "jill" (.inr (.inr ⟨"parent", "ancestor", by decide, "sam",
    hparent "john" "sam" (by decide), hsam⟩))

/-- The descendants of John are all found. -/
theorem prologProve_complete_demo :
  ∃ fuel answers, prologProve fuel demoAxioms [⟨"ancestor", "john", "Y"⟩] = some answers
    ∧ .value "jill" ∈ answers
  := by
  have hquery : ("john" = "X" ∧ isConst "Y" = true) ∨ (isConst "john" = true ∧ "Y" = "Y") :=
    .inr ⟨by decide, rfl⟩
  have hpredicate : isConst (⟨"ancestor", "john", "Y"⟩ : Exp).predicate = true := by decide
  obtain ⟨fuel, answers, hanswers, hall⟩ := prologProve_complete chain_demoAxioms
    acyclic_demoAxioms hquery hpredicate fun goal hleads => served_demoAxioms hleads
  refine ⟨fuel, answers, hanswers, hall "jill" (by decide) ?_⟩
  exact (Horn.consequence_iff (by decide) (by decide)).mpr derives_demoAxioms

/-- John is an ancestor of Jill that is not found, although the demo expects him. -/
theorem prologProve_demo :
  Chain "X" "Y" "Z" demoAxioms ∧ Acyclic demoAxioms
    ∧ Horn.Consequence isVar demoAxioms ⟨"ancestor", "john", "jill"⟩
    ∧ ∀ fuel answers, prologProve fuel demoAxioms [⟨"ancestor", "X", "jill"⟩] = some answers →
        answers = [.value "jim", .value "anna", .value "sam", .value "lisa"]
  := by
  refine ⟨chain_demoAxioms, acyclic_demoAxioms, ?_, fun fuel answers h => ?_⟩
  · exact (Horn.consequence_iff (by decide) (by decide)).mpr derives_demoAxioms
  · have hdemo : prologProve 4 demoAxioms [⟨"ancestor", "X", "jill"⟩]
        = some [.value "jim", .value "anna", .value "sam", .value "lisa"] := by decide
    exact prologProve_unique (.inl ⟨by decide, by decide⟩) h hdemo

end Prolog
