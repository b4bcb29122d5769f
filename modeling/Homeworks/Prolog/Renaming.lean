import Homeworks.Prolog.Termination

/-!
# Other names for the variables

The variables of the query and those of each rule get other names.  The resolver compares the
variable of an atom of a rule with an argument of the query, whose name comes from somewhere else.
-/

namespace Prolog

/-! ### Renaming -/

/-- Different names for the variables; the constants stay. -/
structure Renaming (σ : String → String) : Prop where
  var : ∀ s, isVar s = true → isVar (σ s) = true
  injective : ∀ s t, isVar s = true → isVar t = true → σ s = σ t → s = t

def renameAxiom (σ : String → String) (c : Axiom) : Axiom :=
  if c.body.isEmpty then c else ⟨c.head.subst isVar σ, c.body.map fun b => b.subst isVar σ⟩

/-- Each rule has its own renaming, which is the one for its place. -/
def renameRule (ρ : Nat → String → String) (rule : Nat × Axiom) : Nat × Axiom :=
  (rule.1, renameAxiom (ρ rule.1) rule.2)

def renameAxioms (ρ : Nat → String → String) (axioms : List Axiom) : List Axiom :=
  axioms.zipIdx.map fun e => renameAxiom (ρ e.2) e.1

section

variable {σ : String → String} {ρ : Nat → String → String} {facts : List Exp}

theorem Renaming.subst_inj (hσ : Renaming σ) {s t : String} :
  Horn.subst isVar σ s = Horn.subst isVar σ t ↔ s = t
  := by
  refine ⟨fun h => ?_, congrArg _⟩
  cases hs : isVar s with
  | true =>
      rw [subst_of_isVar hs] at h
      cases ht : isVar t with
      | true =>
          rw [subst_of_isVar ht] at h
          exact hσ.injective s t hs ht h
      | false =>
          rw [Horn.subst, if_neg (by rw [ht]; decide)] at h
          rw [← h, hσ.var s hs] at ht
          cases ht
  | false =>
      rw [Horn.subst, if_neg (by rw [hs]; decide)] at h
      cases ht : isVar t with
      | true =>
          rw [subst_of_isVar ht] at h
          rw [h, hσ.var t ht] at hs
          cases hs
      | false => rwa [Horn.subst, if_neg (by rw [ht]; decide)] at h

theorem renameAxiom_predicate (σ : String → String) (c : Axiom) :
  (renameAxiom σ c).head.predicate = c.head.predicate
  := by
  rw [renameAxiom]
  split <;> rfl

theorem renameAxiom_eq {c : Axiom} (h : c.body ≠ []) :
  renameAxiom σ c = ⟨c.head.subst isVar σ, c.body.map fun b => b.subst isVar σ⟩
  := if_neg (by simpa using h)

theorem renameAxiom_of_nil {c : Axiom} (h : c.body = []) :
  renameAxiom σ c = c
  := if_pos (by rw [h]; rfl)

theorem renameAxiom_isEmpty (σ : String → String) (c : Axiom) :
  (renameAxiom σ c).body.isEmpty = c.body.isEmpty
  := by
  by_cases h : c.body = []
  · rw [renameAxiom_of_nil h]
  · rw [renameAxiom_eq h, List.isEmpty_map]

theorem factsOf_renameAxioms (ρ : Nat → String → String) (axioms : List Axiom) :
  factsOf (renameAxioms ρ axioms) = factsOf axioms
  := by
  have hfrom : ∀ n, (((axioms.zipIdx n).map fun e => renameAxiom (ρ e.2) e.1).filter
      fun c => c.body.isEmpty).map (fun c => c.head)
      = (axioms.filter fun c => c.body.isEmpty).map fun c => c.head := by
    induction axioms with
    | nil => exact fun _ => rfl
    | cons c axioms ih =>
        intro n
        rw [List.zipIdx_cons, List.map_cons, List.filter_cons, List.filter_cons,
          renameAxiom_isEmpty]
        split
        · rename_i hempty
          rw [List.map_cons, List.map_cons, ih, renameAxiom_of_nil (by simpa using hempty)]
        · exact ih (n + 1)
  exact hfrom 0

theorem rulesOf_renameAxioms (ρ : Nat → String → String) (axioms : List Axiom) :
  rulesOf (renameAxioms ρ axioms) = (rulesOf axioms).map (renameRule ρ)
  := by
  have hfrom : ∀ n, ((((axioms.zipIdx n).map fun e => renameAxiom (ρ e.2) e.1).zipIdx n).map
      fun e => (e.2, e.1)).filter (fun rule => !rule.2.body.isEmpty)
      = (((axioms.zipIdx n).map fun e => (e.2, e.1)).filter
          fun rule => !rule.2.body.isEmpty).map (renameRule ρ) := by
    induction axioms with
    | nil => exact fun _ => rfl
    | cons c axioms ih =>
        intro n
        simp only [List.zipIdx_cons, List.map_cons, List.filter_cons, renameAxiom_isEmpty, ih]
        split <;> rfl
  exact hfrom 0

/-! ### The two runs -/

/-- A call of both runs: the query before and after the renaming. -/
structure Call where
  rules : Rules
  query : Exp
  query' : Exp
  queryType : PredicateType

/-- A call uses a rule with two atoms; what is constructed in both runs. -/
structure Splits (ρ : Nat → String → String) (call : Call) (rule : Nat × Axiom)
    (e e' : Exp × Exp × PredicateType) : Prop where
  mem : rule ∈ call.rules
  predicate : rule.2.head.predicate = call.query.predicate
  body : ∃ b₁ b₂, rule.2.body = [b₁, b₂]
    ∧ constructSubquery rule.2.head b₁ b₂ call.query call.queryType = some e
    ∧ constructSubquery (rule.2.head.subst isVar (ρ rule.1)) (b₁.subst isVar (ρ rule.1))
        (b₂.subst isVar (ρ rule.1)) call.query' call.queryType = some e'

/-- The query for the atom that is asked first, without the rule. -/
def Call.first (call : Call) (rule : Nat × Axiom) (e e' : Exp × Exp × PredicateType) : Call :=
  ⟨call.rules.filter fun other => other.1 ≠ rule.1, e.1, e'.1, e.2.2⟩

/-- An answer to the atom that is asked first. -/
def Call.Answered (facts : List Exp) (call : Call) (rule : Nat × Axiom)
    (e : Exp × Exp × PredicateType) (item : String) : Prop :=
  ∃ fuel items, resolveSubqueries fuel facts (call.rules.filter fun other => other.1 ≠ rule.1) e.1
    e.2.2 = some items ∧ item ∈ items

/-- The query for the atom that is asked second. -/
def Call.second (call : Call) (e e' : Exp × Exp × PredicateType) (item : String) : Call :=
  ⟨call.rules, constructExtendedQuery e.2.1 item call.query.left,
    constructExtendedQuery e'.2.1 item call.query'.left, e.2.2⟩

/-- The calls that a call makes. -/
inductive Makes (facts : List Exp) (ρ : Nat → String → String) : Call → Call → Prop where
  | one {call : Call} {rule : Nat × Axiom} {b : Exp} (hrule : rule ∈ call.rules)
      (hpredicate : rule.2.head.predicate = call.query.predicate) (hbody : rule.2.body = [b]) :
      Makes facts ρ call ⟨call.rules, ⟨b.predicate, call.query.left, call.query.right⟩,
        ⟨b.predicate, call.query'.left, call.query'.right⟩, call.queryType⟩
  | first {call : Call} {rule : Nat × Axiom} {e e' : Exp × Exp × PredicateType}
      (h : Splits ρ call rule e e') : Makes facts ρ call (call.first rule e e')
  | second {call : Call} {rule : Nat × Axiom} {e e' : Exp × Exp × PredicateType} {item : String}
      (h : Splits ρ call rule e e') (hitem : call.Answered facts rule e item) :
      Makes facts ρ call (call.second e e' item)

/-- The argument of an atom that a type knows. -/
def known : PredicateType → Exp → String
  | .one, a => a.right
  | .two, a => a.left
  | .nil, _ => "NIL"

/-- The comparisons of a call have the same outcomes in both runs. -/
structure Keeps (facts : List Exp) (ρ : Nat → String → String) (call : Call) : Prop where
  known : ∀ fact ∈ facts, fact.predicate = call.query.predicate →
    (known call.queryType fact = known call.queryType call.query
      ↔ known call.queryType fact = known call.queryType call.query')
  joined : ∀ rule e e', Splits ρ call rule e e' → ∀ item, call.Answered facts rule e item →
    (e.2.1.left = call.query.left ↔ e'.2.1.left = call.query'.left)

/-! ### Simulation -/

theorem findMatchingFacts_congr {query query' : Exp} {queryType : PredicateType}
    (hpredicate : query'.predicate = query.predicate)
    (h : ∀ fact ∈ facts, fact.predicate = query.predicate →
      (known queryType fact = known queryType query
        ↔ known queryType fact = known queryType query')) :
  findMatchingFacts facts query' queryType = findMatchingFacts facts query queryType
  := by
  induction facts with
  | nil => rw [findMatchingFacts, findMatchingFacts]
  | cons fact rest ih =>
      have hrest := ih fun fact hfact => h fact (List.mem_cons_of_mem _ hfact)
      have hfact := h fact List.mem_cons_self
      cases queryType with
      | one =>
          have hiff : (fact.predicate = query'.predicate ∧ fact.right = query'.right)
              ↔ fact.predicate = query.predicate ∧ fact.right = query.right := by
            rw [hpredicate]
            exact and_congr_right fun hp => (hfact hp).symm
          rw [findMatchingFacts, findMatchingFacts, hrest]
          simp only [hiff]
      | two =>
          have hiff : (fact.predicate = query'.predicate ∧ fact.left = query'.left)
              ↔ fact.predicate = query.predicate ∧ fact.left = query.left := by
            rw [hpredicate]
            exact and_congr_right fun hp => (hfact hp).symm
          rw [findMatchingFacts, findMatchingFacts, hrest]
          simp only [hiff]
      | nil => rw [findMatchingFacts, findMatchingFacts]

/-- The same atom is asked first. -/
theorem subqueryLoop_rename (hσ : Renaming σ) (var2 : String) (query query' : Exp)
    (l : List (Exp × Exp)) :
  (subqueryLoop (Horn.subst isVar σ var2) query'
      (l.map fun e => (e.1.subst isVar σ, e.2.subst isVar σ))).map
        (fun e => (e.1.predicate, e.2.1.predicate, e.2.2))
    = (subqueryLoop var2 query l).map fun e => (e.1.predicate, e.2.1.predicate, e.2.2)
  := by
  induction l with
  | nil => rfl
  | cons e l ih =>
      obtain ⟨b, other⟩ := e
      have hleft : (b.subst isVar σ).left = Horn.subst isVar σ var2 ↔ b.left = var2 := hσ.subst_inj
      have hright : (b.subst isVar σ).right = Horn.subst isVar σ var2 ↔ b.right = var2 :=
        hσ.subst_inj
      rw [List.map_cons, subqueryLoop, subqueryLoop]
      by_cases hb : b.left = var2
      · rw [if_pos (hleft.mpr hb), if_pos hb]
        rfl
      · rw [if_neg (mt hleft.mp hb), if_neg hb]
        by_cases hb' : b.right = var2
        · rw [if_pos (hright.mpr hb'), if_pos hb']
          rfl
        · rw [if_neg (mt hright.mp hb'), if_neg hb']
          exact ih

theorem constructSubquery_rename (hσ : Renaming σ) (head b₁ b₂ query query' : Exp)
    (queryType : PredicateType) :
  (constructSubquery (head.subst isVar σ) (b₁.subst isVar σ) (b₂.subst isVar σ) query'
    queryType).map
      (fun e => (e.1.predicate, e.2.1.predicate, e.2.2))
    = (constructSubquery head b₁ b₂ query queryType).map
        fun e => (e.1.predicate, e.2.1.predicate, e.2.2)
  := by
  have hgetD : ∀ loop loop' : Option (Exp × Exp × PredicateType),
      loop'.map (fun e => (e.1.predicate, e.2.1.predicate, e.2.2))
          = loop.map (fun e => (e.1.predicate, e.2.1.predicate, e.2.2)) →
        (some (loop'.getD (nilExp, nilExp, .nil))).map
            (fun e => (e.1.predicate, e.2.1.predicate, e.2.2))
          = (some (loop.getD (nilExp, nilExp, .nil))).map
              fun e => (e.1.predicate, e.2.1.predicate, e.2.2) := by
    rintro (_ | e) (_ | e') h
    · rfl
    · cases h
    · cases h
    · exact h
  cases queryType with
  | one => exact hgetD _ _ (subqueryLoop_rename hσ head.right query query' [(b₁, b₂), (b₂, b₁)])
  | two => exact hgetD _ _ (subqueryLoop_rename hσ head.left query query' [(b₁, b₂), (b₂, b₁)])
  | nil => rfl

theorem foldlM_congr {β : Type} {f g : List String → β → Option (List String)} {l : List β}
    (h : ∀ b ∈ l, ∀ acc, f acc b = g acc b) (init : List String) :
  l.foldlM f init = l.foldlM g init
  := by
  induction l generalizing init with
  | nil => rfl
  | cons b l ih =>
      rw [List.foldlM_cons, List.foldlM_cons, h b List.mem_cons_self]
      congr 1
      funext acc
      exact ih (fun b' hb' => h b' (List.mem_cons_of_mem _ hb')) acc

theorem filter_renameRule (ρ : Nat → String → String) (rules : Rules) (i : Nat) :
  (rules.map (renameRule ρ)).filter (fun other => other.1 ≠ i)
    = (rules.filter fun other => other.1 ≠ i).map (renameRule ρ)
  := List.filter_map

/-- Both queries of a call are for the same predicate. -/
def Call.Same (call : Call) : Prop := call.query'.predicate = call.query.predicate

theorem constructExtendedQuery_predicate (rule : Exp) (subquery var : String) :
  (constructExtendedQuery rule subquery var).predicate = rule.predicate
  := by
  rw [constructExtendedQuery]
  split <;> rfl

/-- A rule does the same in both runs if the calls that it makes do. -/
theorem resolveRule_rename {fuel : Nat} {call : Call} {rule : Nat × Axiom}
    (hρ : Renaming (ρ rule.1))
    (hrule : rule ∈ call.rules) (hsame : call.Same)
    (hcalls : ∀ call', Makes facts ρ call call' → call'.Same →
      resolveSubqueries fuel facts (call'.rules.map (renameRule ρ)) call'.query' call'.queryType
        = resolveSubqueries fuel facts call'.rules call'.query call'.queryType)
    (acc : List String) :
  resolveRule (resolveSubqueries fuel facts) (call.rules.map (renameRule ρ)) call.query'
      call.queryType acc (renameRule ρ rule)
    = resolveRule (resolveSubqueries fuel facts) call.rules call.query call.queryType acc rule
  := by
  rw [resolveRule, resolveRule, renameRule, renameAxiom_predicate, hsame]
  by_cases hpredicate : rule.2.head.predicate = call.query.predicate
  · rw [if_pos hpredicate, if_pos hpredicate]
    rcases hbody : rule.2.body with _ | ⟨b₁, _ | ⟨b₂, _ | ⟨b₃, bs⟩⟩⟩
    · rw [renameAxiom_of_nil hbody, hbody]
    · rw [renameAxiom_eq (by rw [hbody]; exact List.cons_ne_nil _ _), hbody]
      exact congrArg (Option.map _) (hcalls _ (.one hrule hpredicate hbody) rfl)
    · rw [renameAxiom_eq (by rw [hbody]; exact List.cons_ne_nil _ _), hbody]
      rw [List.map_cons, List.map_cons, List.map_nil]
      dsimp only
      have hshape := constructSubquery_rename hρ rule.2.head b₁ b₂ call.query call.query'
        call.queryType
      cases he : constructSubquery rule.2.head b₁ b₂ call.query call.queryType with
      | none =>
          rw [he, Option.map_none, Option.map_eq_none_iff] at hshape
          rw [hshape]
          rfl
      | some e =>
          rw [he, Option.map_some, Option.map_eq_some_iff] at hshape
          obtain ⟨e', he', hshape⟩ := hshape
          obtain ⟨hfirst, hother, htype⟩ : e'.1.predicate = e.1.predicate
              ∧ e'.2.1.predicate = e.2.1.predicate ∧ e'.2.2 = e.2.2 := by simpa using hshape
          have hsplits : Splits ρ call rule e e' := ⟨hrule, hpredicate, b₁, b₂, hbody, he, he'⟩
          rw [he', Option.bind_eq_bind, Option.bind_eq_bind, Option.bind_some, Option.bind_some,
            filter_renameRule, htype]
          have hsubqueries := hcalls _ (.first hsplits) hfirst
          dsimp only [Call.first] at hsubqueries
          rw [hsubqueries]
          cases hitems : resolveSubqueries fuel facts
              (call.rules.filter fun other => other.1 ≠ rule.1) e.1 e.2.2 with
          | none => rfl
          | some items =>
              rw [Option.bind_some, Option.bind_some]
              refine foldlM_congr (fun item hitem acc => ?_) acc
              have hanswered : call.Answered facts rule e item := ⟨fuel, items, hitems, hitem⟩
              refine congrArg (Option.map _) (hcalls _ (.second hsplits hanswered) ?_)
              exact (constructExtendedQuery_predicate _ _ _).trans
                (hother.trans (constructExtendedQuery_predicate _ _ _).symm)
    · rw [renameAxiom_eq (by rw [hbody]; exact List.cons_ne_nil _ _), hbody]
      rfl
  · rw [if_neg hpredicate, if_neg hpredicate]

/-- The calls that a call leads to. -/
def LeadsTo (facts : List Exp) (ρ : Nat → String → String) : Call → Call → Prop :=
  Relation.ReflTransGen (Makes facts ρ)

/-- Both runs return the same if all comparisons have the same outcomes. -/
theorem resolveSubqueries_rename (hρ : ∀ i, Renaming (ρ i)) (fuel : Nat) (call : Call)
    (hsame : call.Same) (hkeeps : ∀ call', LeadsTo facts ρ call call' → Keeps facts ρ call') :
  resolveSubqueries fuel facts (call.rules.map (renameRule ρ)) call.query' call.queryType
    = resolveSubqueries fuel facts call.rules call.query call.queryType
  := by
  induction fuel generalizing call with
  | zero => rfl
  | succ fuel ih =>
      rw [resolveSubqueries, resolveSubqueries,
        findMatchingFacts_congr hsame (hkeeps call .refl).known]
      cases findMatchingFacts facts call.query call.queryType with
      | none => rfl
      | some result =>
          rw [Option.bind_eq_bind, Option.bind_some, Option.bind_some, List.foldlM_map]
          refine foldlM_congr (fun rule hrule acc => ?_) result
          refine resolveRule_rename (hρ rule.1) hrule hsame (fun call' hmakes hsame' => ?_) acc
          exact ih call' hsame' fun call'' hleads => hkeeps call'' (.head hmakes hleads)

/-! ### Queries -/

/-- The call for a query. -/
def startCall (axioms : List Axiom) (σ : String → String) (query : Exp) : Call :=
  ⟨rulesOf axioms, query, query.subst isVar σ, typeOf query⟩

variable {axioms : List Axiom} {query : Exp}

theorem OneVariable.rename (hσ : Renaming σ) (hquery : OneVariable query) :
  OneVariable (query.subst isVar σ) ∧ typeOf (query.subst isVar σ) = typeOf query
  := by
  rcases hquery with ⟨hvar, hconst⟩ | ⟨hconst, hvar⟩
  · have hleft : isVar (query.subst isVar σ).left = true := by
      rw [Horn.Atom.subst, subst_of_isVar hvar]
      exact hσ.var _ hvar
    have hright : (query.subst isVar σ).right = query.right := subst_of_isConst hconst σ
    refine ⟨.inl ⟨hleft, by rwa [hright]⟩, ?_⟩
    rw [typeOf, typeOf, hleft, hvar]
  · have hright : isVar (query.subst isVar σ).right = true := by
      rw [Horn.Atom.subst, subst_of_isVar hvar]
      exact hσ.var _ hvar
    have hleft : (query.subst isVar σ).left = query.left := subst_of_isConst hconst σ
    refine ⟨.inr ⟨by rwa [hleft], hright⟩, ?_⟩
    rw [typeOf, typeOf, hleft]

theorem processQuery_rename (hρ : ∀ i, Renaming (ρ i)) (hσ : Renaming σ)
    (hquery : OneVariable query)
    (hkeeps : ∀ call, LeadsTo (factsOf axioms) ρ (startCall axioms σ query) call →
      Keeps (factsOf axioms) ρ call) (fuel : Nat) :
  processQuery fuel (factsOf (renameAxioms ρ axioms)) (rulesOf (renameAxioms ρ axioms))
      (query.subst isVar σ)
    = processQuery fuel (factsOf axioms) (rulesOf axioms) query
  := by
  obtain ⟨hquery', htype⟩ := hquery.rename hσ
  rw [processQuery_oneVariable hquery, processQuery_oneVariable hquery', htype,
    factsOf_renameAxioms, rulesOf_renameAxioms]
  have hresolve := resolveSubqueries_rename hρ fuel (startCall axioms σ query) rfl hkeeps
  dsimp only [startCall] at hresolve
  rw [hresolve]
  rfl

theorem proveLoop_rename (hρ : ∀ i, Renaming (ρ i)) (hσ : Renaming σ) {query : List Exp}
    (hquery : ∀ q ∈ query, OneVariable q)
    (hkeeps : ∀ q ∈ query, ∀ call, LeadsTo (factsOf axioms) ρ (startCall axioms σ q) call →
      Keeps (factsOf axioms) ρ call) (fuel : Nat) (results : List Answer) :
  proveLoop fuel (factsOf (renameAxioms ρ axioms)) (rulesOf (renameAxioms ρ axioms)) results
      (query.map fun q => q.subst isVar σ)
    = proveLoop fuel (factsOf axioms) (rulesOf axioms) results query
  := by
  induction query generalizing results with
  | nil => rfl
  | cons q query ih =>
      have hrest := ih (fun q hq => hquery q (List.mem_cons_of_mem _ hq))
        fun q hq => hkeeps q (List.mem_cons_of_mem _ hq)
      rw [List.map_cons, proveLoop, proveLoop, processQuery_rename hρ hσ
        (hquery q List.mem_cons_self) (hkeeps q List.mem_cons_self)]
      simp only [hrest]

/-- The answers are the same if in no call that a query leads to a comparison has another
outcome. -/
theorem prologProve_rename (hρ : ∀ i, Renaming (ρ i)) (hσ : Renaming σ) {query : List Exp}
    (hquery : ∀ q ∈ query, OneVariable q)
    (hkeeps : ∀ q ∈ query, ∀ call, LeadsTo (factsOf axioms) ρ (startCall axioms σ q) call →
      Keeps (factsOf axioms) ρ call) (fuel : Nat) :
  prologProve fuel (renameAxioms ρ axioms) (query.map fun q => q.subst isVar σ)
    = prologProve fuel axioms query
  := proveLoop_rename hρ hσ hquery hkeeps fuel []

/-! ### Queries with the constant on the left -/

/-- An answer is an argument of a fact. -/
theorem mem_facts_of_resolve {fuel : Nat} {rules : Rules} {query : Exp} {queryType : PredicateType}
    {result : List String} (h : resolveSubqueries fuel facts rules query queryType = some result)
    {v : String} (hv : v ∈ result) :
  ∃ fact ∈ facts, v = fact.left ∨ v = fact.right
  := by
  induction fuel generalizing rules query queryType result with
  | zero => cases h
  | succ fuel ih =>
      rcases resolveSubqueries_cases h hv with ⟨hnil, hfact⟩ | ⟨rule, hrule, -, hcontributes⟩
      · refine ⟨_, hfact, ?_⟩
        cases queryType with
        | one => exact .inl rfl
        | two => exact .inr rfl
        | nil => exact absurd rfl hnil
      · cases hcontributes with
        | one hbody hmore hv => exact ih hmore hv
        | two hbody hsubquery hsubqueries hitem hmore hv => exact ih hmore hv

/-- A call that knows its left argument, which is a constant. -/
structure KnowsLeft (call : Call) : Prop where
  queryType : call.queryType = .two
  left : call.query'.left = call.query.left
  const : isConst call.query.left = true
  forms : ∀ rule ∈ call.rules, RuleForm rule.2

variable {call call' : Call}

theorem KnowsLeft.splits (h : KnowsLeft call) (hρ : ∀ i, Renaming (ρ i)) {rule : Nat × Axiom}
    {e e' : Exp × Exp × PredicateType} (hsplits : Splits ρ call rule e e') :
  ∃ q r z y z' y', isVar z = true ∧ isVar z' = true
    ∧ e = (⟨q, call.query.left, z⟩, ⟨r, z, y⟩, .two)
    ∧ e' = (⟨q, call.query'.left, z'⟩, ⟨r, z', y'⟩, .two)
  := by
  obtain ⟨i, c⟩ := rule
  obtain ⟨hmem, -, b₁, b₂, hbody, he, he'⟩ := hsplits
  rw [h.queryType] at he he'
  cases h.forms _ hmem with
  | one => cases hbody
  | @two x y z hx hy hz hne p q r =>
      cases hbody
      have hz' : isVar (Horn.subst isVar (ρ i) z) = true := by
        rw [subst_of_isVar hz]
        exact (hρ i).var z hz
      rw [constructSubquery, subqueryLoop, if_pos (by rfl)] at he he'
      exact ⟨q, r, z, y, _, _, hz, hz', (Option.some.inj he).symm, (Option.some.inj he').symm⟩

theorem KnowsLeft.of_makes (hfacts : ∀ a ∈ facts, isConst a.left = true ∧ isConst a.right = true)
    (hρ : ∀ i, Renaming (ρ i)) (h : KnowsLeft call) (hmakes : Makes facts ρ call call') :
  KnowsLeft call'
  := by
  cases hmakes with
  | one hrule hpredicate hbody => exact ⟨h.queryType, h.left, h.const, h.forms⟩
  | first hsplits =>
      obtain ⟨q, r, z, y, z', y', hz, hz', rfl, rfl⟩ := h.splits hρ hsplits
      exact ⟨rfl, h.left, h.const, fun rule hrule => h.forms rule (List.mem_filter.mp hrule).1⟩
  | @second rule e e' item hsplits hitem =>
      obtain ⟨q, r, z, y, z', y', hz, hz', rfl, rfl⟩ := h.splits hρ hsplits
      obtain ⟨fuel, items, hitems, hmem⟩ := hitem
      have hconst : isConst item = true := by
        obtain ⟨fact, hfact, rfl | rfl⟩ := mem_facts_of_resolve hitems hmem
        · exact (hfacts fact hfact).1
        · exact (hfacts fact hfact).2
      have hne : z ≠ call.query.left := by
        intro heq
        exact not_isConst_of_isVar hz (heq ▸ h.const)
      have hne' : z' ≠ call.query'.left := by
        intro heq
        rw [h.left] at heq
        exact not_isConst_of_isVar hz' (heq ▸ h.const)
      have hquery : (call.second (⟨q, call.query.left, z⟩, ⟨r, z, y⟩, .two)
          (⟨q, call.query'.left, z'⟩, ⟨r, z', y'⟩, .two) item)
          = ⟨call.rules, ⟨r, item, y⟩, ⟨r, item, y'⟩, .two⟩ := by
        rw [Call.second, constructExtendedQuery, constructExtendedQuery, if_neg hne, if_neg hne']
      rw [hquery]
      exact ⟨rfl, rfl, hconst, h.forms⟩

/-- The names are only compared with constants. -/
theorem KnowsLeft.keeps (hfacts : ∀ a ∈ facts, isConst a.left = true ∧ isConst a.right = true)
    (hρ : ∀ i, Renaming (ρ i)) (h : KnowsLeft call) (hleads : LeadsTo facts ρ call call') :
  Keeps facts ρ call'
  := by
  have hknows : KnowsLeft call' := by
    induction hleads with
    | refl => exact h
    | tail _ hmakes ih => exact ih.of_makes hfacts hρ hmakes
  constructor
  · intro fact _ _
    rw [hknows.queryType, known, known, known, hknows.left]
  · intro rule e e' hsplits _ _
    obtain ⟨q, r, z, y, z', y', hz, hz', rfl, rfl⟩ := hknows.splits hρ hsplits
    refine iff_of_false ?_ ?_
    · intro (heq : z = call'.query.left)
      exact not_isConst_of_isVar hz (heq ▸ hknows.const)
    · intro (heq : z' = call'.query'.left)
      rw [hknows.left] at heq
      exact not_isConst_of_isVar hz' (heq ▸ hknows.const)

/-- Where every query has its constant on the left and every rule keeps to the forms, the answers
do not depend on the names. -/
theorem prologProve_rename_of_left {axioms : List Axiom} {query : List Exp}
    (hfacts : ∀ a ∈ factsOf axioms, isConst a.left = true ∧ isConst a.right = true)
    (hforms : ∀ rule ∈ rulesOf axioms, RuleForm rule.2) (hρ : ∀ i, Renaming (ρ i))
    (hσ : Renaming σ) (hquery : ∀ q ∈ query, isConst q.left = true ∧ isVar q.right = true)
    (fuel : Nat) :
  prologProve fuel (renameAxioms ρ axioms) (query.map fun q => q.subst isVar σ)
    = prologProve fuel axioms query
  := by
  refine proveLoop_rename hρ hσ (fun q hq => .inr (hquery q hq)) ?_ fuel []
  intro q hq call hleads
  obtain ⟨hconst, hvar⟩ := hquery q hq
  refine KnowsLeft.keeps hfacts hρ ⟨?_, ?_, hconst, hforms⟩ hleads
  · exact if_neg fun hleft => not_isConst_of_isVar hleft hconst
  · exact subst_of_isConst hconst σ

end

/-! ### A grandfather -/

def grandfatherAxioms : List Axiom :=
  [⟨⟨"father", "sam", "jim"⟩, []⟩, ⟨⟨"father", "jim", "jill"⟩, []⟩,
    ⟨⟨"grandfather", "X", "Y"⟩, [⟨"father", "X", "Z"⟩, ⟨"father", "Z", "Y"⟩]⟩]

/-- Two names are exchanged. -/
theorem renaming_swap {s t : String} (hs : isVar s = true) (ht : isVar t = true) :
  Renaming (Equiv.swap s t)
  := by
  constructor
  · intro u hu
    rw [Equiv.swap_apply_def]
    split
    · exact ht
    · split
      · exact hs
      · exact hu
  · intro u v _ _ heq
    exact (Equiv.swap s t).injective heq

theorem prologProve_rename_grandchild :
  prologProve 3 (renameAxioms (fun _ => Equiv.swap "Z" "V") grandfatherAxioms)
      [⟨"grandfather", "sam", "W"⟩]
    = prologProve 3 grandfatherAxioms [⟨"grandfather", "sam", "X"⟩]
  := by
  have hV : isVar "V" = true := by decide
  have hρ : ∀ _ : Nat, Renaming (Equiv.swap "Z" "V") := fun _ => renaming_swap (by decide) hV
  have hσ : Renaming (Equiv.swap "X" "W") := renaming_swap (by decide) (by decide)
  have hquery : ∀ q ∈ [(⟨"grandfather", "sam", "X"⟩ : Exp)], OneVariable q := by
    intro q hq
    obtain rfl := List.mem_singleton.mp hq
    exact .inr ⟨by decide, by decide⟩
  refine prologProve_rename hρ hσ hquery ?_ 3
  intro q hq call hleads
  obtain rfl := List.mem_singleton.mp hq
  refine KnowsLeft.keeps (by decide) hρ ⟨rfl, rfl, by decide, ?_⟩ hleads
  intro rule hrule
  have hrules : rulesOf grandfatherAxioms = [(2, ⟨⟨"grandfather", "X", "Y"⟩,
      [⟨"father", "X", "Z"⟩, ⟨"father", "Z", "Y"⟩]⟩)] := by decide
  rw [startCall, hrules] at hrule
  obtain rfl := List.mem_singleton.mp hrule
  exact .two (by decide) (by decide) (by decide) (by decide) _ _ _

theorem prologProve_not_rename :
  Renaming (Equiv.swap "X" "W")
    ∧ prologProve 3 grandfatherAxioms [⟨"grandfather", "X", "jill"⟩] = some [.value "sam"]
    ∧ prologProve 3 grandfatherAxioms
        [Horn.Atom.subst isVar (Equiv.swap "X" "W") ⟨"grandfather", "X", "jill"⟩] = some []
  := by
  refine ⟨renaming_swap (by decide) (by decide), by decide, by decide⟩

end Prolog
