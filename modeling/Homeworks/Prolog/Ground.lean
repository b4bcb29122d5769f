import Homeworks.Prolog.Soundness

/-!
# Ground queries

A query without variables is looked up in the facts; the rules are not used.  Its forms with one
variable are resolved.
-/

namespace Prolog

theorem findFact_isSome {facts : List Exp} {query : Exp} :
  (findFact facts query).isSome = true ↔ query ∈ facts
  := by
  induction facts with
  | nil => simp [findFact]
  | cons fact rest ih =>
      rw [findFact, List.mem_cons]
      split
      · rename_i hmatch
        have heq : query = fact := by
          obtain ⟨p, s, t⟩ := fact
          obtain ⟨rfl, rfl, rfl⟩ := hmatch
          rfl
        exact ⟨fun _ => .inl heq, fun _ => rfl⟩
      · rename_i hmatch
        rw [ih]
        refine ⟨.inr, fun h => h.resolve_left fun heq => hmatch ?_⟩
        rw [heq]
        exact ⟨rfl, rfl, rfl⟩

theorem toLower_of_not_isUpper {c : Char} (h : c.isUpper = false) :
  c.toLower = c
  := by
  unfold Char.toLower
  rw [dif_neg]
  intro hupper
  unfold Char.isUpper at h
  rw [decide_eq_false_iff_not] at h
  exact h hupper

/-- The first character of a string is its own lower-case form exactly if it is not upper-case. -/
theorem toLower_iff {s : String} {c : Char} (h : firstChar s = some c) :
  c = c.toLower ↔ isVar s = false
  := by
  rw [isVar, h, Option.any_some]
  constructor
  · intro hlower
    rw [Bool.eq_false_iff]
    exact fun hupper => toLower_ne_of_isUpper hupper hlower.symm
  · exact fun hupper => (toLower_of_not_isUpper hupper).symm

/-- The query is a fact that is looked up. -/
def LookedUp (axioms : List Axiom) (query : Exp) : Prop :=
  isVar query.predicate = false ∧ query ∈ factsOf axioms

instance (axioms : List Axiom) (query : Exp) : Decidable (LookedUp axioms query) :=
  inferInstanceAs (Decidable (_ ∧ _))

/-- The answers to a query without variables. -/
theorem prologProve_ground {axioms : List Axiom} {query : Exp} (hleft : isVar query.left = false)
    (hright : isVar query.right = false) {fuel : Nat} {answers : List Answer}
    (h : prologProve fuel axioms [query] = some answers) :
  answers = if LookedUp axioms query then [.true] else []
  := by
  rw [prologProve_singleton, processQuery] at h
  simp only [Option.bind_eq_bind, Option.bind_eq_some_iff] at h
  obtain ⟨c1, hc1, c2, hc2, c3, hc3, h⟩ := h
  have hground : c2 = c2.toLower ∧ c3 = c3.toLower :=
    ⟨(toLower_iff hc2).mpr hleft, (toLower_iff hc3).mpr hright⟩
  by_cases hpredicate : isVar query.predicate = false
  · rw [if_pos ((toLower_iff hc1).mpr hpredicate), if_pos hground] at h
    by_cases hfact : query ∈ factsOf axioms
    · rw [if_pos ⟨hpredicate, hfact⟩]
      obtain ⟨fact, hfind⟩ := Option.isSome_iff_exists.mp (findFact_isSome.mpr hfact)
      rw [hfind] at h
      exact (Option.some.inj h).symm
    · rw [if_neg fun hand => hfact hand.2]
      have hfind : findFact (factsOf axioms) query = none := by
        rw [← Option.not_isSome_iff_eq_none, findFact_isSome]
        exact hfact
      rw [hfind] at h
      exact (Option.some.inj h).symm
  · rw [if_neg (mt (toLower_iff hc1).mp hpredicate)] at h
    rw [if_neg fun hand => hpredicate hand.1]
    exact (Option.some.inj h).symm

/-- A fact is a consequence. -/
theorem consequence_fact {axioms : List Axiom} {query : Exp} (h : query ∈ factsOf axioms) :
  Horn.Consequence isVar axioms query
  := by
  obtain ⟨c, hc, rfl⟩ := List.mem_map.mp h
  obtain ⟨hc, hempty⟩ := List.mem_filter.mp hc
  intro M hM v
  apply hM c hc v
  rw [List.isEmpty_iff.mp hempty]
  exact fun b hb => absurd hb List.not_mem_nil

/-! ### Forms with one variable -/

/-- A variable takes the place of an argument of a query. -/
inductive Opens (query : Exp) : Exp → String → Prop where
  | left {x : String} (hx : isVar x = true) :
      Opens query ⟨query.predicate, x, query.right⟩ query.left
  | right {x : String} (hx : isVar x = true) :
      Opens query ⟨query.predicate, query.left, x⟩ query.right

/-- A value is returned for a query. -/
def Returned (axioms : List Axiom) (form : Exp) (v : String) : Prop :=
  ∃ fuel answers, prologProve fuel axioms [form] = some answers ∧ .value v ∈ answers

/-- A query is answered by derivability; if one of its arguments is returned for its form with a
variable there, it is answered by `TRUE`. -/
def Decided (axioms : List Axiom) (query : Exp) (answers : List Answer) : Prop :=
  (Horn.Consequence isVar axioms query → answers = [.true])
    ∧ (¬ Horn.Consequence isVar axioms query → answers = [])
    ∧ ∀ form v, Opens query form v → Returned axioms form v → answers = [.true]

theorem decided_iff {axioms : List Axiom} {query : Exp} {answers : List Answer}
    (hanswers : answers = if LookedUp axioms query then [.true] else []) :
  Decided axioms query answers
    ↔ LookedUp axioms query
      ∨ ¬ Horn.Consequence isVar axioms query
        ∧ ∀ form v, Opens query form v → ¬ Returned axioms form v
  := by
  by_cases hfact : LookedUp axioms query
  · rw [if_pos hfact] at hanswers
    refine iff_of_true ⟨fun _ => hanswers, ?_, fun _ _ _ _ => hanswers⟩ (.inl hfact)
    exact fun hnot => absurd (consequence_fact hfact.2) hnot
  · rw [if_neg hfact] at hanswers
    rw [or_iff_right hfact, Decided, hanswers]
    have hne : ([] : List Answer) ≠ [.true] := (List.cons_ne_nil _ _).symm
    constructor
    · rintro ⟨htrue, -, hforms⟩
      exact ⟨fun hconsequence => hne (htrue hconsequence),
        fun form v hopens hreturned => hne (hforms form v hopens hreturned)⟩
    · rintro ⟨hnot, hforms⟩
      exact ⟨fun hconsequence => absurd hconsequence hnot, fun _ => rfl,
        fun form v hopens hreturned => absurd hreturned (hforms form v hopens)⟩

/-- A value that sound calls return for a form of a query makes it a consequence. -/
theorem consequence_of_returned {axioms : List Axiom} {query form : Exp} {v : String}
    (hwf : WellFormed axioms) (hleft : isConst query.left = true)
    (hright : isConst query.right = true) (hopens : Opens query form v)
    (haligned : ∀ goal, Goal.LeadsTo (factsOf axioms) (startGoal axioms form) goal →
      goal.Aligned (factsOf axioms)) (h : Returned axioms form v) :
  Horn.Consequence isVar axioms query
  := by
  obtain ⟨fuel, answers, hanswers, hmem⟩ := h
  have hform : OneVariable form ∧ answer form v (typeOf form) = query := by
    cases hopens with
    | left hx =>
        refine ⟨.inl ⟨hx, hright⟩, ?_⟩
        rw [typeOf, if_pos hx]
        rfl
    | right hx =>
        refine ⟨.inr ⟨hleft, hx⟩, ?_⟩
        rw [typeOf, if_neg (by rw [isVar_of_isConst hleft]; exact Bool.false_ne_true)]
        rfl
  obtain ⟨v', hv', hconsequence⟩ := prologProve_sound hwf hform.1 haligned hanswers _ hmem
  cases hv'
  rwa [hform.2] at hconsequence

/-- A query without variables is decided exactly if it is a fact, or neither a consequence nor a
result of resolving one of its forms.  If the calls for its forms read the rules as their variables
say, it need not be a consequence. -/
theorem ground_answers_iff {axioms : List Axiom} {query : Exp} (hleft : isVar query.left = false)
    (hright : isVar query.right = false) {fuel : Nat} {answers : List Answer}
    (h : prologProve fuel axioms [query] = some answers) :
  (Decided axioms query answers
      ↔ LookedUp axioms query
        ∨ ¬ Horn.Consequence isVar axioms query
          ∧ ∀ form v, Opens query form v → ¬ Returned axioms form v)
    ∧ (WellFormed axioms → isConst query.left = true → isConst query.right = true →
      (∀ form v, Opens query form v → ∀ goal,
        Goal.LeadsTo (factsOf axioms) (startGoal axioms form) goal →
          goal.Aligned (factsOf axioms)) →
      (Decided axioms query answers
        ↔ LookedUp axioms query ∨ ¬ Horn.Consequence isVar axioms query))
  := by
  have hiff := decided_iff (prologProve_ground hleft hright h)
  refine ⟨hiff, fun hwf hleft hright haligned => ?_⟩
  rw [hiff, and_iff_left_of_imp]
  intro hnot form v hopens hreturned
  exact hnot (consequence_of_returned hwf hleft hright hopens (haligned form v hopens) hreturned)

/-- Jim is no grandmother, and he is not found. -/
theorem ground_answers_iff_father :
  prologProve 0 grandmotherAxioms [⟨"grandmother", "jim", "jill"⟩] = some []
    ∧ Decided grandmotherAxioms ⟨"grandmother", "jim", "jill"⟩ []
  := by
  have hanswers : prologProve 0 grandmotherAxioms [⟨"grandmother", "jim", "jill"⟩] = some [] := by
    decide
  have hnot : ¬ Horn.Consequence isVar grandmotherAxioms ⟨"grandmother", "jim", "jill"⟩ := by
    intro h
    -- A structure in which only Mary is a grandmother.
    have hjim := h ⟨String, id, fun p s t => p = "father" ∧ s = "jim" ∧ t = "jill"
      ∨ p = "mother" ∧ s = "mary" ∧ t = "jim"
      ∨ p = "grandmother" ∧ s = "mary" ∧ t = "jill"⟩ ?_ id
    · rcases hjim with ⟨hp, -⟩ | ⟨hp, -⟩ | ⟨-, hs, -⟩
      · exact absurd (hp : "grandmother" = "father") (by decide)
      · exact absurd (hp : "grandmother" = "mother") (by decide)
      · exact absurd (hs : "jim" = "mary") (by decide)
    · intro c hc v hbody
      rw [grandmotherAxioms, List.mem_cons, List.mem_cons, List.mem_singleton] at hc
      rcases hc with rfl | rfl | rfl
      · exact .inl ⟨rfl, rfl, rfl⟩
      · exact .inr (.inl ⟨rfl, rfl, rfl⟩)
      · have hmother := hbody _ List.mem_cons_self
        have hfather := hbody _ (List.mem_cons_of_mem _ List.mem_cons_self)
        have hX : v "X" = "mary" := by
          rcases hmother with ⟨hp, -⟩ | ⟨-, hX, -⟩ | ⟨hp, -⟩
          · exact absurd hp (by decide)
          · exact hX
          · exact absurd hp (by decide)
        have hY : v "Y" = "jill" := by
          rcases hfather with ⟨-, -, hY⟩ | ⟨hp, -⟩ | ⟨hp, -⟩
          · exact hY
          · exact absurd hp (by decide)
          · exact absurd hp (by decide)
        exact .inr (.inr ⟨rfl, hX, hY⟩)
  have hdecided := ground_answers_iff (by decide) (by decide) hanswers
  exact ⟨hanswers, (hdecided.2 wellFormed_grandmother (by decide) (by decide)
    fun form v _ goal hleads => aligned_grandmother hleads).mpr (.inr hnot)⟩

/-- A consequence of a rule is not found, although it is an answer to the query with a variable. -/
theorem ground_answers_derived :
  prologProve 3 grandmotherAxioms [⟨"grandmother", "X", "jill"⟩] = some [.value "mary"]
    ∧ Horn.Consequence isVar grandmotherAxioms ⟨"grandmother", "mary", "jill"⟩
    ∧ prologProve 3 grandmotherAxioms [⟨"grandmother", "mary", "jill"⟩] = some []
  := by
  refine ⟨by decide, fun M hM v => ?_, by decide⟩
  have hrule := hM _ (List.mem_cons_of_mem _ (List.mem_cons_of_mem _ List.mem_cons_self)) fun s =>
    if s = "X" then M.value "mary" else if s = "Z" then M.value "jim" else M.value "jill"
  apply hrule
  intro b hb
  rw [List.mem_cons, List.mem_singleton] at hb
  rcases hb with rfl | rfl
  · exact hM _ (List.mem_cons_of_mem _ List.mem_cons_self) v (fun _ h => absurd h List.not_mem_nil)
  · exact hM _ List.mem_cons_self v (fun _ h => absurd h List.not_mem_nil)

end Prolog
