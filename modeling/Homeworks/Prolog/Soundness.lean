import Homeworks.Prolog.Steps

/-!
# Soundness of the resolver

The body of a rule with one atom is asked with the arguments of the query whatever its variables
are, and the answers of the two atoms of a body are joined by their places.  The answers are
consequences if the places agree with the variables.
-/

namespace Prolog

/-! ### Letters -/

theorem toLower_of_isLower {c : Char} (h : c.isLower = true) :
  c.toLower = c
  := by
  unfold Char.toLower
  rw [dif_neg]
  rintro ⟨_, hz⟩
  unfold Char.isLower at h
  simp only [Bool.and_eq_true, decide_eq_true_eq] at h
  have hlower := UInt32.le_iff_toNat_le.mp h.1
  have hupper := UInt32.le_iff_toNat_le.mp hz
  have ha : 'a'.val.toNat = 97 := rfl
  have hZ : 'Z'.val.toNat = 90 := rfl
  omega

theorem toUpper_of_isUpper {c : Char} (h : c.isUpper = true) :
  c.toUpper = c
  := by
  unfold Char.toUpper
  rw [dif_neg]
  rintro ⟨hz, _⟩
  unfold Char.isUpper at h
  rw [decide_eq_true_eq] at h
  have hlower := UInt32.le_iff_toNat_le.mp h.2
  have hupper := UInt32.le_iff_toNat_le.mp hz
  have ha : 'a'.val.toNat = 97 := rfl
  have hZ : 'Z'.val.toNat = 90 := rfl
  omega

theorem toLower_ne_of_isUpper {c : Char} (h : c.isUpper = true) :
  c.toLower ≠ c
  := by
  unfold Char.isUpper at h
  rw [decide_eq_true_eq] at h
  unfold Char.toLower
  rw [dif_pos h]
  intro heq
  have hval := congrArg (fun d : Char => d.val.toNat) heq
  have hupper := UInt32.le_iff_toNat_le.mp h.2
  have hZ : 'Z'.val.toNat = 90 := rfl
  have hdiff : ('a'.val - 'A'.val).toNat = 32 := rfl
  rw [UInt32.toNat_add, hdiff] at hval
  omega

theorem toUpper_ne_of_isLower {c : Char} (h : c.isLower = true) :
  c.toUpper ≠ c
  := by
  unfold Char.isLower at h
  simp only [Bool.and_eq_true, decide_eq_true_eq] at h
  unfold Char.toUpper
  rw [dif_pos h]
  intro heq
  have hval := congrArg (fun d : Char => d.val.toNat) heq
  have hdiff : ('A'.val - 'a'.val).toNat = 4294967264 := rfl
  have hlt := c.val.toNat_lt
  rw [UInt32.toNat_add, hdiff] at hval
  omega

/-! ### Axioms -/

/-- A string that starts with an upper-case letter. -/
def isVar (s : String) : Bool := (firstChar s).any Char.isUpper

/-- A string that starts with a lower-case letter. -/
def isConst (s : String) : Bool := (firstChar s).any Char.isLower

/-- Facts have lower-case constants and rules have upper-case variables. -/
structure WellFormed (axioms : List Axiom) : Prop where
  facts : ∀ c ∈ axioms, c.body = [] → isConst c.head.left = true ∧ isConst c.head.right = true
  heads : ∀ c ∈ axioms, c.body ≠ [] → isVar c.head.left = true ∧ isVar c.head.right = true
  bodies : ∀ c ∈ axioms, ∀ b ∈ c.body, isVar b.left = true ∧ isVar b.right = true

theorem isVar_of_isConst {s : String} (h : isConst s = true) :
  isVar s = false
  := by
  rw [isConst] at h
  rw [isVar]
  cases hchar : firstChar s with
  | none => rfl
  | some c =>
      rw [hchar, Option.any_some] at h
      rw [Option.any_some, Bool.eq_false_iff]
      unfold Char.isLower at h
      unfold Char.isUpper
      intro hupper
      simp only [Bool.and_eq_true, decide_eq_true_eq] at h hupper
      have hle := UInt32.le_iff_toNat_le.mp h.1
      have hge := UInt32.le_iff_toNat_le.mp hupper.2
      have ha : 'a'.val.toNat = 97 := rfl
      have hz : 'Z'.val.toNat = 90 := rfl
      omega

/-! ### Places and variables -/

/-- A variable on the left of the head or of the atom is on the right of neither. -/
def AlignedOne (head b : Exp) : Prop :=
  ∀ s ∈ [b.left, head.left], s ≠ b.right ∧ s ≠ head.right

/-- The atom that is asked first has the known variable of the head in the same place.  The known
variable, the variables that are joined and those for the answer are different. -/
def AlignedTwo (head b₁ b₂ : Exp) : PredicateType → Prop
  | .one => ∀ b other, chosen head.right b₁ b₂ = some (b, other) →
      b.left ≠ head.right ∧ other.right ≠ head.right
        ∧ ∀ s ∈ [other.left, head.left], s ≠ head.right ∧ s ≠ b.left ∧ s ≠ other.right
  | .two => ∀ b other, chosen head.left b₁ b₂ = some (b, other) → b.left = head.left →
      b.right ≠ head.left ∧ other.left ≠ head.left
        ∧ ∀ s ∈ [other.right, head.right], s ≠ head.left ∧ s ≠ b.right ∧ s ≠ other.left
  | .nil => True

/-- The places of the body agree with the variables. -/
structure Aligned (queryType : PredicateType) (c : Axiom) : Prop where
  one : ∀ b, c.body = [b] → AlignedOne c.head b
  two : ∀ b₁ b₂, c.body = [b₁, b₂] → AlignedTwo c.head b₁ b₂ queryType

/-- The rules that give values for a call agree with their places. -/
def Goal.Aligned (facts : List Exp) (goal : Goal) : Prop :=
  ∀ rule ∈ goal.rules, rule.2.head.predicate = goal.query.predicate → ∀ fuel v,
    Contributes fuel facts goal.rules goal.query goal.queryType rule v →
      Prolog.Aligned goal.queryType rule.2

section

variable {axioms : List Axiom} {c : Axiom}

theorem subst_of_isVar {s : String} (h : isVar s = true) (σ : String → String) :
  Horn.subst isVar σ s = σ s
  := by
  rw [Horn.subst, if_pos h]

theorem subst_of_isConst {s : String} (h : isConst s = true) (σ : String → String) :
  Horn.subst isVar σ s = s
  := by
  rw [Horn.subst, if_neg]
  rw [isVar_of_isConst h]
  exact Bool.false_ne_true

/-- A fact is derivable. -/
theorem derives_fact (hwf : WellFormed axioms) {a : Exp} (h : a ∈ factsOf axioms) :
  Horn.Derives isVar axioms a
  := by
  obtain ⟨c, hc, rfl⟩ := List.mem_map.mp h
  obtain ⟨hc, hempty⟩ := List.mem_filter.mp hc
  have hbody := List.isEmpty_iff.mp hempty
  obtain ⟨hleft, hright⟩ := hwf.facts c hc hbody
  apply Horn.Derives.of_clause hc id
  · rw [Horn.Atom.subst, subst_of_isConst hleft, subst_of_isConst hright]
  · rw [hbody]
    exact fun b hb => absurd hb List.not_mem_nil

/-- An answer for the atom of a body is one for the head. -/
theorem derives_one (hwf : WellFormed axioms) (hc : c ∈ axioms) {b : Exp} (hbody : c.body = [b])
    (haligned : AlignedOne c.head b) {s t : String}
    (h : Horn.Derives isVar axioms ⟨b.predicate, s, t⟩) :
  Horn.Derives isVar axioms ⟨c.head.predicate, s, t⟩
  := by
  have hhead := hwf.heads c hc (by rw [hbody]; exact List.cons_ne_nil _ _)
  have hb := hwf.bodies c hc b (by rw [hbody]; exact List.mem_cons_self)
  have hleft := haligned b.left (by simp)
  have hleft' := haligned c.head.left (by simp)
  apply Horn.Derives.of_clause hc fun x => if x = b.left ∨ x = c.head.left then s else t
  · rw [Horn.Atom.subst, subst_of_isVar hhead.1, subst_of_isVar hhead.2, if_pos (.inr rfl), if_neg]
    rintro (h | h)
    · exact hleft.2 h.symm
    · exact hleft'.2 h.symm
  · intro b' hb'
    rw [hbody, List.mem_singleton] at hb'
    rw [hb', Horn.Atom.subst, subst_of_isVar hb.1, subst_of_isVar hb.2, if_pos (.inl rfl), if_neg]
    · exact h
    · rintro (h | h)
      · exact hleft.1 h.symm
      · exact hleft'.1 h.symm

/-- The known variable has a value, two variables have the value that is joined, and the other
ones have the answer. -/
def join (known mid₁ mid₂ k v w : String) (x : String) : String :=
  if x = known then k else if x = mid₁ ∨ x = mid₂ then v else w

variable {known mid₁ mid₂ k v w x : String}

theorem join_known :
  join known mid₁ mid₂ k v w known = k
  := if_pos rfl

theorem join_mid (hne : x ≠ known) (hx : x = mid₁ ∨ x = mid₂) :
  join known mid₁ mid₂ k v w x = v
  := by
  rw [join, if_neg hne, if_pos hx]

theorem join_answer (h : x ≠ known ∧ x ≠ mid₁ ∧ x ≠ mid₂) :
  join known mid₁ mid₂ k v w x = w
  := by
  rw [join, if_neg h.1, if_neg (not_or.mpr h.2)]

variable {b₁ b₂ b other : Exp}

/-- Answers of the two atoms that are joined are answers for the head: the answer on the left. -/
theorem derives_two_left (hwf : WellFormed axioms) (hc : c ∈ axioms) (hbody : c.body = [b₁, b₂])
    (haligned : AlignedTwo c.head b₁ b₂ .one)
    (hchosen : chosen c.head.right b₁ b₂ = some (b, other))
    (hb : Horn.Derives isVar axioms ⟨b.predicate, v, k⟩)
    (hother : Horn.Derives isVar axioms ⟨other.predicate, w, v⟩) :
  Horn.Derives isVar axioms ⟨c.head.predicate, w, k⟩
  := by
  obtain ⟨hleft, hmid, hanswer⟩ := haligned b other hchosen
  have hright : b.right = c.head.right := (chosen_occurs hchosen).resolve_left hleft
  have hhead := hwf.heads c hc (by rw [hbody]; exact List.cons_ne_nil _ _)
  have hmem := chosen_mem hchosen
  have hbvar := hwf.bodies c hc b (hbody ▸ (hmem b).mpr (.inl rfl))
  have hovar := hwf.bodies c hc other (hbody ▸ (hmem other).mpr (.inr rfl))
  apply Horn.Derives.of_clause hc (join c.head.right b.left other.right k v w)
  · rw [Horn.Atom.subst, subst_of_isVar hhead.1, subst_of_isVar hhead.2, join_known,
      join_answer (hanswer _ (by simp))]
  · intro a ha
    rw [hbody] at ha
    rcases (hmem a).mp ha with rfl | rfl
    · rw [Horn.Atom.subst, subst_of_isVar hbvar.1, subst_of_isVar hbvar.2, hright, join_known,
        join_mid hleft (.inl rfl)]
      exact hb
    · rw [Horn.Atom.subst, subst_of_isVar hovar.1, subst_of_isVar hovar.2,
        join_mid hmid (.inr rfl), join_answer (hanswer _ (by simp))]
      exact hother

/-- Answers of the two atoms that are joined are answers for the head: the answer on the right. -/
theorem derives_two_right (hwf : WellFormed axioms) (hc : c ∈ axioms) (hbody : c.body = [b₁, b₂])
    (haligned : AlignedTwo c.head b₁ b₂ .two)
    (hchosen : chosen c.head.left b₁ b₂ = some (b, other)) (hleft : b.left = c.head.left)
    (hb : Horn.Derives isVar axioms ⟨b.predicate, k, v⟩)
    (hother : Horn.Derives isVar axioms ⟨other.predicate, v, w⟩) :
  Horn.Derives isVar axioms ⟨c.head.predicate, k, w⟩
  := by
  obtain ⟨hright, hmid, hanswer⟩ := haligned b other hchosen hleft
  have hhead := hwf.heads c hc (by rw [hbody]; exact List.cons_ne_nil _ _)
  have hmem := chosen_mem hchosen
  have hbvar := hwf.bodies c hc b (hbody ▸ (hmem b).mpr (.inl rfl))
  have hovar := hwf.bodies c hc other (hbody ▸ (hmem other).mpr (.inr rfl))
  apply Horn.Derives.of_clause hc (join c.head.left b.right other.left k v w)
  · rw [Horn.Atom.subst, subst_of_isVar hhead.1, subst_of_isVar hhead.2, join_known,
      join_answer (hanswer _ (by simp))]
  · intro a ha
    rw [hbody] at ha
    rcases (hmem a).mp ha with rfl | rfl
    · rw [Horn.Atom.subst, subst_of_isVar hbvar.1, subst_of_isVar hbvar.2, hleft, join_known,
        join_mid hright (.inl rfl)]
      exact hb
    · rw [Horn.Atom.subst, subst_of_isVar hovar.1, subst_of_isVar hovar.2,
        join_mid hmid (.inr rfl), join_answer (hanswer _ (by simp))]
      exact hother

/-! ### Answers -/

theorem factsOf_const (hwf : WellFormed axioms) {a : Exp} (h : a ∈ factsOf axioms) :
  isConst a.left = true ∧ isConst a.right = true
  := by
  obtain ⟨c, hc, rfl⟩ := List.mem_map.mp h
  obtain ⟨hc, hempty⟩ := List.mem_filter.mp hc
  exact hwf.facts c hc (List.isEmpty_iff.mp hempty)

theorem not_isConst_of_isVar {s : String} (h : isVar s = true) :
  isConst s ≠ true
  := by
  intro hconst
  rw [isVar_of_isConst hconst] at h
  cases h

theorem mem_filter_rules {rules : Rules} (hrules : ∀ rule ∈ rules, rule.2 ∈ axioms) (place : Nat) :
  ∀ rule ∈ rules.filter (fun other => other.1 ≠ place), rule.2 ∈ axioms
  := fun rule hrule => hrules rule (List.mem_filter.mp hrule).1

variable {rules : Rules} {query : Exp} {queryType : PredicateType} {result : List String}

/-- A query without a constant has no answers. -/
theorem resolve_variables (hwf : WellFormed axioms) {fuel : Nat}
    (hrules : ∀ rule ∈ rules, rule.2 ∈ axioms)
    (hquery : queryType = .nil ∨ isVar query.left = true ∧ isVar query.right = true)
    (h : resolveSubqueries fuel (factsOf axioms) rules query queryType = some result) :
  result = []
  := by
  induction fuel generalizing rules query queryType result with
  | zero => cases h
  | succ fuel ih =>
      apply List.eq_nil_iff_forall_not_mem.mpr
      intro v hv
      rcases resolveSubqueries_cases h hv with ⟨hnil, hfact⟩ | ⟨rule, hrule, _, hcontributes⟩
      · obtain ⟨hleft, hright⟩ := hquery.resolve_left hnil
        have hconst := factsOf_const hwf hfact
        cases queryType with
        | one => exact not_isConst_of_isVar hright hconst.2
        | two => exact not_isConst_of_isVar hleft hconst.1
        | nil => exact hnil rfl
      · cases hcontributes with
        | one hbody hmore hv =>
            have hempty := ih hrules (by exact hquery) hmore
            rw [hempty] at hv
            cases hv
        | @two b₁ b₂ _ _ _ _ _ _ hbody hsubquery hsubqueries hitem hmore hv =>
            have hempty := ih (mem_filter_rules hrules rule.1) ?_ hsubqueries
            · rw [hempty] at hitem
              cases hitem
            · obtain ⟨hnil, hnew | ⟨b, hchosen, hnewQuery, hnewType⟩⟩ :=
                constructSubquery_cases hsubquery
              · exact .inl hnew
              · obtain ⟨hleft, hright⟩ := hquery.resolve_left hnil
                have hb := hwf.bodies _ (hrules rule hrule) b
                  (hbody ▸ (chosen_mem hchosen b).mpr (.inl rfl))
                rw [hnewQuery, subqueryOf]
                split
                · exact .inr ⟨hleft, hb.2⟩
                · exact .inr ⟨hb.1, hright⟩

/-- An atom whose query has an answer is asked because the known variable of the head occurs in
it. -/
theorem constructSubquery_answered (hwf : WellFormed axioms) {fuel : Nat} {rule : Nat × Axiom}
    (hrules : ∀ rule ∈ rules, rule.2 ∈ axioms) {b₁ b₂ newQuery other : Exp}
    {newQueryType : PredicateType} {item : String} {subqueries : List String}
    (hsubquery : constructSubquery rule.2.head b₁ b₂ query queryType
      = some (newQuery, other, newQueryType))
    (hsubqueries : resolveSubqueries fuel (factsOf axioms)
      (rules.filter fun other => other.1 ≠ rule.1) newQuery newQueryType = some subqueries)
    (hitem : item ∈ subqueries) :
  ∃ b, chosen (knownVar rule.2.head queryType) b₁ b₂ = some (b, other)
    ∧ (newQuery, newQueryType) = subqueryOf (knownVar rule.2.head queryType) query b
  := by
  obtain ⟨_, hnew | ⟨b, hchosen, hnewQuery, hnewType⟩⟩ := constructSubquery_cases hsubquery
  · rw [resolve_variables hwf (mem_filter_rules hrules rule.1) (.inl hnew) hsubqueries] at hitem
    cases hitem
  · exact ⟨b, hchosen, Prod.ext hnewQuery hnewType⟩

/-- A query with a variable in the place that is known has no answers. -/
theorem resolve_right_variable (hwf : WellFormed axioms)
    (haligned : ∀ goal, Goal.LeadsTo (factsOf axioms) ⟨rules, query, .one⟩ goal →
      goal.Aligned (factsOf axioms)) {fuel : Nat} (hrules : ∀ rule ∈ rules, rule.2 ∈ axioms)
    (hright : isVar query.right = true)
    (h : resolveSubqueries fuel (factsOf axioms) rules query .one = some result) :
  result = []
  := by
  induction fuel generalizing rules query result with
  | zero => cases h
  | succ fuel ih =>
      apply List.eq_nil_iff_forall_not_mem.mpr
      intro v hv
      rcases resolveSubqueries_cases h hv with ⟨_, hfact⟩ | ⟨rule, hrule, hpred, hcontributes⟩
      · exact not_isConst_of_isVar hright (factsOf_const hwf hfact).2
      · have hplaces := haligned _ .refl rule hrule hpred fuel v hcontributes
        cases hcontributes with
        | @one b _ hbody hmore hv =>
            have hsingle := fun goal hleads => haligned goal
              (.head (.single hrule hpred hbody) hleads)
            have hempty := ih hsingle hrules (by exact hright) hmore
            rw [hempty] at hv
            cases hv
        | @two b₁ b₂ newQuery other newQueryType item subqueries _ hbody hsubquery hsubqueries hitem
            hmore hv =>
            have hrest := mem_filter_rules hrules rule.1
            obtain ⟨b, hchosen, hnew⟩ :=
              constructSubquery_answered hwf hrules hsubquery hsubqueries hitem
            have hleft : b.left ≠ knownVar rule.2.head .one :=
              (hplaces.two b₁ b₂ hbody b _ hchosen).1
            rw [subqueryOf, if_neg hleft] at hnew
            cases hnew
            have hjoins : Goal.Joins ⟨rules, query, .one⟩ rule (_, other, .one) :=
              ⟨hrule, hpred, b₁, b₂, hbody, hsubquery⟩
            have hfirst := fun goal hleads => haligned goal (.head (.first hjoins) hleads)
            have hempty := ih hfirst hrest (by exact hright) hsubqueries
            rw [hempty] at hitem
            cases hitem

/-- The answers on the left are derivable. -/
theorem resolve_one_sound (hwf : WellFormed axioms)
    (haligned : ∀ goal, Goal.LeadsTo (factsOf axioms) ⟨rules, query, .one⟩ goal →
      goal.Aligned (factsOf axioms)) {fuel : Nat} (hrules : ∀ rule ∈ rules, rule.2 ∈ axioms)
    (hright : isConst query.right = true)
    (h : resolveSubqueries fuel (factsOf axioms) rules query .one = some result) :
  ∀ v ∈ result, isConst v = true ∧ Horn.Derives isVar axioms ⟨query.predicate, v, query.right⟩
  := by
  induction fuel generalizing rules query result with
  | zero => cases h
  | succ fuel ih =>
      intro v hv
      rcases resolveSubqueries_cases h hv with ⟨_, hfact⟩ | ⟨rule, hrule, hpred, hcontributes⟩
      · exact ⟨(factsOf_const hwf hfact).1, derives_fact hwf hfact⟩
      · have hmem := hrules rule hrule
        have hplaces := haligned _ .refl rule hrule hpred fuel v hcontributes
        rw [← hpred]
        cases hcontributes with
        | @one b _ hbody hmore hv =>
            have hsingle := fun goal hleads => haligned goal
              (.head (.single hrule hpred hbody) hleads)
            obtain ⟨hconst, hderives⟩ := ih hsingle hrules (by exact hright) hmore v hv
            exact ⟨hconst, derives_one hwf hmem hbody (hplaces.one b hbody) hderives⟩
        | @two b₁ b₂ newQuery other newQueryType item subqueries _ hbody hsubquery hsubqueries hitem
            hmore hv =>
            have hrest := mem_filter_rules hrules rule.1
            have htwo := hplaces.two b₁ b₂ hbody
            obtain ⟨b, hchosen, hnew⟩ :=
              constructSubquery_answered hwf hrules hsubquery hsubqueries hitem
            have hleft : b.left ≠ knownVar rule.2.head .one := (htwo b _ hchosen).1
            rw [subqueryOf, if_neg hleft] at hnew
            cases hnew
            have hjoins : Goal.Joins ⟨rules, query, .one⟩ rule (_, other, .one) :=
              ⟨hrule, hpred, b₁, b₂, hbody, hsubquery⟩
            have hfirst := fun goal hleads => haligned goal (.head (.first hjoins) hleads)
            have hsecond := fun goal hleads => haligned goal
              (.head (.second hjoins ⟨fuel, subqueries, hsubqueries, hitem⟩) hleads)
            dsimp only [Goal.second] at hsecond
            obtain ⟨hitemConst, hitemDerives⟩ :=
              ih hfirst hrest (by exact hright) hsubqueries item hitem
            rw [constructExtendedQuery] at hmore hsecond
            split at hmore
            next heq =>
              rw [if_pos heq] at hsecond
              obtain ⟨hconst, hderives⟩ := ih hsecond hrules (by exact hitemConst) hmore v hv
              exact ⟨hconst, derives_two_left hwf hmem hbody htwo hchosen hitemDerives hderives⟩
            next heq =>
              -- The item is in the wrong place, and the known argument is a variable.
              rw [if_neg heq] at hsecond
              have hvar := (hwf.bodies _ hmem other
                (hbody ▸ (chosen_mem hchosen other).mpr (.inr rfl))).2
              have hempty := resolve_right_variable hwf hsecond hrules (by exact hvar) hmore
              rw [hempty] at hv
              cases hv

/-- The answers on the right are derivable. -/
theorem resolve_two_sound (hwf : WellFormed axioms)
    (haligned : ∀ goal, Goal.LeadsTo (factsOf axioms) ⟨rules, query, .two⟩ goal →
      goal.Aligned (factsOf axioms)) {fuel : Nat} (hrules : ∀ rule ∈ rules, rule.2 ∈ axioms)
    (hleft : isConst query.left = true) (hright : isVar query.right = true)
    (h : resolveSubqueries fuel (factsOf axioms) rules query .two = some result) :
  ∀ v ∈ result, isConst v = true ∧ Horn.Derives isVar axioms ⟨query.predicate, query.left, v⟩
  := by
  induction fuel generalizing rules query result with
  | zero => cases h
  | succ fuel ih =>
      intro v hv
      rcases resolveSubqueries_cases h hv with ⟨_, hfact⟩ | ⟨rule, hrule, hpred, hcontributes⟩
      · exact ⟨(factsOf_const hwf hfact).2, derives_fact hwf hfact⟩
      · have hmem := hrules rule hrule
        have hplaces := haligned _ .refl rule hrule hpred fuel v hcontributes
        rw [← hpred]
        cases hcontributes with
        | @one b _ hbody hmore hv =>
            have hsingle := fun goal hleads => haligned goal
              (.head (.single hrule hpred hbody) hleads)
            obtain ⟨hconst, hderives⟩ :=
              ih hsingle hrules (by exact hleft) (by exact hright) hmore v hv
            exact ⟨hconst, derives_one hwf hmem hbody (hplaces.one b hbody) hderives⟩
        | @two b₁ b₂ newQuery other newQueryType item subqueries _ hbody hsubquery hsubqueries hitem
            hmore hv =>
            have hrest := mem_filter_rules hrules rule.1
            obtain ⟨b, hchosen, hnew⟩ :=
              constructSubquery_answered hwf hrules hsubquery hsubqueries hitem
            have hbbody : b ∈ rule.2.body := hbody ▸ (chosen_mem hchosen b).mpr (.inl rfl)
            have hobody : other ∈ rule.2.body :=
              hbody ▸ (chosen_mem hchosen other).mpr (.inr rfl)
            have hbvar := hwf.bodies _ hmem b hbbody
            have hovar := hwf.bodies _ hmem other hobody
            by_cases hplace : b.left = rule.2.head.left
            · have hnewLeft : subqueryOf (knownVar rule.2.head .two) query b
                  = (⟨b.predicate, query.left, b.right⟩, .two) := if_pos hplace
              have hne : other.left ≠ query.left := by
                intro heq
                rw [heq] at hovar
                exact not_isConst_of_isVar hovar.1 hleft
              rw [hnewLeft] at hnew
              cases hnew
              have hjoins : Goal.Joins ⟨rules, query, .two⟩ rule (_, other, .two) :=
                ⟨hrule, hpred, b₁, b₂, hbody, hsubquery⟩
              have hfirst := fun goal hleads => haligned goal (.head (.first hjoins) hleads)
              have hsecond := fun goal hleads => haligned goal
                (.head (.second hjoins ⟨fuel, subqueries, hsubqueries, hitem⟩) hleads)
              dsimp only [Goal.second] at hsecond
              rw [constructExtendedQuery, if_neg hne] at hmore hsecond
              obtain ⟨hitemConst, hitemDerives⟩ := ih hfirst hrest
                (by exact hleft) (by exact hbvar.2) hsubqueries item hitem
              obtain ⟨hconst, hderives⟩ := ih hsecond hrules
                (by exact hitemConst) (by exact hovar.2) hmore v hv
              exact ⟨hconst, derives_two_right hwf hmem hbody (hplaces.two b₁ b₂ hbody) hchosen
                hplace hitemDerives hderives⟩
            · -- The other argument of the query is a variable.
              have hnewRight : subqueryOf (knownVar rule.2.head .two) query b
                  = (⟨b.predicate, b.left, query.right⟩, .one) := if_neg hplace
              rw [hnewRight] at hnew
              cases hnew
              have hempty := resolve_variables hwf hrest (by exact .inr ⟨hbvar.1, hright⟩)
                hsubqueries
              rw [hempty] at hitem
              cases hitem

/-! ### Queries -/

/-- The type of a query with one variable. -/
def typeOf (query : Exp) : PredicateType := if isVar query.left then .one else .two

/-- One argument of a query is a variable and the other one is a constant. -/
def OneVariable (query : Exp) : Prop :=
  isVar query.left = true ∧ isConst query.right = true
    ∨ isConst query.left = true ∧ isVar query.right = true

theorem rulesOf_mem (axioms : List Axiom) :
  ∀ rule ∈ rulesOf axioms, rule.2 ∈ axioms
  := by
  intro rule hrule
  obtain ⟨e, he, rfl⟩ := List.mem_map.mp (List.mem_filter.mp hrule).1
  exact List.mem_of_getElem? (List.mem_zipIdx_iff_getElem?.mp he)

theorem firstChar_of_isVar {s : String} (h : isVar s = true) :
  ∃ c, firstChar s = some c ∧ c.isUpper = true
  := by
  rw [isVar] at h
  cases hchar : firstChar s with
  | none =>
      rw [hchar] at h
      cases h
  | some c =>
      rw [hchar, Option.any_some] at h
      exact ⟨c, rfl, h⟩

theorem firstChar_of_isConst {s : String} (h : isConst s = true) :
  ∃ c, firstChar s = some c ∧ c.isLower = true
  := by
  rw [isConst] at h
  cases hchar : firstChar s with
  | none =>
      rw [hchar] at h
      cases h
  | some c =>
      rw [hchar, Option.any_some] at h
      exact ⟨c, rfl, h⟩

/-- A query with one variable is resolved. -/
theorem processQuery_oneVariable {fuel : Nat} {facts : List Exp} (hquery : OneVariable query) :
  processQuery fuel facts rules query
    = (firstChar query.predicate).bind fun c =>
        if c = c.toLower then
          (resolveSubqueries fuel facts rules query (typeOf query)).map (List.map .value)
        else
          some []
  := by
  rcases hquery with ⟨hvar, hconst⟩ | ⟨hconst, hvar⟩
  · obtain ⟨c2, hc2, hupper⟩ := firstChar_of_isVar hvar
    obtain ⟨c3, hc3, hlower⟩ := firstChar_of_isConst hconst
    have hground : ¬ (c2 = c2.toLower ∧ c3 = c3.toLower) :=
      fun h => toLower_ne_of_isUpper hupper h.1.symm
    simp only [processQuery, hc2, hc3, Option.bind_eq_bind, Option.bind_some, if_neg hground,
      toUpper_of_isUpper hupper, if_true, typeOf, hvar]
  · obtain ⟨c2, hc2, hlower⟩ := firstChar_of_isConst hconst
    obtain ⟨c3, hc3, hupper⟩ := firstChar_of_isVar hvar
    have hground : ¬ (c2 = c2.toLower ∧ c3 = c3.toLower) :=
      fun h => toLower_ne_of_isUpper hupper h.2.symm
    have hone : ¬ c2 = c2.toUpper := fun h => toUpper_ne_of_isLower hlower h.symm
    simp only [processQuery, hc2, hc3, Option.bind_eq_bind, Option.bind_some, if_neg hground,
      if_neg hone, typeOf, isVar_of_isConst hconst, Bool.false_eq_true, if_false]

/-- One query is processed by itself. -/
theorem prologProve_singleton (fuel : Nat) (axioms : List Axiom) (query : Exp) :
  prologProve fuel axioms [query] = processQuery fuel (factsOf axioms) (rulesOf axioms) query
  := by
  rw [prologProve, proveLoop, Option.bind_eq_bind]
  cases processQuery fuel (factsOf axioms) (rulesOf axioms) query with
  | none => rfl
  | some res =>
      cases res with
      | nil => rfl
      | cons a res => rfl

/-- The call for a query. -/
def startGoal (axioms : List Axiom) (query : Exp) : Goal :=
  ⟨rulesOf axioms, query, typeOf query⟩

/-- The answers are consequences if in no call that the query leads to a rule gives a value whose
places do not agree with its variables. -/
theorem prologProve_sound (hwf : WellFormed axioms) (hquery : OneVariable query)
    (haligned : ∀ goal, Goal.LeadsTo (factsOf axioms) (startGoal axioms query) goal →
      goal.Aligned (factsOf axioms)) {fuel : Nat} {answers : List Answer}
    (h : prologProve fuel axioms [query] = some answers) :
  ∀ a ∈ answers, ∃ v, a = .value v
    ∧ Horn.Consequence isVar axioms (answer query v (typeOf query))
  := by
  rw [prologProve_singleton, processQuery_oneVariable hquery, Option.bind_eq_some_iff] at h
  obtain ⟨c, _, h⟩ := h
  intro a ha
  split at h
  · obtain ⟨result, hresult, rfl⟩ := Option.map_eq_some_iff.mp h
    obtain ⟨v, hv, rfl⟩ := List.mem_map.mp ha
    refine ⟨v, rfl, ?_⟩
    rw [startGoal] at haligned
    rcases hquery with ⟨hvar, hconst⟩ | ⟨hconst, hvar⟩
    · have htype : typeOf query = .one := if_pos hvar
      rw [htype] at haligned hresult ⊢
      obtain ⟨hv, hderives⟩ := resolve_one_sound hwf haligned (rulesOf_mem axioms) hconst
        hresult v hv
      exact (Horn.consequence_iff (isVar_of_isConst hv) (isVar_of_isConst hconst)).mpr hderives
    · have htype : typeOf query = .two := if_neg (by rw [isVar_of_isConst hconst]; decide)
      rw [htype] at haligned hresult ⊢
      obtain ⟨hv, hderives⟩ := resolve_two_sound hwf haligned (rulesOf_mem axioms) hconst hvar
        hresult v hv
      exact (Horn.consequence_iff (isVar_of_isConst hconst) (isVar_of_isConst hv)).mpr hderives
  · cases h
    cases ha

end

/-- The parents of a parent are found by a rule with two atoms. -/
def grandmotherAxioms : List Axiom :=
  [⟨⟨"father", "jim", "jill"⟩, []⟩, ⟨⟨"mother", "mary", "jim"⟩, []⟩,
    ⟨⟨"grandmother", "X", "Y"⟩, [⟨"mother", "X", "Z"⟩, ⟨"father", "Z", "Y"⟩]⟩]

theorem wellFormed_grandmother : WellFormed grandmotherAxioms
  := ⟨by decide, by decide, by decide⟩

theorem aligned_grandmother {query : Exp} {goal : Goal}
    (hleads : Goal.LeadsTo (factsOf grandmotherAxioms) (startGoal grandmotherAxioms query) goal) :
  goal.Aligned (factsOf grandmotherAxioms)
  := by
  have hrules : rulesOf grandmotherAxioms = [(2, ⟨⟨"grandmother", "X", "Y"⟩,
      [⟨"mother", "X", "Z"⟩, ⟨"father", "Z", "Y"⟩]⟩)] := by decide
  intro rule hrule _ _ _ _
  have hmem := hleads.rules_subset hrule
  rw [startGoal, hrules] at hmem
  obtain rfl := List.mem_singleton.mp hmem
  refine ⟨by rintro _ ⟨⟩, fun b₁ b₂ hbody => ?_⟩
  cases hbody
  cases goal.queryType with
  | one =>
      intro b other hchosen
      cases hchosen
      decide
  | two =>
      intro b other hchosen
      cases hchosen
      decide
  | nil => trivial

theorem prologProve_sound_grandmother :
  prologProve 3 grandmotherAxioms [⟨"grandmother", "X", "jill"⟩] = some [.value "mary"]
    ∧ Horn.Consequence isVar grandmotherAxioms ⟨"grandmother", "mary", "jill"⟩
  := by
  have hanswers : prologProve 3 grandmotherAxioms [⟨"grandmother", "X", "jill"⟩]
      = some [.value "mary"] := by decide
  obtain ⟨v, hv, hconsequence⟩ := prologProve_sound wellFormed_grandmother
    (.inl ⟨by decide, by decide⟩) (fun goal hleads => aligned_grandmother hleads) hanswers _
    List.mem_cons_self
  cases hv
  exact ⟨hanswers, hconsequence⟩

/-- The atom of the body has the variables of the head in the other order. -/
def swappedAxioms : List Axiom :=
  [⟨⟨"child", "jill", "jim"⟩, []⟩, ⟨⟨"parent", "X", "Y"⟩, [⟨"child", "Y", "X"⟩]⟩]

theorem prologProve_swapped :
  prologProve 3 swappedAxioms [⟨"parent", "X", "jim"⟩] = some [.value "jill"]
    ∧ ¬ Horn.Consequence isVar swappedAxioms ⟨"parent", "jill", "jim"⟩
  := by
  constructor
  · decide
  · intro h
    -- A structure in which Jim is the parent of Jill, and no one else is a parent.
    have hparent := h ⟨String, id, fun p s t => p = "child" ∧ s = "jill" ∧ t = "jim"
      ∨ p = "parent" ∧ s = "jim" ∧ t = "jill"⟩ ?_ id
    · rcases hparent with ⟨hchild, _⟩ | ⟨_, hleft, _⟩
      · exact absurd hchild (by decide)
      · exact absurd (hleft : "jill" = "jim") (by decide)
    · intro c hc v hbody
      rw [swappedAxioms, List.mem_cons, List.mem_singleton] at hc
      rcases hc with rfl | rfl
      · exact .inl ⟨rfl, rfl, rfl⟩
      · rcases hbody _ List.mem_cons_self with ⟨_, hleft, hright⟩ | ⟨hchild, _⟩
        · exact .inr ⟨rfl, hright, hleft⟩
        · exact absurd hchild (by decide)

end Prolog
