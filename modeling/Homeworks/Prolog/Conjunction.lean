import Homeworks.Prolog.Completeness

/-!
# Several queries

The loop over the queries takes the empty list for the results before the first query.  After
queries without a common answer it starts again with the next one.
-/

namespace Prolog

/-! ### Lists without a common element -/

section

variable {α : Type} {l : List α} {results : List α} {lists rest : List (List α)} {v : α}

/-- An element of all lists. -/
def Common (lists : List (List α)) (v : α) : Prop := ∀ l ∈ lists, v ∈ l

theorem common_cons :
  Common (l :: lists) v ↔ v ∈ l ∧ Common lists v
  := List.forall_mem_cons

theorem common_append :
  Common (lists ++ rest) v ↔ Common lists v ∧ Common rest v
  := List.forall_mem_append

/-- Lists without a common element, all of which but the last have one. -/
def Shortest (lists : List (List α)) : Prop :=
  (∃ v, Common lists.dropLast v) ∧ ¬ ∃ v, Common lists v

/-- The lists can be cut into groups, all of which but the last are shortest groups without a common
element, and the last has a common element. -/
inductive Restarts : List (List α) → Prop
  | last {lists rest : List (List α)} (hlists : Shortest lists) (hne : rest ≠ [])
      (hcommon : ∃ v, Common rest v) : Restarts (lists ++ rest)
  | more {lists rest : List (List α)} (hlists : Shortest lists) (hrest : Restarts rest) :
      Restarts (lists ++ rest)

theorem Restarts.not_common (h : Restarts lists) :
  ¬ ∃ v, Common lists v
  := by
  rintro ⟨v, hv⟩
  cases h with
  | last hlists hne hcommon => exact hlists.2 ⟨v, (common_append.mp hv).1⟩
  | more hlists hrest => exact hlists.2 ⟨v, (common_append.mp hv).1⟩

/-- There is a common element, or a shortest group without one at the beginning. -/
theorem exists_shortest [Nonempty α] (h : ¬ ∃ v, Common lists v) :
  ∃ group rest, lists = group ++ rest ∧ Shortest group
  := by
  induction lists using List.reverseRecOn with
  | nil => exact absurd ⟨Classical.arbitrary α, fun l hl => absurd hl List.not_mem_nil⟩ h
  | append_singleton lists l ih =>
      by_cases hcommon : ∃ v, Common lists v
      · refine ⟨lists ++ [l], [], (List.append_nil _).symm, ?_, h⟩
        rwa [List.dropLast_concat]
      · obtain ⟨group, rest, rfl, hgroup⟩ := ih hcommon
        exact ⟨group, rest ++ [l], List.append_assoc _ _ _, hgroup⟩

/-! ### The loop -/

variable [DecidableEq α]

/-- The results of the loop for the answers of the queries. -/
def meet (results : List α) : List (List α) → List α
  | [] => results
  | res :: rest =>
      if res.isEmpty then
        []
      else if results.isEmpty then
        meet res rest
      else
        meet (results.filter (· ∈ res)) rest

theorem meet_nil_cons (h : l ≠ []) :
  meet [] (l :: lists) = meet l lists
  := by
  rw [meet, if_neg (by simpa using h)]
  rfl

theorem meet_cons (hresults : results ≠ []) (h : l ≠ []) :
  meet results (l :: lists) = meet (results.filter (· ∈ l)) lists
  := by rw [meet, if_neg (by simpa using h), if_neg (by simpa using hresults)]

/-- An empty list ends the loop. -/
theorem meet_of_nil_mem (h : [] ∈ lists) :
  meet results lists = []
  := by
  induction lists generalizing results with
  | nil => cases h
  | cons l lists ih =>
      rw [meet]
      split
      · rfl
      · rename_i hl
        have hmem : [] ∈ lists := by
          rcases List.mem_cons.mp h with rfl | hmem
          · exact absurd rfl hl
          · exact hmem
        split
        · exact ih hmem
        · exact ih hmem

/-- With a common element the loop returns the common elements. -/
theorem mem_meet (hv : v ∈ results) (hcommon : Common lists v) {w : α} :
  w ∈ meet results lists ↔ w ∈ results ∧ Common lists w
  := by
  induction lists generalizing results with
  | nil => exact ⟨fun hw => ⟨hw, fun l hl => absurd hl List.not_mem_nil⟩, And.left⟩
  | cons l lists ih =>
      obtain ⟨hl, hlists⟩ := common_cons.mp hcommon
      have hv' : v ∈ results.filter (· ∈ l) := List.mem_filter.mpr ⟨hv, decide_eq_true hl⟩
      rw [meet_cons (List.ne_nil_of_mem hv) (List.ne_nil_of_mem hl), ih hv' hlists, List.mem_filter,
        decide_eq_true_iff, common_cons, and_assoc]

theorem mem_meet_nil (hne : lists ≠ []) (hcommon : Common lists v) {w : α} :
  w ∈ meet [] lists ↔ Common lists w
  := by
  cases lists with
  | nil => exact absurd rfl hne
  | cons l lists =>
      obtain ⟨hl, hlists⟩ := common_cons.mp hcommon
      rw [meet_nil_cons (List.ne_nil_of_mem hl), mem_meet hl hlists, common_cons]

/-- After lists without a common element the loop starts again. -/
theorem meet_append (hv : v ∈ results) (hcommon : Common lists v) (hne : l ≠ [])
    (hnone : ¬ ∃ w ∈ results, Common (lists ++ [l]) w) :
  meet results (lists ++ l :: rest) = meet [] rest
  := by
  induction lists generalizing results with
  | nil =>
      have hempty : results.filter (· ∈ l) = [] := by
        rw [List.filter_eq_nil_iff]
        intro w hw hl
        exact hnone ⟨w, hw, List.forall_mem_singleton.mpr (of_decide_eq_true hl)⟩
      rw [List.nil_append, meet_cons (List.ne_nil_of_mem hv) hne, hempty]
  | cons l' lists ih =>
      obtain ⟨hl', hlists⟩ := common_cons.mp hcommon
      have hv' : v ∈ results.filter (· ∈ l') := List.mem_filter.mpr ⟨hv, decide_eq_true hl'⟩
      rw [List.cons_append, meet_cons (List.ne_nil_of_mem hv) (List.ne_nil_of_mem hl')]
      refine ih hv' hlists ?_
      rintro ⟨w, hw, hcommon'⟩
      obtain ⟨hw, hl'⟩ := List.mem_filter.mp hw
      exact hnone ⟨w, hw, common_cons.mpr ⟨of_decide_eq_true hl', hcommon'⟩⟩

theorem meet_shortest [Nonempty α] (hlists : Shortest lists) (hne : [] ∉ lists) :
  meet [] (lists ++ rest) = meet [] rest
  := by
  obtain ⟨⟨v, hv⟩, hnone⟩ := hlists
  have hlast : lists ≠ [] := by
    rintro rfl
    exact hnone ⟨v, hv⟩
  obtain ⟨init, l, rfl⟩ : ∃ init l, lists = init ++ [l] :=
    ⟨lists.dropLast, lists.getLast hlast, (List.dropLast_append_getLast hlast).symm⟩
  rw [List.dropLast_concat] at hv
  have hl : l ≠ [] := by
    rintro rfl
    exact hne (List.mem_append_right _ List.mem_cons_self)
  rw [List.append_assoc, List.singleton_append]
  cases init with
  | nil =>
      obtain ⟨w, hw⟩ := List.exists_mem_of_ne_nil l hl
      exact absurd ⟨w, List.forall_mem_singleton.mpr hw⟩ hnone
  | cons l' init =>
      obtain ⟨hl', hinit⟩ := common_cons.mp hv
      rw [List.cons_append, meet_nil_cons (List.ne_nil_of_mem hl')]
      refine meet_append hl' hinit hl ?_
      rintro ⟨w, hw, hcommon⟩
      exact hnone ⟨w, common_cons.mpr ⟨hw, hcommon⟩⟩

/-- A loop that has started again returns something. -/
theorem Restarts.meet_ne_nil [Nonempty α] (h : Restarts lists) (hne : [] ∉ lists) :
  meet [] lists ≠ []
  := by
  induction h with
  | @last lists rest hlists hrest hcommon =>
      obtain ⟨v, hv⟩ := hcommon
      rw [meet_shortest hlists fun hmem => hne (List.mem_append_left _ hmem)]
      exact List.ne_nil_of_mem ((mem_meet_nil hrest hv).mpr hv)
  | @more lists rest hlists hrest ih =>
      rw [meet_shortest hlists fun hmem => hne (List.mem_append_left _ hmem)]
      exact ih fun hmem => hne (List.mem_append_right _ hmem)

/-- A loop that does not start again, or has nothing left then, returns the common elements. -/
theorem mem_meet_iff [Nonempty α] (hlists : lists ≠ []) (h : ¬ Restarts lists) :
  v ∈ meet [] lists ↔ Common lists v
  := by
  induction hn : lists.length using Nat.strongRecOn generalizing lists with
  | ind n ih =>
      by_cases hcommon : ∃ w, Common lists w
      · obtain ⟨w, hw⟩ := hcommon
        exact mem_meet_nil hlists hw
      · refine iff_of_false ?_ fun hv => hcommon ⟨v, hv⟩
        by_cases hempty : [] ∈ lists
        · rw [meet_of_nil_mem hempty]
          exact List.not_mem_nil
        · obtain ⟨group, rest, rfl, hgroup⟩ := exists_shortest hcommon
          rw [meet_shortest hgroup fun hmem => hempty (List.mem_append_left _ hmem)]
          by_cases hrest : rest = []
          · rw [hrest]
            exact List.not_mem_nil
          · have hlt : rest.length < n := by
              have hpos : group ≠ [] := by
                rintro rfl
                exact hgroup.2 hgroup.1
              have := List.length_pos_of_ne_nil hpos
              rw [← hn, List.length_append]
              omega
            rw [ih rest.length hlt hrest (fun hrestarts => h (.more hgroup hrestarts)) rfl]
            exact fun hv => h (.last hgroup hrest ⟨v, hv⟩)

/-- The loop returns the common elements if and only if there are lists, and one of them is empty or
the loop does not start again. -/
theorem meet_iff [Nonempty α] :
  (∀ v, v ∈ meet [] lists ↔ Common lists v) ↔ lists ≠ [] ∧ ([] ∈ lists ∨ ¬ Restarts lists)
  := by
  constructor
  · intro h
    constructor
    · rintro rfl
      exact absurd ((h (Classical.arbitrary α)).mpr fun l hl => absurd hl List.not_mem_nil)
        List.not_mem_nil
    · by_contra hnot
      obtain ⟨hempty, hrestarts⟩ := not_or.mp hnot
      have hrestarts := not_not.mp hrestarts
      obtain ⟨v, hv⟩ := List.exists_mem_of_ne_nil _ (hrestarts.meet_ne_nil hempty)
      exact hrestarts.not_common ⟨v, (h v).mp hv⟩
  · rintro ⟨hne, hempty | hrestarts⟩ v
    · rw [meet_of_nil_mem hempty]
      exact iff_of_false List.not_mem_nil fun hv => List.not_mem_nil (hv [] hempty)
    · exact mem_meet_iff hne hrestarts

end

/-! ### Answers -/

section

variable {facts : List Exp} {rules : Rules} {axioms : List Axiom} {fuel fuel' : Nat} {x : String}

theorem processQuery_mono (hle : fuel ≤ fuel') {query : Exp} {res : List Answer}
    (h : processQuery fuel facts rules query = some res) :
  processQuery fuel' facts rules query = some res
  := by
  simp only [processQuery, Option.bind_eq_bind, Option.bind_eq_some_iff] at h ⊢
  obtain ⟨c1, hc1, c2, hc2, c3, hc3, h⟩ := h
  refine ⟨c1, hc1, c2, hc2, c3, hc3, ?_⟩
  split at h
  · rename_i hlower
    rw [if_pos hlower]
    split at h
    · rename_i hground
      rw [if_pos hground]
      exact h
    · rename_i hground
      rw [if_neg hground]
      split at h
      · rename_i hupper
        obtain ⟨result, hresult, rfl⟩ := Option.map_eq_some_iff.mp h
        rw [if_pos hupper, resolveSubqueries_mono hle hresult, Option.map_some]
      · rename_i hupper
        obtain ⟨result, hresult, rfl⟩ := Option.map_eq_some_iff.mp h
        rw [if_neg hupper, resolveSubqueries_mono hle hresult, Option.map_some]
  · rename_i hlower
    rw [if_neg hlower]
    exact h

/-- The answers to a query with a variable are strings. -/
theorem processQuery_values (hx : isVar x = true) {query : Exp}
    (hquery : query.left = x ∨ query.right = x) {res : List Answer}
    (h : processQuery fuel facts rules query = some res) :
  ∃ values : List String, res = values.map .value
  := by
  obtain ⟨c, hc, hupper⟩ := firstChar_of_isVar hx
  have hne := toLower_ne_of_isUpper hupper
  simp only [processQuery, Option.bind_eq_bind, Option.bind_eq_some_iff] at h
  obtain ⟨c1, hc1, c2, hc2, c3, hc3, h⟩ := h
  have hground : ¬ (c2 = c2.toLower ∧ c3 = c3.toLower) := by
    rintro ⟨h2, h3⟩
    rcases hquery with rfl | rfl
    · rw [hc, Option.some.injEq] at hc2
      exact hne (hc2 ▸ h2.symm)
    · rw [hc, Option.some.injEq] at hc3
      exact hne (hc3 ▸ h3.symm)
  rw [if_neg hground] at h
  split at h
  · split at h
    · obtain ⟨result, -, rfl⟩ := Option.map_eq_some_iff.mp h
      exact ⟨result, rfl⟩
    · obtain ⟨result, -, rfl⟩ := Option.map_eq_some_iff.mp h
      exact ⟨result, rfl⟩
  · cases h
    exact ⟨[], rfl⟩

theorem memberString_value (s : String) (values : List String) :
  memberString (.value s) (values.map .value) = some (decide (Answer.value s ∈ values.map .value))
  := by
  induction values with
  | nil => rfl
  | cons value values ih =>
      rw [List.map_cons, memberString]
      by_cases heq : s = value
      · rw [if_pos heq, heq, decide_eq_true List.mem_cons_self]
      · have hne : Answer.value s ≠ .value value := fun h => heq (Answer.value.inj h)
        rw [if_neg heq, ih, Option.some.injEq, decide_eq_decide, List.mem_cons, or_iff_right hne]

theorem queries_value (values values' : List String) :
  queries (values.map .value) (values'.map .value)
    = some ((values.map .value).filter (· ∈ values'.map Answer.value))
  := by
  have haux : ∀ (values : List String) (acc : List Answer),
      (values.map Answer.value).filterAuxM (fun element =>
        memberString element (values'.map .value))
        acc = some (((values.map .value).filter (· ∈ values'.map Answer.value)).reverse
          ++ acc) := by
    intro values
    induction values with
    | nil => exact fun _ => rfl
    | cons value values ih =>
        intro acc
        rw [List.map_cons, List.filterAuxM, memberString_value, Option.bind_eq_bind,
          Option.bind_some,
          ih]
        rw [List.filter_cons]
        cases decide (Answer.value value ∈ values'.map .value) with
        | true => simp
        | false => rfl
  rw [queries, List.filterM, haux, List.append_nil]
  exact congrArg some (List.reverse_reverse _)

/-- The loop returns what it makes of the answers. -/
theorem proveLoop_eq (hx : isVar x = true) {query : List Exp}
    (hquery : ∀ q ∈ query, q.left = x ∨ q.right = x) {answers : Exp → List Answer}
    (hanswers : ∀ q ∈ query, processQuery fuel facts rules q = some (answers q))
    (values : List String) :
  proveLoop fuel facts rules (values.map .value) query
    = some (meet (values.map .value) (query.map answers))
  := by
  induction query generalizing values with
  | nil => rfl
  | cons q query ih =>
      have hrest := ih (fun q hq => hquery q (List.mem_cons_of_mem _ hq))
        fun q hq => hanswers q (List.mem_cons_of_mem _ hq)
      have hq := hanswers q List.mem_cons_self
      obtain ⟨values', hvalues'⟩ := processQuery_values hx (hquery q List.mem_cons_self) hq
      rw [proveLoop, hq, Option.bind_eq_bind, Option.bind_some, List.map_cons, meet, hvalues']
      split
      · rfl
      · split
        · exact hrest values'
        · rw [queries_value, Option.bind_some, List.filter_map]
          exact hrest _

theorem proveLoop_mono (hle : fuel ≤ fuel') {results result : List Answer} {query : List Exp}
    (h : proveLoop fuel facts rules results query = some result) :
  proveLoop fuel' facts rules results query = some result
  := by
  induction query generalizing results with
  | nil => exact h
  | cons q query ih =>
      rw [proveLoop, Option.bind_eq_bind, Option.bind_eq_some_iff] at h ⊢
      obtain ⟨res, hres, h⟩ := h
      refine ⟨res, processQuery_mono hle hres, ?_⟩
      split at h
      · rename_i hempty
        rw [if_pos hempty]
        exact h
      · rename_i hempty
        rw [if_neg hempty]
        split at h
        · rename_i hfirst
          rw [if_pos hfirst]
          exact ih h
        · rename_i hfirst
          rw [if_neg hfirst]
          rw [Option.bind_eq_some_iff] at h ⊢
          obtain ⟨results', hresults', h⟩ := h
          exact ⟨results', hresults', ih h⟩

instance : Nonempty Answer := ⟨.true⟩

/-- The answers to several queries are the common answers if and only if there is a query, and one
of them has no answer or the loop does not start again. -/
theorem prologProve_common_iff (hx : isVar x = true) {query : List Exp}
    (hquery : ∀ q ∈ query, q.left = x ∨ q.right = x) {answers : Exp → List Answer}
    (hanswers : ∀ q ∈ query, ∃ fuel, prologProve fuel axioms [q] = some (answers q)) :
  (∃ fuel result, prologProve fuel axioms query = some result
      ∧ ∀ v, v ∈ result ↔ ∀ q ∈ query, v ∈ answers q)
    ↔ query ≠ [] ∧ ((∃ q ∈ query, answers q = []) ∨ ¬ Restarts (query.map answers))
  := by
  have hfuel : ∀ q ∈ query, ∃ n, ∀ n' ≥ n,
      processQuery n' (factsOf axioms) (rulesOf axioms) q = some (answers q) := by
    intro q hq
    obtain ⟨fuel, h⟩ := hanswers q hq
    rw [prologProve_singleton] at h
    exact ⟨fuel, fun n' hle => processQuery_mono hle h⟩
  obtain ⟨n, hn⟩ := exists_bound hfuel
  have hloop : ∀ n' ≥ n, prologProve n' axioms query = some (meet [] (query.map answers)) :=
    fun n' hle => proveLoop_eq hx hquery (hn n' hle) []
  have hcommon : ∀ v, Common (query.map answers) v ↔ ∀ q ∈ query, v ∈ answers q :=
    fun v => List.forall_mem_map
  have hempty : [] ∈ query.map answers ↔ ∃ q ∈ query, answers q = [] := List.mem_map
  have hne : query.map answers ≠ [] ↔ query ≠ [] := not_congr List.map_eq_nil_iff
  rw [← hempty, ← hne, ← meet_iff]
  simp only [hcommon]
  constructor
  · rintro ⟨fuel, result, hresult, hmem⟩
    have hmax := proveLoop_mono (Nat.le_max_left fuel n) hresult
    rw [← prologProve, hloop _ (Nat.le_max_right fuel n), Option.some.injEq] at hmax
    rwa [hmax]
  · intro hmem
    exact ⟨n, _, hloop n (Nat.le_refl n), hmem⟩

end

def familyAxioms : List Axiom :=
  [⟨⟨"father", "jim", "jill"⟩, []⟩, ⟨⟨"father", "jim", "bob"⟩, []⟩,
    ⟨⟨"mother", "mary", "jill"⟩, []⟩]

theorem prologProve_common_father :
  ∃ fuel result,
    prologProve fuel familyAxioms [⟨"father", "X", "jill"⟩, ⟨"father", "X", "bob"⟩] = some result
      ∧ ∀ v, v ∈ result ↔ ∀ q ∈ [(⟨"father", "X", "jill"⟩ : Exp), ⟨"father", "X", "bob"⟩],
          v ∈ [Answer.value "jim"]
  := by
  have hquery : ∀ q ∈ [(⟨"father", "X", "jill"⟩ : Exp), ⟨"father", "X", "bob"⟩],
      q.left = "X" ∨ q.right = "X" := by decide
  have hanswers : ∀ q ∈ [(⟨"father", "X", "jill"⟩ : Exp), ⟨"father", "X", "bob"⟩],
      ∃ fuel, prologProve fuel familyAxioms [q] = some [.value "jim"] := by
    have hfacts : ∀ q ∈ [(⟨"father", "X", "jill"⟩ : Exp), ⟨"father", "X", "bob"⟩],
        prologProve 1 familyAxioms [q] = some [.value "jim"] := by decide
    exact fun q hq => ⟨1, hfacts q hq⟩
  refine (prologProve_common_iff (by decide) hquery hanswers).mpr ⟨List.cons_ne_nil _ _, .inr ?_⟩
  refine fun h => h.not_common ⟨.value "jim", ?_⟩
  intro l hl
  obtain ⟨q, -, rfl⟩ := List.mem_map.mp hl
  exact List.mem_cons_self

/-- The father is forgotten. -/
theorem prologProve_not_common :
  prologProve 1 familyAxioms
      [⟨"father", "X", "jill"⟩, ⟨"mother", "X", "jill"⟩, ⟨"mother", "X", "jill"⟩]
      = some [.value "mary"]
    ∧ prologProve 1 familyAxioms [⟨"father", "X", "jill"⟩] = some [.value "jim"]
  := by decide

end Prolog
