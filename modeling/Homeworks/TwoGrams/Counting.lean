import Homeworks.TwoGrams.Removal

/-!
# The 2-grams that are counted

The 2-grams in front of the outer loop's index are the different ones that have been seen, with
their numbers of occurrences.  The loop also looks at one element after the data, which is made of
the last integer and of what the array held before.
-/

namespace TwoGrams

open Occurrence

variable {a : Arrays} {i j k t : ℕ} {p : ℤ × ℤ} {seen rest : List (ℤ × ℤ)}

/-! ### The outer loop -/

/-- What the variables hold when some elements have been visited and others are left. -/
structure Holds (seen rest : List (ℤ × ℤ)) (i j : ℕ) (a : Arrays) : Prop where
  index : j = (tally seen).length
  left : i + 1 = j + rest.length
  pairs : ∃ after, a.pairs = seen.eraseDups ++ (rest ++ after)
  counter : ∃ after, a.counter.toList = (tally seen).map (fun entry => (entry.2 : ℤ)) ++ after

theorem Holds.index_lt (h : Holds seen (p :: rest) i j a) : j < SIZE
  := by
  obtain ⟨after, hpairs⟩ := h.pairs
  have hlength := congrArg List.length hpairs
  rw [length_pairs, List.length_append, List.length_append, List.length_cons, ← length_tally,
    ← h.index] at hlength
  omega

/-- The counter of the element that is visited is set to 1. -/
theorem Holds.visit_eq (h : Holds seen (p :: rest) i j a) :
  ∃ a' after, visit i j a = compare 1 i j a' ∧ a'.pairs = a.pairs
    ∧ a'.counter.toList = (tally seen).map (fun entry => (entry.2 : ℤ)) ++ 1 :: after
  := by
  obtain ⟨after, hcounter⟩ := h.counter
  have hlength := congrArg List.length hcounter
  rw [Vector.length_toList, List.length_append, List.length_map, ← h.index] at hlength
  have hlt := h.index_lt
  obtain ⟨c, after, rfl⟩ := List.exists_cons_of_length_pos (show 0 < after.length by omega)
  have hj : j = ((tally seen).map fun entry => (entry.2 : ℤ)).length := by
    rw [List.length_map]
    exact h.index
  obtain ⟨cells, hput, hcells⟩ := exists_put hcounter hj 0
  have hcells' : Arrays.counter { a with counter := cells } = cells := rfl
  rw [← hcells'] at hcells
  obtain ⟨a', hadd, hcounter', hpairs'⟩ := exists_addTo hcells hj 1
  refine ⟨a', after, ?_, hpairs', hcounter'⟩
  rw [visit, hput]
  dsimp only [bind, Option.bind]
  rw [hadd]

theorem Holds.visit_new (h : Holds seen (p :: rest) i j a) (hp : p ∉ seen) :
  ∃ a', visit i j a = some (i, j, a') ∧ Holds (seen ++ [p]) rest i (j + 1) a'
  := by
  obtain ⟨after, hpairs⟩ := h.pairs
  obtain ⟨a', after', hvisit, hpairs', hcounter'⟩ := h.visit_eq
  have hlength : seen.eraseDups.length = j := by
    rw [← length_tally, h.index]
  rw [hpairs] at hpairs'
  refine ⟨a', ?_, ?_, ?_, ⟨after, ?_⟩, ⟨after', ?_⟩⟩
  · rw [hvisit]
    apply compare_new _ _ Nat.one_pos
    · exact p
    · rw [hpairs']
      exact getElem?_middle hlength.symm
    · intro k hk heq
      rw [hpairs', List.getElem?_append_left (by omega)] at heq
      exact hp (List.mem_eraseDups.mp (List.mem_of_getElem? heq))
  · rw [tally_concat_of_not_mem hp, List.length_append, h.index]
    rfl
  · have hleft := h.left
    rw [List.length_cons] at hleft
    omega
  · rw [hpairs', eraseDups_concat_of_not_mem hp, List.append_assoc]
    rfl
  · rw [hcounter', tally_concat_of_not_mem hp, List.map_append, List.append_assoc]
    rfl

/-- What is needed to compare an element that has been seen. -/
theorem Holds.visit_seen (h : Holds seen (p :: rest) i j a) (hp : p ∈ seen) :
  ∃ (a' : Arrays) (before between : List ((ℤ × ℤ) × ℕ)) (c : ℕ) (after : List (ℤ × ℤ))
    (counts : List ℤ),
    visit i j a = compare 1 i j a'
      ∧ tally seen = before ++ (p, c) :: between
      ∧ tally (seen ++ [p]) = before ++ (p, c + 1) :: between
      ∧ j = before.length + 1 + between.length
      ∧ a'.pairs = before.map Prod.fst ++ p :: (between.map Prod.fst ++ p :: (rest ++ after))
      ∧ a'.counter.toList = before.map (fun entry => (entry.2 : ℤ))
        ++ (c : ℤ) :: (between.map (fun entry => (entry.2 : ℤ)) ++ 1 :: counts)
  := by
  obtain ⟨after, hpairs⟩ := h.pairs
  obtain ⟨a', counts, hvisit, hpairs', hcounter'⟩ := h.visit_eq
  obtain ⟨before, between, c, hold, hnew⟩ := tally_concat_of_mem hp
  have hindex := h.index
  rw [hold, List.length_append, List.length_cons] at hindex
  refine ⟨a', before, between, c, after, counts, hvisit, hold, hnew, by omega, ?_, ?_⟩
  · rw [hpairs', hpairs, ← map_fst_tally, hold, List.map_append, List.append_assoc]
    rfl
  · rw [hcounter', hold, List.map_append, List.append_assoc]
    rfl

theorem nodup_of_tally {before between : List ((ℤ × ℤ) × ℕ)} {c : ℕ}
    (h : tally seen = before ++ (p, c) :: between) :
  (before.map Prod.fst ++ p :: between.map Prod.fst).Nodup
  := by
  have hnodup : seen.eraseDups.Nodup := nodup_eraseDups
  rwa [← map_fst_tally, h, List.map_append, List.map_cons] at hnodup

theorem Holds.left_cons (h : Holds seen (p :: rest) i j a) : i = j + rest.length
  := by
  have hleft := h.left
  rw [List.length_cons] at hleft
  omega

/-- A 2-gram that has been seen is removed. -/
theorem Holds.visit_old (h : Holds seen (p :: rest) i j a) (hp : p ∈ seen) (hroom : j + i < SIZE) :
  ∃ i' j' a', visit i j a = some (i', j', a') ∧ Holds (seen ++ [p]) rest i' (j' + 1) a'
  := by
  obtain ⟨a₁, before, between, c, after, counts, hvisit, hold, hnew, hj, hpairs, hcounter⟩ :=
    h.visit_seen hp
  have hlength := congrArg List.length hpairs
  have hi := h.left_cons
  rw [length_pairs] at hlength
  simp only [List.length_append, List.length_cons, List.length_map] at hlength
  have hafter : i ≤ (rest ++ after).length := by
    rw [List.length_append]
    omega
  obtain ⟨a₂, after', hcompare, hcounter', hpairs'⟩ :=
    compare_old hpairs (nodup_of_tally hold) hcounter (by simp only [List.length_map])
      (by simp only [List.length_map]) (by simpa only [List.length_map] using hj) hafter
  refine ⟨i - 1, j - 1, a₂, hvisit.trans hcompare, ?_, ?_, ?_, ?_⟩
  · rw [hnew, List.length_append, List.length_cons]
    omega
  · omega
  · use after.take (i - rest.length) ++ after'
    rw [hpairs', ← map_fst_tally, hnew, List.map_append, List.map_cons,
      List.take_append, List.take_of_length_le (by omega), List.append_assoc rest]
  · use 0 :: counts
    rw [hcounter', hnew, List.map_append, List.map_cons, List.append_assoc]
    simp

theorem Holds.visit_past (h : Holds seen (p :: rest) i j a) (hp : p ∈ seen)
    (hroom : SIZE ≤ j + i) :
  visit i j a = none
  := by
  obtain ⟨a₁, before, between, c, after, counts, hvisit, hold, hnew, hj, hpairs, hcounter⟩ :=
    h.visit_seen hp
  have hlength := congrArg List.length hpairs
  rw [length_pairs] at hlength
  simp only [List.length_append, List.length_cons, List.length_map] at hlength
  have hafter : (rest ++ after).length < i := by
    rw [List.length_append]
    omega
  rw [hvisit]
  exact compare_past hpairs (nodup_of_tally hold) hcounter (by simp only [List.length_map])
    (by simp only [List.length_map]) (by simpa only [List.length_map] using hj) hafter

/-! ### The whole run -/

/-- There is room for all the elements that are moved. -/
def Fits (seen rest : List (ℤ × ℤ)) : Prop :=
  ∀ before p after, rest = before ++ p :: after → p ∈ seen ++ before →
    2 * (seen ++ before).eraseDups.length + after.length < SIZE

theorem fits_cons_iff :
  Fits seen (p :: rest)
    ↔ (p ∈ seen → 2 * seen.eraseDups.length + rest.length < SIZE) ∧ Fits (seen ++ [p]) rest
  := by
  constructor
  · intro h
    constructor
    · intro hp
      have hroom := h [] p rest rfl (by rwa [List.append_nil])
      rwa [List.append_nil] at hroom
    · intro before q after heq hq
      have hroom := h (p :: before) q after (by rw [heq, List.cons_append])
      rw [← List.singleton_append, ← List.append_assoc] at hroom
      exact hroom hq
  · rintro ⟨hfirst, hrest⟩ before q after heq hq
    cases before with
    | nil =>
        obtain ⟨rfl, rfl⟩ := List.cons.inj heq
        rw [List.append_nil] at hq ⊢
        exact hfirst hq
    | cons q' before =>
        obtain ⟨rfl, rfl⟩ := List.cons.inj heq
        rw [← List.singleton_append, ← List.append_assoc] at hq ⊢
        exact hrest before q after rfl hq

theorem mainLoop_of_visit {i' j' : ℕ} {a' : Arrays} (hji : j ≤ i)
    (h : visit i j a = some (i', j', a')) :
  mainLoop i j a = mainLoop i' (j' + 1) a'
  := by
  rw [mainLoop, dif_pos hji]
  split
  · rename_i hnone
    rw [hnone] at h
    cases h
  · rename_i hsome
    rw [hsome] at h
    obtain ⟨rfl, rfl, rfl⟩ := Option.some.inj h
    rfl

theorem mainLoop_eq_none (hji : j ≤ i) (h : visit i j a = none) : mainLoop i j a = none
  := by
  rw [mainLoop, dif_pos hji]
  split
  · rfl
  · rename_i hsome
    rw [hsome] at h
    cases h

/-- The loop visits all the elements if there is room, and leaves the arrays otherwise. -/
theorem Holds.run (h : Holds seen rest i j a) :
  (Fits seen rest → ∃ i' a', mainLoop i j a = some (i', a')
      ∧ Holds (seen ++ rest) [] i' (i' + 1) a')
    ∧ (¬Fits seen rest → mainLoop i j a = none)
  := by
  induction rest generalizing seen i j a with
  | nil =>
      have hleft := h.left
      rw [List.length_nil, Nat.add_zero] at hleft
      constructor
      · intro _
        refine ⟨i, a, ?_, ?_⟩
        · rw [mainLoop, dif_neg (by omega)]
        · rwa [List.append_nil, hleft]
      · intro hfits
        apply absurd _ hfits
        intro before p after heq
        exact absurd heq.symm (List.append_ne_nil_of_right_ne_nil _ (List.cons_ne_nil _ _))
  | cons p rest ih =>
      have hi := h.left_cons
      have hj := h.index
      rw [length_tally] at hj
      have hji : j ≤ i := by omega
      rw [fits_cons_iff]
      by_cases hp : p ∈ seen
      · rcases Nat.lt_or_ge (j + i) SIZE with hroom | hroom
        · obtain ⟨i', j', a', hvisit, hholds⟩ := h.visit_old hp hroom
          obtain ⟨hfits, hpast⟩ := ih hholds
          rw [mainLoop_of_visit hji hvisit]
          rw [← List.append_cons] at hfits
          constructor
          · rintro ⟨-, hrest⟩
            exact hfits hrest
          · intro hnot
            apply hpast
            intro hrest
            exact hnot ⟨fun _ => by omega, hrest⟩
        · have hnone := mainLoop_eq_none hji (h.visit_past hp hroom)
          constructor
          · rintro ⟨hfirst, -⟩
            have hfits := hfirst hp
            omega
          · intro _
            exact hnone
      · obtain ⟨a', hvisit, hholds⟩ := h.visit_new hp
        obtain ⟨hfits, hpast⟩ := ih hholds
        rw [mainLoop_of_visit hji hvisit]
        rw [← List.append_cons] at hfits
        constructor
        · rintro ⟨-, hrest⟩
          exact hfits hrest
        · intro hnot
          apply hpast
          intro hrest
          exact hnot ⟨fun hmem => absurd hmem hp, hrest⟩

/-! ### Reading and writing -/

theorem exists_readRest {input : List ℤ} {before after : List (ℤ × ℤ)} {x g g' : ℤ}
    (hpairs : a.pairs = before ++ (x, g) :: after) (hi : i = before.length)
    (hg : (g :: after.map Prod.snd)[input.length]? = some g') :
  ∃ a' after', readRest input i a = some (i + input.length, a')
    ∧ a'.pairs = before ++ (twoGrams (x :: input)
      ++ ((x :: input).getLast (List.cons_ne_nil x input), g') :: after')
  := by
  induction input generalizing x g before after i a with
  | nil =>
      obtain rfl := Option.some.inj hg
      exact ⟨a, after, rfl, hpairs⟩
  | cons y input ih =>
      cases after with
      | nil => cases hg
      | cons q after =>
          obtain ⟨cells₂, hput₂, h₂⟩ := exists_put₂ hpairs hi y
          rw [List.append_cons] at h₂
          have hi' : i + 1 = (before ++ [(x, y)]).length := by
            rw [List.length_append, hi]
            rfl
          obtain ⟨cells₁, hput₁, h₁⟩ := exists_put₁ h₂ hi' y
          obtain ⟨a', after', hread, hpairs'⟩ := ih h₁ hi' hg
          refine ⟨a', after', ?_, ?_⟩
          · rw [readRest, hput₂]
            dsimp only [bind, Option.bind] at hput₁ ⊢
            rw [hput₁]
            dsimp only
            rw [hread, List.length_cons, Nat.add_right_comm, Nat.add_assoc]
          · rw [hpairs', ← List.append_cons]
            rfl

/-- The element after the data: the last integer, and what the array held. -/
def pastEnd (input : List ℤ) (a : Arrays) : Option (ℤ × ℤ) := do
  let x ← input.getLast?
  let y ← a.twoGram2[input.length - 1]?
  return (x, y)

theorem exists_readInput {input : List ℤ} (hpos : 0 < input.length) (hmax : input.length ≤ SIZE) :
  ∃ p a', pastEnd input a = some p ∧ readInput input a = some (input.length - 1, a')
    ∧ Holds [] (twoGrams input ++ [p]) (input.length - 1) 0 a'
  := by
  cases input with
  | nil => exact absurd hpos (Nat.lt_irrefl 0)
  | cons x input =>
      rw [List.length_cons] at hmax
      have hlength : a.pairs.length = SIZE := length_pairs
      obtain ⟨q, after, hpairs⟩ := List.exists_cons_of_length_pos
        (show 0 < a.pairs.length by rw [hlength]; exact Nat.zero_lt_of_lt hmax)
      rw [← List.nil_append (q :: after)] at hpairs
      obtain ⟨cells, hput, h₁⟩ := exists_put₁ hpairs rfl x
      have hsnd : a.twoGram2.toList = q.2 :: after.map Prod.snd := by
        have hzip := congrArg (List.map Prod.snd) hpairs
        rwa [Arrays.pairs, List.map_snd_zip (by simp)] at hzip
      obtain ⟨g, hg⟩ : ∃ g, a.twoGram2[input.length]? = some g :=
        ⟨_, Vector.getElem?_eq_getElem hmax⟩
      have hg' : (q.2 :: after.map Prod.snd)[input.length]? = some g := by
        rw [← hsnd, Vector.getElem?_toList, hg]
      obtain ⟨a', after', hread, hpairs'⟩ := exists_readRest h₁ rfl hg'
      rw [List.length_nil, Nat.zero_add] at hread
      refine ⟨((x :: input).getLast (List.cons_ne_nil x input), g), a', ?_, ?_, rfl, ?_, ?_, ?_⟩
      · rw [pastEnd, List.getLast?_eq_getLast_of_ne_nil (List.cons_ne_nil x input),
          List.length_cons, Nat.add_sub_cancel, hg]
        rfl
      · rw [List.length_nil] at hput
        rw [readInput, hput]
        exact hread
      · rw [List.length_append, twoGrams, List.length_zip]
        simp
      · use after'
        rw [hpairs', List.append_assoc]
        rfl
      · exact ⟨_, rfl⟩

theorem writeLines_eq (h : k + t ≤ SIZE) :
  writeLines t k a = some (((a.pairs.zip a.counter.toList).drop k).take t)
  := by
  induction t generalizing k with
  | zero => rfl
  | succ t ih =>
      have hlt : k < SIZE := by omega
      have hlength : (a.pairs.zip a.counter.toList).length = SIZE := by
        rw [List.length_zip, length_pairs, Vector.length_toList, Nat.min_self]
      have hlt' : k < a.pairs.length := Nat.lt_of_lt_of_eq hlt length_pairs.symm
      have hp : a.pairs[k]? = some a.pairs[k] := List.getElem?_eq_getElem hlt'
      rw [writeLines, pair?_eq_some hp, Vector.getElem?_eq_getElem hlt, ih (by omega),
        List.drop_eq_getElem_cons (Nat.lt_of_lt_of_eq hlt hlength.symm), List.take_succ_cons,
          List.getElem_zip]
      rfl

/-! ### The program -/

/-- The numbers that are written are those that have been counted, but for the last one. -/
theorem Holds.writeLines_eq (h : Holds seen [] i (i + 1) a) :
  writeLines i 0 a = some (((tally seen).map fun (p, c) => (p, (c : ℤ))).take i)
  := by
  obtain ⟨after, hpairs⟩ := h.pairs
  obtain ⟨after', hcounter⟩ := h.counter
  have hindex := h.index
  have hlength := congrArg List.length hpairs
  rw [length_pairs, List.length_append, ← length_tally, ← hindex] at hlength
  rw [TwoGrams.writeLines_eq (by omega), hpairs, hcounter, List.nil_append, List.drop_zero,
    ← map_fst_tally, List.zip_append (by rw [List.length_map, List.length_map]), List.zip_map',
    List.take_append_of_le_length (by rw [List.length_map]; omega)]

/-- There is room for the 2-grams that are moved when one that repeats an earlier one is removed:
those before it once more, and those from it on. -/
def Room (pairs : List (ℤ × ℤ)) : Prop :=
  ∀ before p after, pairs = before ++ p :: after → p ∈ before →
    2 * before.eraseDups.length + after.length + 1 < SIZE

theorem fits_concat_iff {pairs : List (ℤ × ℤ)} (hp : p ∉ pairs) :
  Fits [] (pairs ++ [p]) ↔ Room pairs
  := by
  constructor
  · intro h before q after heq hq
    have hroom := h before q (after ++ [p]) (by rw [heq, List.append_assoc]; rfl) hq
    rwa [List.length_append] at hroom
  · intro h before q after heq hq
    rcases List.eq_nil_or_concat' after with rfl | ⟨after, q', rfl⟩
    · obtain ⟨rfl, hlast⟩ := List.append_inj' heq rfl
      obtain rfl := List.head_eq_of_cons_eq hlast
      exact absurd hq hp
    · rw [← List.cons_append, ← List.append_assoc] at heq
      obtain ⟨rfl, -⟩ := List.append_inj' heq rfl
      have hroom := h before q after rfl hq
      rw [List.length_append]
      exact hroom

theorem main_eq {input : List ℤ} (hpos : 0 < input.length) (hmax : input.length ≤ SIZE) :
  ∃ p, pastEnd input a = some p
    ∧ (Fits [] (twoGrams input ++ [p]) → main input a
      = some (((tally (twoGrams input ++ [p])).map fun (p, c) => (p, (c : ℤ))).take
        ((tally (twoGrams input ++ [p])).length - 1)))
    ∧ (¬Fits [] (twoGrams input ++ [p]) → main input a = none)
  := by
  obtain ⟨p, a₁, hp, hread, hholds⟩ := exists_readInput (a := a) hpos hmax
  obtain ⟨hfits, hpast⟩ := hholds.run
  refine ⟨p, hp, ?_, ?_⟩
  · intro h
    obtain ⟨i', a₂, hloop, hholds'⟩ := hfits h
    have hindex := hholds'.index
    rw [List.nil_append] at hindex hholds'
    rw [main, hread]
    dsimp only [bind, Option.bind]
    rw [hloop]
    dsimp only
    rw [hholds'.writeLines_eq, ← hindex, Nat.add_sub_cancel]
  · intro h
    rw [main, hread]
    dsimp only [bind, Option.bind]
    rw [hpast h]

/-- A file of at most 51 integers has that room. -/
theorem room_of_le {pairs : List (ℤ × ℤ)} (h : 2 * pairs.length ≤ SIZE) : Room pairs
  := by
  rintro before p after rfl hp
  have hsubset : before.eraseDups ⊆ before := fun q hq => List.mem_eraseDups.mp hq
  have hle := (List.subperm_of_subset nodup_eraseDups hsubset).length_le
  rw [List.length_append, List.length_cons] at h
  omega

/-- The program writes the different 2-grams in the order of their first occurrences, with their
numbers of occurrences, if and only if there is room when 2-grams are removed and what the array
holds after the data is not taken for one of them. -/
theorem main_eq_counts_iff (input : List ℤ) (hmin : 2 ≤ input.length) (hmax : input.length ≤ SIZE)
    (a : Arrays) :
  main input a = some (counts input)
    ↔ Room (twoGrams input) ∧ ∀ p, pastEnd input a = some p → p ∉ twoGrams input
  := by
  obtain ⟨p, hp, hfits, hpast⟩ := main_eq (a := a) (Nat.zero_lt_of_lt hmin) hmax
  by_cases hmem : p ∈ twoGrams input
  · constructor
    · intro hmain
      by_cases h : Fits [] (twoGrams input ++ [p])
      · -- one line is missing
        have hlength := congrArg List.length (Option.some.inj ((hfits h).symm.trans hmain))
        have hsame := eraseDups_concat_of_mem hmem
        rw [counts, List.length_take, List.length_map, List.length_map, length_tally, length_tally,
          hsame] at hlength
        have hpos := List.length_pos_of_mem (List.mem_eraseDups.mpr hmem)
        omega
      · rw [hpast h] at hmain
        cases hmain
    · intro h
      exact absurd hmem (h.2 p hp)
  · have hcond : (∀ q, pastEnd input a = some q → q ∉ twoGrams input) := by
      intro q hq
      rw [hp] at hq
      rwa [← Option.some.inj hq]
    rw [← fits_concat_iff hmem]
    constructor
    · intro hmain
      refine ⟨?_, hcond⟩
      by_contra h
      rw [hpast h] at hmain
      cases hmain
    · rintro ⟨h, -⟩
      rw [hfits h, tally_concat_of_not_mem hmem, List.map_append, List.length_append,
        List.length_singleton, Nat.add_sub_cancel,
        List.take_append_of_le_length (by rw [List.length_map]), List.take_of_length_le
        (by rw [List.length_map]), counts]

theorem main_five_integers :
  main [1, 2, 1, 2, 3] ⟨Vector.replicate SIZE 7, Vector.replicate SIZE 7, Vector.replicate SIZE 7⟩
    = some [((1, 2), 2), ((2, 1), 1), ((2, 3), 1)]
  := (main_eq_counts_iff [1, 2, 1, 2, 3] (by decide) (by decide) _).mpr
    ⟨room_of_le (by decide), fun p hp => by
      obtain rfl := Option.some.inj hp
      decide⟩

/-- The second of 99 equal 2-grams is removed by moving an element from outside the arrays. -/
theorem hundred_zeros :
  ¬ ∀ input : List ℤ, 2 ≤ input.length → input.length ≤ SIZE → ∀ a : Arrays,
    main input a = some (counts input)
  := by
  intro h
  have hmain := h (List.replicate 100 0) (by decide) (by decide)
    ⟨Vector.replicate SIZE 7, Vector.replicate SIZE 7, Vector.replicate SIZE 7⟩
  obtain ⟨p, -, -, hpast⟩ := main_eq (a := ⟨Vector.replicate SIZE 7, Vector.replicate SIZE 7,
    Vector.replicate SIZE 7⟩) (show 0 < (List.replicate 100 (0 : ℤ)).length by decide) (by decide)
  rw [hpast] at hmain
  · cases hmain
  · intro hfits
    have hroom := hfits [(0, 0)] (0, 0) (List.replicate 97 (0, 0) ++ [p]) rfl
      (List.mem_singleton_self _)
    rw [List.length_append, List.length_replicate, List.length_singleton] at hroom
    exact absurd hroom (by decide)

end TwoGrams
