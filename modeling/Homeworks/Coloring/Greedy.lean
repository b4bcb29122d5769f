import Mathlib.Data.Finset.Card
import Mathlib.Data.Finset.Lattice.Basic

/-!
# Greedy colouring

Vertices are taken one after the other, and each is put into the first colour that contains
none of its neighbours.  The colours are finite sets, and the neighbours of a vertex are given
by a function.
-/

namespace Coloring

variable {V : Type*} [DecidableEq V] (adj : V → Finset V)

/-- A vertex is put into the first colour without neighbours of it. -/
def place (v : V) : List (Finset V) → List (Finset V)
  | [] => [{v}]
  | c :: cs => if Disjoint c (adj v) then insert v c :: cs else c :: place v cs

def greedy (vs : List V) : List (Finset V) := vs.foldl (fun cs v => place adj v cs) []

/-- Some vertices are coloured: every one is in exactly one colour, none of which is empty or
contains two neighbours. -/
structure IsColoring (vs : List V) (cs : List (Finset V)) : Prop where
  nonempty : ∀ c ∈ cs, c.Nonempty
  proper : ∀ c ∈ cs, ∀ u ∈ c, Disjoint c (adj u)
  disjoint : cs.Pairwise Disjoint
  cover : ∀ v, (∃ c ∈ cs, v ∈ c) ↔ v ∈ vs

variable {adj} {vs : List V} {cs : List (Finset V)} {v w : V} {c s : Finset V}

/-- A vertex is put into a colour if the colours before it contain neighbours. -/
theorem place_eq_modify {k : Nat} (hk : k < cs.length) (hdisjoint : Disjoint cs[k] (adj v))
    (hbefore : ∀ j (hj : j < k), ¬ Disjoint cs[j] (adj v)) :
  place adj v cs = cs.modify k (insert v)
  := by
  induction cs generalizing k with
  | nil => cases hk
  | cons d cs ih =>
      rw [place]
      cases k with
      | zero =>
          have hd : Disjoint d (adj v) := hdisjoint
          rw [if_pos hd]
          rfl
      | succ k =>
          have hd : ¬ Disjoint d (adj v) := hbefore 0 (Nat.succ_pos k)
          rw [if_neg hd, List.modify_succ_cons]
          congr 1
          apply ih (Nat.lt_of_succ_lt_succ hk) hdisjoint
          intro j hj
          exact hbefore (j + 1) (Nat.succ_lt_succ hj)

/-- A vertex gets a new colour if all colours contain neighbours. -/
theorem place_eq_append (h : ∀ c ∈ cs, ¬ Disjoint c (adj v)) :
  place adj v cs = cs ++ [{v}]
  := by
  induction cs with
  | nil => rfl
  | cons d cs ih =>
      obtain ⟨hd, hcs⟩ := List.forall_mem_cons.mp h
      rw [place, if_neg hd, ih hcs]
      rfl

/-- A colour is one that was there before, or contains the vertex and otherwise what is not
adjacent to it. -/
theorem of_mem_place (h : c ∈ place adj v cs) :
  c ∈ cs ∨ ∃ c', (c' = ∅ ∨ c' ∈ cs) ∧ Disjoint c' (adj v) ∧ c = insert v c'
  := by
  induction cs with
  | nil =>
      rw [place, List.mem_singleton] at h
      exact .inr ⟨∅, .inl rfl, Finset.disjoint_empty_left _, h⟩
  | cons d cs ih =>
      rw [place] at h
      split at h
      · rename_i hdisjoint
        rcases List.mem_cons.mp h with rfl | h
        · exact .inr ⟨d, .inr List.mem_cons_self, hdisjoint, rfl⟩
        · exact .inl (List.mem_cons_of_mem _ h)
      · rcases List.mem_cons.mp h with rfl | h
        · exact .inl List.mem_cons_self
        · rcases ih h with h | ⟨c', hc', hdisjoint, rfl⟩
          · exact .inl (List.mem_cons_of_mem _ h)
          · exact .inr ⟨c', hc'.imp_right (List.mem_cons_of_mem _), hdisjoint, rfl⟩

/-- The vertices that are coloured are those from before and the one that is placed. -/
theorem cover_place :
  (∃ c ∈ place adj v cs, w ∈ c) ↔ (∃ c ∈ cs, w ∈ c) ∨ w = v
  := by
  induction cs with
  | nil => simp [place]
  | cons d cs ih =>
      rw [place]
      split
      · simp only [List.exists_mem_cons_iff, Finset.mem_insert]
        rw [or_assoc, or_comm]
      · simp only [List.exists_mem_cons_iff, ih]
        rw [or_assoc]

theorem disjoint_place (hcs : cs.Pairwise Disjoint) (hv : ∀ c ∈ cs, v ∉ c) :
  (place adj v cs).Pairwise Disjoint
  := by
  induction cs with
  | nil => exact List.pairwise_singleton _ _
  | cons d cs ih =>
      obtain ⟨hd, hcs⟩ := List.pairwise_cons.mp hcs
      have hvd := hv d List.mem_cons_self
      have hvcs : ∀ c ∈ cs, v ∉ c := fun c hc => hv c (List.mem_cons_of_mem _ hc)
      rw [place]
      split
      · rw [List.pairwise_cons]
        refine ⟨?_, hcs⟩
        intro c hc
        rw [Finset.disjoint_insert_left]
        exact ⟨hvcs c hc, hd c hc⟩
      · rw [List.pairwise_cons]
        refine ⟨?_, ih hcs hvcs⟩
        intro c hc
        rcases of_mem_place hc with hc | ⟨c', hc', -, rfl⟩
        · exact hd c hc
        · rw [Finset.disjoint_insert_right]
          refine ⟨hvd, ?_⟩
          rcases hc' with rfl | hc'
          · exact Finset.disjoint_empty_right _
          · exact hd c' hc'

omit [DecidableEq V] in
/-- A vertex that is coloured is in one colour only. -/
theorem IsColoring.existsUnique (h : IsColoring adj vs cs) (hv : v ∈ vs) :
  ∃! i : Fin cs.length, v ∈ cs[i]
  := by
  obtain ⟨c, hc, hvc⟩ := (h.cover v).mpr hv
  obtain ⟨i, hi, rfl⟩ := List.mem_iff_getElem.mp hc
  refine ⟨⟨i, hi⟩, hvc, ?_⟩
  intro j hj
  by_contra hne
  have hpairwise := List.pairwise_iff_getElem.mp h.disjoint
  rcases Nat.lt_or_gt_of_ne fun heq => hne (Fin.ext heq) with hlt | hgt
  · exact Finset.disjoint_left.mp (hpairwise j.val i j.isLt hi hlt) hj hvc
  · exact Finset.disjoint_left.mp (hpairwise i j.val hi j.isLt hgt) hvc hj

/-- A set that meets disjoint colours has at least as many elements. -/
theorem length_le_card (hcs : cs.Pairwise Disjoint) (hs : ∀ c ∈ cs, ¬ Disjoint c s) :
  cs.length ≤ s.card
  := by
  induction cs generalizing s with
  | nil => exact Nat.zero_le _
  | cons c cs ih =>
      obtain ⟨hc, hcs⟩ := List.pairwise_cons.mp hcs
      have hmeets : (s ∩ c).Nonempty := by
        rw [Finset.nonempty_iff_ne_empty, ne_eq, ← Finset.disjoint_iff_inter_eq_empty,
          disjoint_comm]
        exact hs c List.mem_cons_self
      have hrest : ∀ c' ∈ cs, ¬ Disjoint c' (s \ c) := by
        intro c' hc'
        obtain ⟨u, hu, hus⟩ := Finset.not_disjoint_iff.mp (hs c' (List.mem_cons_of_mem _ hc'))
        rw [Finset.not_disjoint_iff]
        refine ⟨u, hu, Finset.mem_sdiff.mpr ⟨hus, ?_⟩⟩
        exact fun huc => Finset.disjoint_left.mp (hc c' hc') huc hu
      calc
        (c :: cs).length = cs.length + 1 := rfl
        _ ≤ (s \ c).card + (s ∩ c).card := Nat.add_le_add (ih hcs hrest) hmeets.card_pos
        _ = s.card := Finset.card_sdiff_add_card_inter s c

/-- A new colour is only made if every colour contains a neighbour. -/
theorem length_place (hcs : cs.Pairwise Disjoint) :
  (place adj v cs).length ≤ max cs.length ((adj v).card + 1)
  := by
  have hplace : ∀ cs : List (Finset V), (place adj v cs).length = cs.length
      ∨ (place adj v cs).length = cs.length + 1 ∧ ∀ c ∈ cs, ¬ Disjoint c (adj v) := by
    intro cs
    induction cs with
    | nil => exact .inr ⟨rfl, by simp⟩
    | cons d cs ih =>
        rw [place]
        split
        · exact .inl rfl
        · rename_i hd
          rcases ih with hlength | ⟨hlength, hmeets⟩
          · exact .inl (congrArg (· + 1) hlength)
          · exact .inr ⟨congrArg (· + 1) hlength, List.forall_mem_cons.mpr ⟨hd, hmeets⟩⟩
  rcases hplace cs with hlength | ⟨hlength, hmeets⟩
  · exact hlength.le.trans (le_max_left _ _)
  · have hcard := length_le_card hcs hmeets
    omega

/-- A vertex that has not been coloured is coloured. -/
theorem IsColoring.place (hsymm : ∀ u w, w ∈ adj u → u ∈ adj w) (hloop : v ∉ adj v)
    (h : IsColoring adj vs cs) (hv : v ∉ vs) :
  IsColoring adj (vs ++ [v]) (place adj v cs)
  := by
  have hnew : ∀ c ∈ cs, v ∉ c := by
    intro c hc hvc
    exact hv ((h.cover v).mp ⟨c, hc, hvc⟩)
  constructor
  · intro c hc
    rcases of_mem_place hc with hc | ⟨c', -, -, rfl⟩
    · exact h.nonempty c hc
    · exact Finset.insert_nonempty v c'
  · intro c hc u hu
    rcases of_mem_place hc with hc | ⟨c', hc', hdisjoint, rfl⟩
    · exact h.proper c hc u hu
    · rw [Finset.disjoint_insert_left]
      rcases Finset.mem_insert.mp hu with rfl | hu
      · exact ⟨hloop, hdisjoint⟩
      · constructor
        · exact fun hvu => Finset.disjoint_left.mp hdisjoint hu (hsymm u v hvu)
        · rcases hc' with rfl | hc'
          · exact absurd hu (Finset.notMem_empty u)
          · exact h.proper c' hc' u hu
  · exact disjoint_place h.disjoint hnew
  · intro w
    rw [cover_place, h.cover, List.mem_append, List.mem_singleton]

theorem greedy_append_singleton :
  greedy adj (vs ++ [v]) = place adj v (greedy adj vs)
  := List.foldl_append

/-- Vertices without loops are coloured. -/
theorem greedy_isColoring (hsymm : ∀ u w, w ∈ adj u → u ∈ adj w) (hloop : ∀ v ∈ vs, v ∉ adj v)
    (hvs : vs.Nodup) :
  IsColoring adj vs (greedy adj vs)
  := by
  induction vs using List.reverseRecOn with
  | nil => exact ⟨by simp [greedy], by simp [greedy], by simp [greedy], by simp [greedy]⟩
  | append_singleton vs v ih =>
      rw [List.nodup_append] at hvs
      rw [greedy_append_singleton]
      apply IsColoring.place hsymm (hloop v (by simp))
      · exact ih (fun w hw => hloop w (List.mem_append_left _ hw)) hvs.1
      · intro hv
        exact hvs.2.2 v hv v (List.mem_singleton_self v) rfl

/-- There is at most one colour more than a vertex has neighbours. -/
theorem length_greedy (hsymm : ∀ u w, w ∈ adj u → u ∈ adj w) (hloop : ∀ v ∈ vs, v ∉ adj v)
    (hvs : vs.Nodup) {d : Nat} (hd : ∀ v ∈ vs, (adj v).card ≤ d) :
  (greedy adj vs).length ≤ d + 1
  := by
  induction vs using List.reverseRecOn with
  | nil => exact Nat.zero_le _
  | append_singleton vs v ih =>
      rw [List.nodup_append] at hvs
      have hloop' : ∀ w ∈ vs, w ∉ adj w := fun w hw => hloop w (List.mem_append_left _ hw)
      rw [greedy_append_singleton]
      have hlength : (place adj v (greedy adj vs)).length
          ≤ max (greedy adj vs).length ((adj v).card + 1) :=
        length_place (greedy_isColoring hsymm hloop' hvs.1).disjoint
      have hcard := hd v (by simp)
      have hbefore := ih hloop' hvs.1 fun w hw => hd w (List.mem_append_left _ hw)
      omega

end Coloring
