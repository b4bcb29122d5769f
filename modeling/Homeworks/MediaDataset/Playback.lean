import Homeworks.MediaDataset.Mirror

/-!
# What is played

An observer remembers the item it is at as an index of its list only, and its list is made anew
whenever the dataset notifies it.  So what is played stays the same where nothing before it in
the list is removed.
-/

namespace MediaDataset

/-! ### The item at the current index -/

namespace ObserverState

variable {o : ObserverState} {kind : ObserverKind} {media : List Media} {obj : Media}

/-- `currently_playing` and `currently_viewing`, nothing if they throw an exception. -/
def currentlyPlaying (o : ObserverState) : Option Item :=
  if o.list.length ≤ 1 then some none else get o.list o.currentIndex

/-- No item before the current one is the medium, or the item after the current one is the same as
the current one. -/
def Unmoved (o : ObserverState) (obj : Media) : Prop :=
  some obj ∉ o.list.take o.currentIndex.toNat
    ∨ o.list[o.currentIndex.toNat + 1]? = o.list[o.currentIndex.toNat]?

instance (o : ObserverState) (obj : Media) : Decidable (o.Unmoved obj) :=
  inferInstanceAs (Decidable (_ ∨ _))

theorem currentlyPlaying_eq (h : o.Inside) (hhead : o.list.head? = some none) :
  o.currentlyPlaying = o.list[o.currentIndex.toNat]?
  := by
  obtain ⟨h₀, hlt⟩ := h
  rw [currentlyPlaying]
  split
  next hlength =>
    have hindex : o.currentIndex.toNat = 0 := by omega
    rw [hindex, ← List.head?_eq_getElem?, hhead]
  next => rw [get, if_pos h₀]

theorem head_listOf : (listOf kind media).head? = some none := rfl

theorem listOf_concat :
  listOf kind (media ++ [obj])
    = listOf kind media ++ if kind.handles obj then [some obj] else []
  := by
  rw [listOf, listOf, List.filter_append, List.map_append, List.cons_append]
  cases h : kind.handles obj <;> simp [h]

/-- The list without a medium is that of the media without it. -/
theorem listOf_erase :
  listOf kind (media.erase obj) = (listOf kind media).erase (some obj)
  := by
  rw [listOf, listOf, List.erase_cons_tail (by simp), ← List.erase_filter,
    List.map_erase (Option.some_injective Media)]

/-- What an observer plays when it has been told of some media. -/
theorem currentlyPlaying_update (h : o.Inside) :
  (o.update kind media).currentlyPlaying
    = if o.currentIndex.toNat < (listOf kind media).length
      then (listOf kind media)[o.currentIndex.toNat]? else some none
  := by
  have h₀ := h.1
  rw [currentlyPlaying_eq h.update head_listOf, update]
  dsimp only
  split
  next hle =>
    rw [if_neg (by omega)]
    rfl
  next hlt => rw [if_pos (by omega)]

/-- An item that is added is behind all others. -/
theorem currentlyPlaying_concat (h : o.Inside) (hlist : o.list = listOf kind media) :
  (o.update kind (media ++ [obj])).currentlyPlaying = o.currentlyPlaying
  := by
  have hlt : o.currentIndex.toNat < (listOf kind media).length := by
    have h₀ := h.1
    have h₁ := h.2
    rw [hlist] at h₁
    omega
  rw [currentlyPlaying_update h, currentlyPlaying_eq h (hlist ▸ head_listOf), hlist, listOf_concat,
    if_pos (by rw [List.length_append]; omega), List.getElem?_append_left hlt]

/-- An item that is removed moves those behind it. -/
theorem getElem?_erase_of_mem {list : List Item} {item : Item} {i : ℕ}
    (h : item ∈ list.take (i + 1)) :
  (list.erase item)[i]? = list[i + 1]?
  := by
  induction list generalizing i with
  | nil => cases h
  | cons first list ih =>
      rw [List.getElem?_cons_succ]
      rcases eq_or_ne first item with rfl | hne
      · rw [List.erase_cons_head]
      · rw [List.erase_cons_tail (by simpa using hne)]
        rw [List.take_succ_cons, List.mem_cons, or_iff_right hne.symm] at h
        cases i with
        | zero => cases h
        | succ i => rw [List.getElem?_cons_succ, ih h]

theorem getElem?_erase_of_notMem {list : List Item} {item : Item} {i : ℕ}
    (h : item ∉ list.take (i + 1)) :
  (list.erase item)[i]? = list[i]?
  := by
  induction list generalizing i with
  | nil => rfl
  | cons first list ih =>
      rw [List.take_succ_cons, List.mem_cons, not_or] at h
      rw [List.erase_cons_tail (by simpa using Ne.symm h.1)]
      cases i with
      | zero => rfl
      | succ i => rw [List.getElem?_cons_succ, ih h.2, List.getElem?_cons_succ]

/-- Behind the item that stands for no medium there are media only. -/
theorem getElem?_listOf_succ (i : ℕ) :
  (listOf kind media)[i + 1]? ≠ some none
  := by
  rw [listOf, List.getElem?_cons_succ, List.getElem?_map]
  intro hnone
  obtain ⟨obj, -, hobj⟩ := Option.map_eq_some_iff.mp hnone
  cases hobj

/-- What is played when another medium has been removed. -/
theorem currentlyPlaying_erase (h : o.Inside) (hlist : o.list = listOf kind media)
    (hne : o.currentlyPlaying ≠ some (some obj)) :
  (o.update kind (media.erase obj)).currentlyPlaying = o.currentlyPlaying ↔ o.Unmoved obj
  := by
  have hcurrent := currentlyPlaying_eq h (hlist ▸ head_listOf)
  rw [hcurrent] at hne ⊢
  have hlt : o.currentIndex.toNat < o.list.length := by
    have h₀ := h.1
    have h₁ := h.2
    omega
  rw [currentlyPlaying_update h, listOf_erase, ← hlist, Unmoved]
  generalize o.currentIndex.toNat = i at hne hlt ⊢
  have hnotMem : some obj ∉ o.list.take i → some obj ∉ o.list.take (i + 1) := by
    intro hnotMem
    rw [List.take_add_one, List.mem_append, or_iff_right hnotMem]
    simpa using hne
  by_cases hmem : some obj ∈ o.list.take i
  · -- the items behind the medium have moved
    have hmem' : some obj ∈ o.list.take (i + 1) :=
      List.take_subset_take_left _ (Nat.le_succ i) hmem
    rw [getElem?_erase_of_mem hmem', List.length_erase_of_mem (List.mem_of_mem_take hmem),
      or_iff_right (not_not_intro hmem)]
    split
    next => exact Iff.rfl
    next hlast =>
      obtain ⟨i, rfl⟩ : ∃ k, i = k + 1 := Nat.exists_eq_succ_of_ne_zero fun hzero => by
        rw [hzero] at hmem
        cases hmem
      have hcurrent : (listOf kind media)[i + 1]? ≠ some none := getElem?_listOf_succ i
      rw [← hlist] at hcurrent
      rw [List.getElem?_eq_none (by omega : o.list.length ≤ i + 1 + 1)]
      refine iff_of_false hcurrent.symm fun hnone => ?_
      rw [List.getElem?_eq_getElem hlt] at hnone
      cases hnone
  · have hget := getElem?_erase_of_notMem (hnotMem hmem)
    have hlt' : i < (o.list.erase (some obj)).length := by
      rw [List.getElem?_eq_getElem hlt] at hget
      exact (List.getElem?_eq_some_iff.mp hget).1
    rw [if_pos hlt', hget]
    exact iff_of_true rfl (.inl hmem)

/-- At the start of the list no medium is played, whatever the media are. -/
theorem currentlyPlaying_update_of_zero (h : o.Inside) (hindex : o.currentIndex = 0) :
  (o.update kind media).currentlyPlaying = some none
  := by
  rw [currentlyPlaying_update h, hindex, if_pos (by rw [listOf]; simp)]
  rfl

end ObserverState

/-! ### Runs -/

/-- An observer that is registered shows the dataset, or it has not been told of it and is at the
start of its list. -/
theorem shown_or_blank {calls : List Call} {s : State} (hrun : run calls = some s) {o : Observer}
    (ho : o ∈ s.observers) :
  (s.states o).Inside ∧ ((s.states o).list = ObserverState.listOf o.kind s.media
    ∨ (s.states o).list = [none] ∧ (s.states o).currentIndex = 0)
  := by
  obtain ⟨s', hrun', hs⟩ := sound_new.run calls
  obtain rfl : s' = s := Option.some.inj (hrun'.symm.trans hrun)
  refine ⟨hs.inside o, ?_⟩
  by_cases htold : o ∈ (history calls).told
  · exact .inl (hs.shown o htold)
  · obtain ⟨h₀, hlt⟩ := hs.inside o
    have hblank := hs.blank o htold
    rw [hblank, List.length_singleton] at hlt
    exact .inr ⟨hblank, by omega⟩

/-- In every state that is reached adding a medium leaves what a registered observer plays, and
removing a medium that it does not play leaves it if and only if no item before the current one is
that medium or the item after the current one is the same. -/
theorem currentlyPlaying_iff {calls : List Call} {s : State} (hrun : run calls = some s)
    {o : Observer} (ho : o ∈ s.observers) (obj : Media) :
  (1 < ((s.add obj).states o).list.length →
    ((s.add obj).states o).currentlyPlaying = (s.states o).currentlyPlaying)
  ∧ ((s.states o).currentlyPlaying ≠ some (some obj) →
    1 < ((s.remove obj).states o).list.length →
      (((s.remove obj).states o).currentlyPlaying = (s.states o).currentlyPlaying
        ↔ (s.states o).Unmoved obj))
  := by
  obtain ⟨hinside, hlist⟩ := shown_or_blank hrun ho
  have hadd : (s.add obj).states o = (s.states o).update o.kind (s.media ++ [obj]) := by
    rw [State.add, notifyObservers_states]
    exact if_pos ho
  have hremove : (s.remove obj).states o = (s.states o).update o.kind (s.media.erase obj) := by
    rw [State.remove, notifyObservers_states]
    exact if_pos ho
  rw [hadd, hremove]
  rcases hlist with hlist | ⟨hblank, hindex⟩
  · exact ⟨fun _ => ObserverState.currentlyPlaying_concat hinside hlist,
      fun hne _ => ObserverState.currentlyPlaying_erase hinside hlist hne⟩
  · have hcurrent : (s.states o).currentlyPlaying = some none := by
      rw [ObserverState.currentlyPlaying_eq hinside (by rw [hblank]; rfl), hblank, hindex]
      rfl
    rw [hcurrent, ObserverState.currentlyPlaying_update_of_zero hinside hindex,
      ObserverState.currentlyPlaying_update_of_zero hinside hindex]
    refine ⟨fun _ => rfl, fun _ _ => iff_of_true rfl (.inl ?_)⟩
    rw [hindex]
    exact List.not_mem_nil

/-- A player at the second of three tracks, when a fourth one is added and when the third one is
removed. -/
theorem currentlyPlaying_second :
  ∃ s, run [.register ⟨.player, 0⟩, .add ⟨.audio, false, 0⟩, .add ⟨.video, false, 1⟩,
      .add ⟨.audio, false, 2⟩, .next ⟨.player, 0⟩ .video] = some s
    ∧ (s.states ⟨.player, 0⟩).currentlyPlaying = some (some ⟨.video, false, 1⟩)
    ∧ ((s.add ⟨.audio, false, 3⟩).states ⟨.player, 0⟩).currentlyPlaying
      = (s.states ⟨.player, 0⟩).currentlyPlaying
    ∧ ((s.remove ⟨.audio, false, 2⟩).states ⟨.player, 0⟩).currentlyPlaying
      = (s.states ⟨.player, 0⟩).currentlyPlaying
  := by
  have hrun : run [.register ⟨.player, 0⟩, .add ⟨.audio, false, 0⟩, .add ⟨.video, false, 1⟩,
      .add ⟨.audio, false, 2⟩, .next ⟨.player, 0⟩ .video] = some _ := rfl
  refine ⟨_, hrun, by decide, ?_, ?_⟩
  · exact (currentlyPlaying_iff hrun (by decide) ⟨.audio, false, 3⟩).1 (by decide)
  · exact ((currentlyPlaying_iff hrun (by decide) ⟨.audio, false, 2⟩).2 (by decide)
      (by decide)).mpr (by decide)

/-- A player that is at the video behind a track is at no medium when the track is removed. -/
theorem currentlyPlaying_lost :
  ∃ s, run [.register ⟨.player, 0⟩, .add ⟨.audio, false, 0⟩, .add ⟨.video, false, 1⟩,
      .next ⟨.player, 0⟩ .video] = some s
    ∧ (s.states ⟨.player, 0⟩).currentlyPlaying = some (some ⟨.video, false, 1⟩)
    ∧ 1 < ((s.remove ⟨.audio, false, 0⟩).states ⟨.player, 0⟩).list.length
    ∧ ((s.remove ⟨.audio, false, 0⟩).states ⟨.player, 0⟩).currentlyPlaying = some none
  := ⟨_, rfl, by decide, by decide, by decide⟩

end MediaDataset
