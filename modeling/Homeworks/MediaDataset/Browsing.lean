import Homeworks.MediaDataset.Playback

/-!
# Browsing

`next` and `previous` go around the list to an item of the kind that they are given.  At an item
without name they start one item further for the first of the two kinds.
-/

namespace MediaDataset

namespace ObserverState

variable {list : List Item} {type : MediaKind} {kind : ObserverKind} {d index found : ℤ}

/-- An item of the kind is at the index, taken around the list. -/
def At (list : List Item) (type : MediaKind) (index : ℤ) : Prop :=
  (get list (index % list.length)).map Item.kind = some type

instance (list : List Item) (type : MediaKind) (index : ℤ) : Decidable (At list type index) :=
  inferInstanceAs (Decidable (_ = _))

/-- The first item of the kind strictly after an index, or strictly before it where `d` is `-1`. -/
def Nearest (list : List Item) (type : MediaKind) (d index found : ℤ) : Prop :=
  ∃ k : ℕ, found = (index + (k + 1) * d) % list.length ∧ At list type (index + (k + 1) * d)
    ∧ ∀ j < k, ¬ At list type (index + (j + 1) * d)

theorem at_emod : At list type (index % list.length) ↔ At list type index := by
  rw [At, At, Int.emod_emod]

theorem at_add : At list type (index % list.length + d) ↔ At list type (index + d) := by
  rw [At, At, Int.emod_add_emod]

theorem nearest_emod :
  Nearest list type d (index % list.length) found ↔ Nearest list type d index found
  := by
  simp only [Nearest, at_add, Int.emod_add_emod]

theorem Nearest.unique {found' : ℤ} (h : Nearest list type d index found)
    (h' : Nearest list type d index found') :
  found = found'
  := by
  obtain ⟨k, rfl, hk, hbefore⟩ := h
  obtain ⟨k', rfl, hk', hbefore'⟩ := h'
  rcases Nat.lt_trichotomy k k' with hlt | rfl | hlt
  · exact absurd hk (hbefore' k hlt)
  · rfl
  · exact absurd hk' (hbefore k' hlt)

/-- An item that is not of the kind is passed. -/
theorem Nearest.step (hnot : ¬ At list type (index + d))
    (h : Nearest list type d (index + d) found) :
  Nearest list type d index found
  := by
  obtain ⟨k, rfl, hk, hbefore⟩ := h
  have hshift : ∀ j : ℕ, index + d + (j + 1) * d = index + ((j + 1 : ℕ) + 1) * d := by
    intro j
    push_cast
    ring
  refine ⟨k + 1, by rw [hshift], hshift k ▸ hk, fun j hj => ?_⟩
  cases j with
  | zero => simpa using hnot
  | succ j => exact hshift j ▸ hbefore j (Nat.lt_of_succ_lt_succ hj)

theorem nearest_self (h : At list type (index + d)) :
  Nearest list type d index ((index + d) % list.length)
  := by
  refine ⟨0, ?_, ?_, fun j hj => absurd hj (Nat.not_lt_zero j)⟩
  · simp
  · simpa using h

/-- The loop ends at the nearest item of the kind. -/
theorem seek_nearest {rounds k : ℕ} (hk : k < rounds) (hat : At list type (index + (k + 1) * d)) :
  ∃ found, seek list type (fun index => (index + d) % list.length) rounds index = some found
    ∧ Nearest list type d index found
  := by
  have hlength : (0 : ℤ) < list.length := by
    rcases list with - | ⟨item, list⟩
    · simp [At, get] at hat
    · rw [List.length_cons]
      omega
  induction rounds generalizing index k with
  | zero => exact absurd hk (Nat.not_lt_zero k)
  | succ rounds ih =>
      obtain ⟨item, hitem, -⟩ :=
        get_eq (Int.emod_nonneg (index + d) hlength.ne') (Int.emod_lt_of_pos (index + d) hlength)
      have hitem' : At list type (index + d) ↔ item.kind = type := by
        rw [At, hitem, Option.map_some, Option.some_inj]
      rw [seek, hitem, Option.bind_eq_bind, Option.bind_some]
      split
      next hkind => exact ⟨_, rfl, nearest_self (hitem'.mpr hkind)⟩
      next hkind =>
        have hnot := mt hitem'.mp hkind
        cases k with
        | zero => exact absurd (by simpa using hat) hnot
        | succ k =>
            have hat' : At list type ((index + d) % list.length + (k + 1) * d) := by
              rw [at_add]
              convert hat using 1
              push_cast
              ring
            obtain ⟨found, hfound, hnearest⟩ := ih (Nat.lt_of_succ_lt_succ hk) hat'
            exact ⟨found, hfound, (nearest_emod.mp hnearest).step hnot⟩

/-- There is a nearest item of a kind that the list has, and the loop finds it. -/
theorem exists_nearest (hd : d = 1 ∨ d = -1) (htype : containsType list type = true) (index : ℤ) :
  ∃ found, seek list type (fun index => (index + d) % list.length) list.length index = some found
    ∧ Nearest list type d index found
  := by
  obtain ⟨item, hmem, hkind⟩ := List.any_eq_true.mp htype
  obtain ⟨j, hj, rfl⟩ := List.getElem_of_mem hmem
  obtain ⟨k, hk, hround⟩ := exists_round hd hj index
  refine seek_nearest hk ?_
  rw [At, hround, get, if_pos (Int.natCast_nonneg j), Int.toNat_natCast,
    List.getElem?_eq_getElem hj, Option.map_some, of_decide_eq_true hkind]

/-! ### The kinds of the items -/

theorem first_ne_second (kind : ObserverKind) :
  kind.first ≠ kind.second ∧ kind.first ≠ .noItem ∧ kind.second ≠ .noItem
  := by
  cases kind <;> decide

/-- The list of an observer has media of its two kinds only. -/
theorem containsType_listOf {media : List Media}
    (h : containsType (listOf kind media) type = true) :
  type = .noItem
    ∨ 1 < (listOf kind media).length ∧ (type = kind.first ∨ type = kind.second)
  := by
  obtain ⟨item, hmem, hkind⟩ := List.any_eq_true.mp h
  obtain rfl := of_decide_eq_true hkind
  rw [listOf, List.mem_cons] at hmem
  rcases hmem with rfl | hmem
  · exact .inl rfl
  · obtain ⟨obj, hobj, rfl⟩ := List.mem_map.mp hmem
    refine .inr ⟨?_, ?_⟩
    · have hpos := List.length_pos_of_mem hmem
      rw [listOf, List.length_cons]
      omega
    · have hhandles := (List.mem_filter.mp hobj).2
      rw [ObserverKind.handles, Bool.or_eq_true, decide_eq_true_iff, decide_eq_true_iff] at hhandles
      exact hhandles

/-- Only the placeholder is of the kind that stands for no medium. -/
theorem at_noItem_iff {media : List Media} :
  At (listOf kind media) .noItem index ↔ index % (listOf kind media).length = 0
  := by
  have hlength : (0 : ℤ) < (listOf kind media).length := by
    rw [listOf, List.length_cons]
    omega
  have hnonneg := Int.emod_nonneg index hlength.ne'
  rw [At, get, if_pos hnonneg]
  generalize hi : index % (listOf kind media).length = i at hnonneg ⊢
  obtain ⟨i, rfl⟩ := Int.eq_ofNat_of_zero_le hnonneg
  rw [Int.toNat_natCast]
  cases i with
  | zero => exact iff_of_true rfl rfl
  | succ i =>
      refine iff_of_false (fun hsome => ?_) (by omega)
      rw [listOf, List.getElem?_cons_succ] at hsome
      obtain ⟨item, hitem, hkind⟩ := Option.map_eq_some_iff.mp hsome
      obtain ⟨obj, hobj, rfl⟩ := List.mem_map.mp (List.mem_of_getElem? hitem)
      have hhandles := (List.mem_filter.mp hobj).2
      obtain ⟨-, hfirst, hsecond⟩ := first_ne_second kind
      rw [ObserverKind.handles, show obj.kind = .noItem from hkind] at hhandles
      simp [hfirst.symm, hsecond.symm] at hhandles

/-! ### Where they end -/

/-- An item that has a name, an item next to it that is not of the first kind, or no other item of
that kind; for the placeholder, that it is the current item. -/
def Direct (o : ObserverState) (kind : ObserverKind) (type : MediaKind) (d : ℤ) : Prop :=
  (type = .noItem → o.currentIndex = 0)
  ∧ (type = kind.first → (get o.list o.currentIndex).map Item.isNoItem = some true →
      At o.list type (o.currentIndex + d) →
        ∀ i < o.list.length, At o.list type i → (i : ℤ) = (o.currentIndex + d) % o.list.length)

instance (o : ObserverState) (kind : ObserverKind) (type : MediaKind) (d : ℤ) :
    Decidable (o.Direct kind type d) :=
  inferInstanceAs (Decidable ((_ → _) ∧ (_ → _ → _ → ∀ i < _, _ → _)))

/-- The loop that starts one item further ends at the nearest item unless it passes it. -/
theorem nearest_skip_iff (hd : d = 1 ∨ d = -1) (hlength : 0 < list.length)
    (h : Nearest list type d (index + d) found) :
  Nearest list type d index found
    ↔ (At list type (index + d) →
        ∀ i < list.length, At list type i → (i : ℤ) = (index + d) % list.length)
  := by
  by_cases hat : At list type (index + d)
  · have hfound : Nearest list type d index found ↔ found = (index + d) % list.length :=
      ⟨fun hnearest => hnearest.unique (nearest_self hat), fun heq => heq ▸ nearest_self hat⟩
    rw [hfound]
    obtain ⟨k, rfl, hk, hbefore⟩ := h
    refine ⟨fun heq _ i hi hati => ?_, fun honly => ?_⟩
    · -- a full turn, so the item is met no earlier than at its end
      have hturn : list.length ≤ k + 1 := by
        have hdvd : (list.length : ℤ) ∣ (k + 1) * d := by
          rw [Int.emod_eq_emod_iff_emod_sub_eq_zero, add_sub_cancel_left] at heq
          exact Int.dvd_of_emod_eq_zero heq
        have hdvd' : (list.length : ℤ) ∣ k + 1 := by
          rcases hd with rfl | rfl
          · rwa [mul_one] at hdvd
          · rwa [mul_neg_one, Int.dvd_neg] at hdvd
        have hle := Int.le_of_dvd (by omega) hdvd'
        omega
      obtain ⟨j, hj, hround⟩ := exists_round hd hi (index + d)
      have hkj : ¬ j < k := fun hlt => hbefore j hlt (at_emod.mp (hround ▸ hati))
      obtain rfl : j = k := by omega
      rw [← hround, heq]
    · have hnonneg := Int.emod_nonneg (index + d + (k + 1) * d) (by omega : (list.length : ℤ) ≠ 0)
      have hlt := Int.emod_lt_of_pos (index + d + (k + 1) * d) (by omega : (0 : ℤ) < list.length)
      have honly' := honly hat ((index + d + (k + 1) * d) % list.length).toNat (by omega)
      rw [Int.toNat_of_nonneg hnonneg] at honly'
      exact honly' (at_emod.mpr hk)
  · exact iff_of_true (h.step hat) (absurd · hat)

/-- `next` and `previous` return, and they are at the nearest item of a kind that the list has if
and only if the way there is direct. -/
theorem browse_nearest_iff {media : List Media} {o : ObserverState} (hd : d = 1 ∨ d = -1)
    (h : o.Inside) (hlist : o.list = listOf kind media)
    (htype : containsType o.list type = true) :
  ∃ found, o.browse kind type d (fun index => (index + d) % o.list.length)
      = some { o with currentIndex := found }
    ∧ (Nearest o.list type d o.currentIndex found ↔ o.Direct kind type d)
  := by
  obtain ⟨hfirst, hfirst₀, hsecond₀⟩ := first_ne_second kind
  have hpos : 0 < o.list.length := List.length_pos_iff.mpr h.list_ne_nil
  rcases containsType_listOf (hlist ▸ htype) with rfl | ⟨hlength, hkind⟩
  · refine ⟨o.currentIndex, ?_, ?_⟩
    · rw [browse, if_neg hfirst₀.symm, if_neg hsecond₀.symm]
      exact ite_self _
    · obtain ⟨found, -, hnearest⟩ := exists_nearest hd htype o.currentIndex
      have hzero : ∀ index, Nearest o.list .noItem d o.currentIndex index → index = 0 := by
        rintro _ ⟨k, rfl, hk, -⟩
        rw [hlist] at hk ⊢
        exact at_noItem_iff.mp hk
      refine ⟨fun hcurrent => ⟨fun _ => hzero _ hcurrent, fun heq => absurd heq hfirst₀.symm⟩, ?_⟩
      rintro ⟨hindex, -⟩
      rwa [(hzero found hnearest).trans (hindex rfl).symm] at hnearest
  · rw [← hlist] at hlength
    rw [browse, if_neg (by rw [not_or, not_not]; exact ⟨by omega, htype⟩)]
    rcases hkind with rfl | rfl
    · rw [if_pos rfl]
      obtain ⟨item, hitem, -⟩ := get_eq h.1 h.2
      rw [hitem, Option.bind_eq_bind, Option.bind_some, Direct, hitem, Option.map_some,
        Option.some_inj]
      dsimp only
      split
      next hname =>
        obtain ⟨found, hfound, hnearest⟩ := exists_nearest hd htype (o.currentIndex + d)
        rw [hfound]
        refine ⟨found, rfl, (nearest_skip_iff hd hpos hnearest).trans ?_⟩
        exact ⟨fun honly => ⟨fun heq => absurd heq hfirst₀, fun _ _ => honly⟩,
          fun hdirect => hdirect.2 rfl hname⟩
      next hname =>
        obtain ⟨found, hfound, hnearest⟩ := exists_nearest hd htype o.currentIndex
        rw [hfound]
        exact ⟨found, rfl, iff_of_true hnearest
          ⟨fun heq => absurd heq hfirst₀, fun _ heq => absurd heq hname⟩⟩
    · obtain ⟨found, hfound, hnearest⟩ := exists_nearest hd htype o.currentIndex
      rw [if_neg hfirst.symm, if_pos rfl, hfound]
      exact ⟨found, rfl, iff_of_true hnearest
        ⟨fun heq => absurd heq hsecond₀, fun heq => absurd heq hfirst.symm⟩⟩

/-- For every list of an observer, every current index and every kind that the list has, `next`
and `previous` return at an item, and it is the nearest of the kind in their direction if and only
if the way there is direct. -/
theorem nearest_iff {media : List Media} {o : ObserverState} (h : o.Inside)
    (hlist : o.list = listOf kind media) (htype : containsType o.list type = true) :
  (∃ found, o.next kind type = some { o with currentIndex := found }
    ∧ (Nearest o.list type 1 o.currentIndex found ↔ o.Direct kind type 1))
  ∧ ∃ found, o.previous kind type = some { o with currentIndex := found }
    ∧ (Nearest o.list type (-1) o.currentIndex found ↔ o.Direct kind type (-1))
  := by
  rw [previous_eq_browse]
  exact ⟨browse_nearest_iff (.inl rfl) h hlist htype, browse_nearest_iff (.inr rfl) h hlist htype⟩

/-- A player at the placeholder goes to the video behind a track. -/
theorem nearest_video :
  ∃ found, next .player .video ⟨[none, some ⟨.audio, false, 0⟩, some ⟨.video, false, 1⟩], 0⟩
      = some ⟨[none, some ⟨.audio, false, 0⟩, some ⟨.video, false, 1⟩], found⟩
    ∧ Nearest [none, some ⟨.audio, false, 0⟩, some ⟨.video, false, 1⟩] .video 1 0 found
  := by
  have hlist : [none, some ⟨.audio, false, 0⟩, some ⟨.video, false, 1⟩]
      = listOf .player [⟨.audio, false, 0⟩, ⟨.video, false, 1⟩] := rfl
  have hinside : Inside ⟨[none, some ⟨.audio, false, 0⟩, some ⟨.video, false, 1⟩], 0⟩ :=
    ⟨by decide, by decide⟩
  have htype : containsType [none, some ⟨.audio, false, 0⟩, some ⟨.video, false, 1⟩] .video
    = true :=
    rfl
  obtain ⟨⟨found, hnext, hiff⟩, -⟩ := nearest_iff hinside hlist htype
  exact ⟨found, hnext, hiff.mpr (by decide)⟩

/-- A player at the placeholder passes the first of two tracks. -/
theorem next_passes :
  next .player .audio ⟨[none, some ⟨.audio, false, 0⟩, some ⟨.audio, false, 1⟩], 0⟩
    = some ⟨[none, some ⟨.audio, false, 0⟩, some ⟨.audio, false, 1⟩], 2⟩
  ∧ ¬ Nearest [none, some ⟨.audio, false, 0⟩, some ⟨.audio, false, 1⟩] .audio 1 0 2
  := by
  refine ⟨rfl, fun h => ?_⟩
  have hfirst := h.unique (nearest_self (by decide))
  revert hfirst
  decide

end ObserverState

end MediaDataset
