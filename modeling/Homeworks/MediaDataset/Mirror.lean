import Homeworks.MediaDataset.Dataset
import Mathlib.Data.Int.ModEq
import Mathlib.Tactic.Ring

/-!
# Observers against the dataset

An observer shows the dataset as it is from the moment in which it is notified on until it is
removed.  Since `register` does not notify, a registered observer may not have been notified yet.
-/

namespace MediaDataset

/-! ### The loop of `next` and `previous` -/

namespace ObserverState

variable {list : List Item} {type : MediaKind} {move : ℤ → ℤ} {kind : ObserverKind}

theorem get_eq {index : ℤ} (h : 0 ≤ index) (h' : index < list.length) :
  ∃ item, get list index = some item ∧ item ∈ list
  := by
  have hlt : index.toNat < list.length := by omega
  rw [get, if_pos h, List.getElem?_eq_getElem hlt]
  exact ⟨_, rfl, List.getElem_mem hlt⟩

/-- The loop ends if one of the items that it reaches is of the kind. -/
theorem seek_eq (hmove : ∀ index, 0 ≤ move index ∧ move index < list.length) {rounds : ℕ}
    {index : ℤ}
    (h : ∃ k < rounds, ∃ item, get list (move^[k + 1] index) = some item ∧ item.kind = type) :
  ∃ found, seek list type move rounds index = some found ∧ 0 ≤ found ∧ found < list.length
  := by
  induction rounds generalizing index with
  | zero =>
      obtain ⟨k, hk, -⟩ := h
      exact absurd hk (Nat.not_lt_zero k)
  | succ rounds ih =>
      obtain ⟨item, hitem, -⟩ := get_eq (hmove index).1 (hmove index).2
      rw [seek, hitem, Option.bind_eq_bind, Option.bind_some]
      split
      next => exact ⟨_, rfl, hmove index⟩
      next hne =>
        apply ih
        obtain ⟨k, hk, item', hitem', hkind⟩ := h
        cases k with
        | zero =>
            rw [Nat.zero_add, Function.iterate_one, hitem] at hitem'
            cases hitem'
            exact absurd hkind hne
        | succ k =>
            rw [Function.iterate_succ_apply] at hitem'
            exact ⟨k, Nat.lt_of_succ_lt_succ hk, item', hitem', hkind⟩

/-- Going around in either direction every place is reached. -/
theorem exists_round {d : ℤ} (hd : d = 1 ∨ d = -1) {n j : ℕ} (hj : j < n) (index : ℤ) :
  ∃ k : ℕ, k < n ∧ (index + (k + 1) * d) % n = j
  := by
  have hn : (0 : ℤ) < n := by omega
  have hround := Int.emod_nonneg ((j - index) * d - 1) hn.ne'
  have hround' := Int.emod_lt_of_pos ((j - index) * d - 1) hn
  refine ⟨(((j - index) * d - 1) % n).toNat, by omega, ?_⟩
  rw [Int.toNat_of_nonneg hround]
  have hsquare : d * d = 1 := by
    rcases hd with rfl | rfl <;> rfl
  have hmod : index + (((j - index) * d - 1) % n + 1) * d
      ≡ index + ((j - index) * d - 1 + 1) * d [ZMOD n] :=
    (((Int.mod_modEq _ _).add_right 1).mul_right d).add_left index
  have hend : index + ((j - index) * d - 1 + 1) * d = j := by
    rw [sub_add_cancel, mul_assoc, hsquare]
    ring
  rw [hend] at hmod
  rw [hmod, Int.emod_eq_of_lt (Int.natCast_nonneg j) (by omega)]

/-- Going around in either direction every item is reached. -/
theorem seek_around {d : ℤ} (hd : d = 1 ∨ d = -1) (hlist : list ≠ [])
    (htype : containsType list type = true) (index : ℤ) :
  ∃ found, seek list type (fun index => (index + d) % list.length) list.length index = some found
    ∧ 0 ≤ found ∧ found < list.length
  := by
  have hlength : (0 : ℤ) < list.length := by
    have hpos := List.length_pos_iff.mpr hlist
    omega
  have hmove : ∀ index : ℤ, 0 ≤ (index + d) % list.length
      ∧ (index + d) % list.length < list.length := fun index =>
    ⟨Int.emod_nonneg _ hlength.ne', Int.emod_lt_of_pos _ hlength⟩
  have hiterate : ∀ k : ℕ,
      (fun index => (index + d) % (list.length : ℤ))^[k + 1] index
        = (index + (k + 1) * d) % list.length := by
    intro k
    induction k with
    | zero => simp
    | succ k ih =>
        rw [Function.iterate_succ_apply', ih, Int.emod_add_emod]
        congr 1
        push_cast
        ring
  apply seek_eq hmove
  obtain ⟨item, hmem, hkind⟩ := List.any_eq_true.mp htype
  obtain ⟨j, hj, hget⟩ := List.getElem_of_mem hmem
  obtain ⟨k, hk, hround⟩ := exists_round hd hj index
  refine ⟨k, hk, item, ?_, of_decide_eq_true hkind⟩
  rw [hiterate, hround, get, if_pos (Int.natCast_nonneg j), Int.toNat_natCast,
    List.getElem?_eq_getElem hj, hget]

end ObserverState

/-! ### The calls -/

namespace ObserverState

variable {o : ObserverState} {kind : ObserverKind} {type : MediaKind} {media : List Media}

/-- The current index is inside the list. -/
def Inside (o : ObserverState) : Prop := 0 ≤ o.currentIndex ∧ o.currentIndex < o.list.length

theorem inside_clearList : clearList.Inside := ⟨le_rfl, Int.one_pos⟩

theorem Inside.update (h : o.Inside) : (o.update kind media).Inside := by
  rw [ObserverState.update]
  split
  next => exact ⟨le_rfl, by simp [listOf]⟩
  next hlt => exact ⟨h.1, Int.not_le.mp hlt⟩

theorem Inside.list_ne_nil (h : o.Inside) : o.list ≠ [] := by
  rintro hnil
  obtain ⟨h₀, h₁⟩ := h
  rw [hnil, List.length_nil] at h₁
  omega

/-- `next` and `previous` return, and they stay inside the list. -/
theorem browse_eq {d : ℤ} (hd : d = 1 ∨ d = -1) (h : o.Inside) (type : MediaKind) :
  ∃ index : ℤ, o.browse kind type d (fun index => (index + d) % o.list.length)
      = some { o with currentIndex := index }
    ∧ Inside { o with currentIndex := index }
  := by
  rw [browse]
  split
  next => exact ⟨o.currentIndex, rfl, h⟩
  next hlist =>
    rw [not_or, not_not] at hlist
    have hseek := seek_around hd h.list_ne_nil hlist.2
    split
    next =>
      obtain ⟨item, hitem, -⟩ := get_eq h.1 h.2
      obtain ⟨found, hfound, hinside⟩ :=
        hseek (if item.isNoItem then o.currentIndex + d else o.currentIndex)
      rw [hitem, Option.bind_eq_bind, Option.bind_some, Option.bind_eq_bind]
      dsimp only
      rw [hfound]
      exact ⟨found, rfl, hinside⟩
    next =>
      split
      next =>
        obtain ⟨found, hfound, hinside⟩ := hseek o.currentIndex
        rw [hfound]
        exact ⟨found, rfl, hinside⟩
      next => exact ⟨o.currentIndex, rfl, h⟩

theorem next_eq (h : o.Inside) (type : MediaKind) :
  ∃ index : ℤ, o.next kind type = some { o with currentIndex := index }
    ∧ Inside { o with currentIndex := index }
  := browse_eq (.inl rfl) h type

theorem previous_eq_browse (type : MediaKind) :
  o.previous kind type = o.browse kind type (-1) fun index => (index + -1) % o.list.length
  := by
  rw [previous]
  congr 1
  funext index
  rw [Int.add_emod_right]
  rfl

theorem previous_eq (h : o.Inside) (type : MediaKind) :
  ∃ index : ℤ, o.previous kind type = some { o with currentIndex := index }
    ∧ Inside { o with currentIndex := index }
  := by
  rw [previous_eq_browse]
  exact browse_eq (.inr rfl) h type

theorem update_update :
  (o.update kind media).update kind media = o.update kind media
  := by
  rw [update, update]
  congr 1
  have hlength : (0 : ℤ) < (listOf kind media).length := by
    rw [listOf, List.length_cons]
    omega
  dsimp only
  split_ifs with h h'
  · exact absurd h' (by simp; omega)
  · rfl
  · rfl

end ObserverState

/-- Whoever is registered has been updated, the others are as before. -/
theorem notifyObservers_states (s : State) (o : Observer) :
  s.notifyObservers.states o
    = if o ∈ s.observers then (s.states o).update o.kind s.media else s.states o
  := by
  rw [State.notifyObservers]
  dsimp only
  generalize s.states = states
  induction s.observers generalizing states with
  | nil => rfl
  | cons a observers ih =>
      rw [List.foldl_cons, ih]
      rcases eq_or_ne o a with rfl | hne
      · rw [Function.update_self, ObserverState.update_update, ite_self, if_pos List.mem_cons_self]
      · rw [Function.update_of_ne hne]
        simp only [List.mem_cons, hne, false_or]

/-! ### What the observers have been told -/

/-- The media that have been added, the observers that are registered, and those that have been
notified of the last change of the media and not been removed since. -/
structure History where
  media : List Media
  registered : List Observer
  told : List Observer

def History.step (h : History) : Call → History
  | .add obj => ⟨h.media ++ [obj], h.registered, h.registered⟩
  | .remove obj => ⟨h.media.erase obj, h.registered, h.registered⟩
  | .register o => ⟨h.media, h.registered ++ [o], h.told⟩
  | .removeObserver o => ⟨h.media, h.registered.erase o, h.told.filter (· ≠ o)⟩
  | .next _ _ | .previous _ _ => h

def history (calls : List Call) : History := calls.foldl History.step ⟨[], [], []⟩

/-- The registered observers show the dataset and the others nothing. -/
def Mirrors (s : State) : Prop :=
  ∀ o, (o ∈ s.observers → (s.states o).list = ObserverState.listOf o.kind s.media)
    ∧ (o ∉ s.observers → (s.states o).list = [none]) ∧ (s.states o).Inside

/-- The observers that have been told show the dataset. -/
structure Sound (h : History) (s : State) : Prop where
  media : s.media = h.media
  registered : s.observers = h.registered
  subset : h.told ⊆ h.registered
  shown : ∀ o ∈ h.told, (s.states o).list = ObserverState.listOf o.kind s.media
  blank : ∀ o ∉ h.told, (s.states o).list = [none]
  inside : ∀ o, (s.states o).Inside

theorem Sound.notify {h : History} {s : State} (hs : Sound h s) (media : List Media) :
  Sound ⟨media, h.registered, h.registered⟩ (State.notifyObservers { s with media := media })
  := by
  have hstates := notifyObservers_states { s with media := media }
  constructor
  · rfl
  · exact hs.registered
  · exact List.Subset.refl _
  · intro o ho
    rw [hstates, if_pos (hs.registered.symm ▸ ho)]
    rfl
  · intro o ho
    rw [hstates, if_neg (hs.registered.symm ▸ ho)]
    exact hs.blank o fun htold => ho (hs.subset htold)
  · intro o
    rw [hstates]
    split
    · exact (hs.inside o).update
    · exact hs.inside o

/-- Browsing changes no list. -/
theorem Sound.browse {h : History} {s : State} (hs : Sound h s) {o : Observer} {index : ℤ}
    (hinside : ObserverState.Inside { s.states o with currentIndex := index }) :
  Sound h { s with
    states := Function.update s.states o { s.states o with currentIndex := index } }
  := by
  have hlist : ∀ o', (Function.update s.states o { s.states o with currentIndex := index } o').list
      = (s.states o').list := by
    intro o'
    rcases eq_or_ne o' o with rfl | hne
    · rw [Function.update_self]
    · rw [Function.update_of_ne hne]
  constructor
  · exact hs.media
  · exact hs.registered
  · exact hs.subset
  · exact fun o' ho' => (hlist o').trans (hs.shown o' ho')
  · exact fun o' ho' => (hlist o').trans (hs.blank o' ho')
  · intro o'
    dsimp only
    rcases eq_or_ne o' o with rfl | hne
    · rwa [Function.update_self]
    · rw [Function.update_of_ne hne]
      exact hs.inside o'

theorem Sound.removeObserver {h : History} {s : State} (hs : Sound h s) (o : Observer) :
  Sound (h.step (.removeObserver o)) (s.removeObserver o)
  := by
  rw [State.removeObserver, History.step]
  constructor
  · exact hs.media
  · rw [hs.registered]
  · intro o' ho'
    obtain ⟨htold, hne⟩ := List.mem_filter.mp ho'
    exact (List.mem_erase_of_ne (of_decide_eq_true hne)).mpr (hs.subset htold)
  · intro o' ho'
    obtain ⟨htold, hne⟩ := List.mem_filter.mp ho'
    dsimp only
    rw [Function.update_of_ne (of_decide_eq_true hne)]
    exact hs.shown o' htold
  · intro o' ho'
    dsimp only
    rcases eq_or_ne o' o with rfl | hne
    · rw [Function.update_self]
      rfl
    · rw [Function.update_of_ne hne]
      exact hs.blank o' fun htold => ho' (List.mem_filter.mpr ⟨htold, decide_eq_true hne⟩)
  · intro o'
    dsimp only
    rcases eq_or_ne o' o with rfl | hne
    · rw [Function.update_self]
      exact ObserverState.inside_clearList
    · rw [Function.update_of_ne hne]
      exact hs.inside o'

theorem Sound.step {h : History} {s : State} (hs : Sound h s) (call : Call) :
  ∃ s', MediaDataset.step s call = some s' ∧ Sound (h.step call) s'
  := by
  cases call with
  | add obj =>
      refine ⟨_, rfl, ?_⟩
      rw [History.step, ← hs.media]
      exact hs.notify _
  | remove obj =>
      refine ⟨_, rfl, ?_⟩
      rw [History.step, ← hs.media]
      exact hs.notify _
  | register o =>
      refine ⟨_, rfl, hs.media, ?_, ?_, hs.shown, hs.blank, hs.inside⟩
      · rw [State.register, hs.registered]
        rfl
      · exact fun o' ho' => List.mem_append_left _ (hs.subset ho')
  | removeObserver o => exact ⟨_, rfl, hs.removeObserver o⟩
  | next o type =>
      obtain ⟨index, hnext, hinside⟩ := ObserverState.next_eq (hs.inside o) type
      rw [MediaDataset.step, hnext]
      exact ⟨_, rfl, hs.browse hinside⟩
  | previous o type =>
      obtain ⟨index, hprevious, hinside⟩ := ObserverState.previous_eq (hs.inside o) type
      rw [MediaDataset.step, hprevious]
      exact ⟨_, rfl, hs.browse hinside⟩

theorem Sound.run {h : History} {s : State} (hs : Sound h s) (calls : List Call) :
  ∃ s', calls.foldlM MediaDataset.step s = some s' ∧ Sound (calls.foldl History.step h) s'
  := by
  induction calls generalizing h s with
  | nil => exact ⟨s, rfl, hs⟩
  | cons call calls ih =>
      obtain ⟨s', hstep, hs'⟩ := hs.step call
      obtain ⟨s'', hrun, hs''⟩ := ih hs'
      rw [List.foldlM_cons, hstep]
      exact ⟨s'', hrun, hs''⟩

theorem sound_new : Sound ⟨[], [], []⟩ .new :=
  ⟨rfl, rfl, List.Subset.refl _, nofun, fun _ _ => rfl, fun _ => ObserverState.inside_clearList⟩

/-- An observer shows nothing where there is nothing that it can handle. -/
theorem listOf_eq {kind : ObserverKind} {media : List Media} :
  ObserverState.listOf kind media = [none] ↔ ∀ obj ∈ media, kind.handles obj = false
  := by
  simp [ObserverState.listOf, List.filter_eq_nil_iff]

/-- Every sequence of calls returns, and then the observers mirror the dataset if and only if every
registered observer has been told of it or can handle none of its media. -/
theorem observers_mirror_iff (calls : List Call) :
  ∃ s, run calls = some s
    ∧ (Mirrors s
      ↔ ∀ o ∈ (history calls).registered, o ∈ (history calls).told
          ∨ ∀ obj ∈ (history calls).media, o.kind.handles obj = false)
  := by
  obtain ⟨s, hrun, hs⟩ := sound_new.run calls
  refine ⟨s, hrun, ?_⟩
  rw [history, ← hs.registered, ← hs.media]
  constructor
  · intro hmirrors o ho
    by_cases htold : o ∈ (history calls).told
    · exact .inl htold
    · right
      rw [← listOf_eq, ← (hmirrors o).1 ho]
      exact hs.blank o htold
  · intro h o
    refine ⟨fun ho => ?_, fun ho => ?_, hs.inside o⟩
    · by_cases htold : o ∈ (history calls).told
      · exact hs.shown o htold
      · rw [listOf_eq.mpr ((h o ho).resolve_left htold)]
        exact hs.blank o htold
    · exact hs.blank o fun htold => ho (hs.registered ▸ hs.subset htold)

/-- A player that is registered after a medium has been added shows nothing. -/
theorem registered_late :
  ∃ s, run [.add ⟨.audio, false, 0⟩, .register ⟨.player, 0⟩] = some s ∧ ¬ Mirrors s
  := by
  refine ⟨_, rfl, fun h => ?_⟩
  have hlist := (h ⟨.player, 0⟩).1 (by decide)
  revert hlist
  decide

end MediaDataset
