import Mathlib.Data.List.Nodup

/-!
# Registries with two sides

A registry has records on two sides.  A record has a key and a list of the keys of those on the
other side that it is linked with; a link is in the lists of both of its ends.  The elements of a
list have different keys, so that what is done at the place of one is done to the elements with its
key.
-/

/-! ### Lists with keys -/

namespace Keyed

variable {α κ : Type} [DecidableEq κ] {key : α → κ} {l : List α} {a : α} {k : κ} {i : ℕ}

/-- The first element with a key that occurs. -/
theorem findIdx_eq (h : k ∈ l.map key) :
  ∃ a, l[l.findIdx (key · = k)]? = some a ∧ key a = k
    ∧ l.findIdx? (key · = k) = some (l.findIdx (key · = k))
  := by
  obtain ⟨a, ha, rfl⟩ := List.mem_map.mp h
  have hlt : l.findIdx (key · = key a) < l.length :=
    List.findIdx_lt_length_of_exists ⟨a, ha, decide_eq_true rfl⟩
  have hkey := List.findIdx_getElem (w := hlt)
  exact ⟨_, List.getElem?_eq_getElem hlt, of_decide_eq_true hkey,
    List.findIdx?_eq_some_iff_findIdx_eq.mpr ⟨hlt, rfl⟩⟩

theorem set_eq_map (hl : (l.map key).Nodup) (h : l[i]? = some a) (f : α → α) :
  l.set i (f a) = l.map fun b => if key b = key a then f b else b
  := by
  induction l generalizing i with
  | nil => cases h
  | cons b l ih =>
      obtain ⟨hb, hl⟩ := List.nodup_cons.mp hl
      cases i with
      | zero =>
          obtain rfl : b = a := Option.some.inj h
          have hmap : l.map (fun c => if key c = key b then f c else c) = l := by
            refine (List.map_congr_left fun c hc => if_neg fun heq => hb ?_).trans l.map_id
            exact heq ▸ List.mem_map_of_mem hc
          rw [List.set_cons_zero, List.map_cons, if_pos rfl, hmap]
      | succ i =>
          have hne : key b ≠ key a := fun heq =>
            hb (heq ▸ List.mem_map_of_mem (List.mem_of_getElem? h))
          rw [List.set_cons_succ, List.map_cons, if_neg hne, ih hl h]

theorem eraseIdx_eq_filter (hl : (l.map key).Nodup) (h : l[i]? = some a) :
  l.eraseIdx i = l.filter (key · ≠ key a)
  := by
  induction l generalizing i with
  | nil => cases h
  | cons b l ih =>
      obtain ⟨hb, hl⟩ := List.nodup_cons.mp hl
      cases i with
      | zero =>
          cases h
          rw [List.eraseIdx_cons_zero, List.filter_cons_of_neg (by simp), eq_comm,
            List.filter_eq_self]
          intro c hc
          exact decide_eq_true fun heq => hb (heq ▸ List.mem_map_of_mem hc)
      | succ i =>
          have hne : key b ≠ key a := fun heq =>
            hb (heq ▸ List.mem_map_of_mem (List.mem_of_getElem? h))
          have hpos : decide (key b ≠ key a) = true := decide_eq_true hne
          rw [List.eraseIdx_cons_succ, ih hl h, List.filter_cons, if_pos hpos]

theorem map_eraseP (hl : (l.map key).Nodup) (k : κ) :
  (l.eraseP (key · = k)).map key = (l.map key).filter (· ≠ k)
  := by
  induction l with
  | nil => rfl
  | cons b l ih =>
      obtain ⟨hb, hl⟩ := List.nodup_cons.mp hl
      have herase : (b :: l).eraseP (key · = k)
          = if key b = k then l else b :: l.eraseP (key · = k) :=
        List.eraseP_cons.trans (Bool.cond_decide _ _ _)
      have hfilter : (key b :: l.map key).filter (· ≠ k)
          = if key b = k then (l.map key).filter (· ≠ k)
            else key b :: (l.map key).filter (· ≠ k) := by
        simp [List.filter_cons]
      rw [List.map_cons, herase, hfilter]
      split_ifs with heq
      · rw [eq_comm, List.filter_eq_self]
        exact fun c hc => decide_eq_true fun hck => hb (heq.trans hck.symm ▸ hc)
      · rw [List.map_cons, ih hl]

end Keyed

/-! ### Registries with two sides -/

structure Registry (α β : Type) where
  left : List (α × List β)
  right : List (β × List α)

namespace Registry

variable {α β : Type}

def swap (r : Registry α β) : Registry β α := ⟨r.right, r.left⟩

/-- Both sides have the same links, and no list has duplicates. -/
structure Agrees (r : Registry α β) : Prop where
  linked : ∀ x ∈ r.left, ∀ y ∈ r.right, x.1 ∈ y.2 ↔ y.1 ∈ x.2
  nodup_left : ∀ x ∈ r.left, x.2.Nodup
  nodup_right : ∀ y ∈ r.right, y.2.Nodup
  keys_left : (r.left.map Prod.fst).Nodup
  keys_right : (r.right.map Prod.fst).Nodup

/-- Moreover the keys in the lists are keys of records. -/
structure Sound (r : Registry α β) : Prop extends Agrees r where
  known_left : ∀ x ∈ r.left, x.2 ⊆ r.right.map Prod.fst
  known_right : ∀ y ∈ r.right, y.2 ⊆ r.left.map Prod.fst

variable {r : Registry α β} {a : α} {b : β}

theorem Sound.swap (h : r.Sound) :
  r.swap.Sound
  := ⟨⟨fun y hy x hx => (h.linked x hx y hy).symm, h.nodup_right, h.nodup_left, h.keys_right,
    h.keys_left⟩, h.known_right, h.known_left⟩

theorem sound_empty :
  (⟨[], []⟩ : Registry α β).Sound
  := ⟨⟨nofun, nofun, nofun, List.nodup_nil, List.nodup_nil⟩, nofun, nofun⟩

/-! ### Records -/

/-- A record without links. -/
def add (r : Registry α β) (a : α) : Registry α β := ⟨r.left ++ [(a, [])], r.right⟩

theorem Sound.add (h : r.Sound) (ha : a ∉ r.left.map Prod.fst) :
  (r.add a).Sound
  := by
  constructor
  · constructor
    · intro x hx y hy
      rcases List.mem_append.mp hx with hx | hx
      · exact h.linked x hx y hy
      · rw [List.mem_singleton.mp hx]
        exact iff_of_false (fun hmem => ha (h.known_right y hy hmem)) List.not_mem_nil
    · intro x hx
      rcases List.mem_append.mp hx with hx | hx
      · exact h.nodup_left x hx
      · rw [List.mem_singleton.mp hx]
        exact List.nodup_nil
    · exact h.nodup_right
    · rw [Registry.add, List.map_append, List.map_singleton, ← List.concat_eq_append]
      exact h.keys_left.concat ha
    · exact h.keys_right
  · intro x hx
    rcases List.mem_append.mp hx with hx | hx
    · exact h.known_left x hx
    · rw [List.mem_singleton.mp hx]
      exact List.nil_subset _
  · intro y hy a' ha'
    rw [Registry.add, List.map_append]
    exact List.mem_append_left _ (h.known_right y hy ha')

variable [DecidableEq α]

/-- A record is removed, with all links. -/
def delete (r : Registry α β) (a : α) : Registry α β :=
  ⟨r.left.filter (·.1 ≠ a), r.right.map fun y => (y.1, y.2.filter (· ≠ a))⟩

theorem Sound.delete (h : r.Sound) (a : α) :
  (r.delete a).Sound
  := by
  have hkeys : (r.delete a).right.map Prod.fst = r.right.map Prod.fst := by
    rw [Registry.delete, List.map_map]
    rfl
  have hleft : ∀ {x}, x ∈ (r.delete a).left → x ∈ r.left ∧ x.1 ≠ a := by
    intro x hx
    obtain ⟨hx, hne⟩ := List.mem_filter.mp hx
    exact ⟨hx, of_decide_eq_true hne⟩
  constructor
  · constructor
    · intro x hx y hy
      obtain ⟨hx, hne⟩ := hleft hx
      obtain ⟨y, hy', rfl⟩ := List.mem_map.mp hy
      rw [← h.linked x hx y hy', List.mem_filter, decide_eq_true hne, and_iff_left rfl]
    · exact fun x hx => h.nodup_left x (hleft hx).1
    · intro y hy
      obtain ⟨y, hy', rfl⟩ := List.mem_map.mp hy
      exact (h.nodup_right y hy').filter _
    · exact (List.filter_sublist.map _).nodup h.keys_left
    · rw [hkeys]
      exact h.keys_right
  · intro x hx
    rw [hkeys]
    exact h.known_left x (hleft hx).1
  · intro y hy a' ha'
    obtain ⟨y, hy', rfl⟩ := List.mem_map.mp hy
    obtain ⟨ha', hne⟩ := List.mem_filter.mp ha'
    obtain ⟨x, hx, rfl⟩ := List.mem_map.mp (h.known_right y hy' ha')
    exact List.mem_map_of_mem (List.mem_filter.mpr ⟨hx, hne⟩)

/-! ### Links -/

variable [DecidableEq β]

/-- A link between two records. -/
def link (r : Registry α β) (a : α) (b : β) : Registry α β :=
  ⟨r.left.map fun x => if x.1 = a then (x.1, x.2 ++ [b]) else x,
    r.right.map fun y => if y.1 = b then (y.1, y.2 ++ [a]) else y⟩

theorem fst_link {κ ι : Type} [DecidableEq κ] (l : List (κ × List ι)) (k : κ) (i : ι) :
  (l.map fun x => if x.1 = k then (x.1, x.2 ++ [i]) else x).map Prod.fst = l.map Prod.fst
  := by
  rw [List.map_map]
  exact List.map_congr_left fun x _ => apply_ite Prod.fst _ _ _ |>.trans (ite_self _)

theorem Sound.link (h : r.Sound) (ha : a ∈ r.left.map Prod.fst) (hb : b ∈ r.right.map Prod.fst)
    (hnew : ∀ x ∈ r.left, x.1 = a → b ∉ x.2) :
  (r.link a b).Sound
  := by
  have hnew' : ∀ y ∈ r.right, y.1 = b → a ∉ y.2 := by
    rintro y hy rfl hmem
    obtain ⟨x, hx, rfl⟩ := List.mem_map.mp ha
    exact hnew x hx rfl ((h.linked x hx y hy).mp hmem)
  constructor
  · constructor
    · intro x hx y hy
      obtain ⟨x, hx', rfl⟩ := List.mem_map.mp hx
      obtain ⟨y, hy', rfl⟩ := List.mem_map.mp hy
      have hlinked := h.linked x hx' y hy'
      split_ifs with hxa hyb hyb
      · simp [hxa, hyb]
      · simp [hlinked, hyb]
      · simp [hlinked, hxa]
      · exact hlinked
    · intro x hx
      obtain ⟨x, hx', rfl⟩ := List.mem_map.mp hx
      split_ifs with hxa
      · rw [← List.concat_eq_append]
        exact (h.nodup_left x hx').concat (hnew x hx' hxa)
      · exact h.nodup_left x hx'
    · intro y hy
      obtain ⟨y, hy', rfl⟩ := List.mem_map.mp hy
      split_ifs with hyb
      · rw [← List.concat_eq_append]
        exact (h.nodup_right y hy').concat (hnew' y hy' hyb)
      · exact h.nodup_right y hy'
    · rw [Registry.link, fst_link]
      exact h.keys_left
    · rw [Registry.link, fst_link]
      exact h.keys_right
  · intro x hx
    obtain ⟨x, hx', rfl⟩ := List.mem_map.mp hx
    rw [Registry.link, fst_link]
    split_ifs
    · exact List.append_subset.mpr ⟨h.known_left x hx',
        List.cons_subset.mpr ⟨hb, List.nil_subset _⟩⟩
    · exact h.known_left x hx'
  · intro y hy
    obtain ⟨y, hy', rfl⟩ := List.mem_map.mp hy
    rw [Registry.link, fst_link]
    split_ifs
    · exact List.append_subset.mpr ⟨h.known_right y hy',
        List.cons_subset.mpr ⟨ha, List.nil_subset _⟩⟩
    · exact h.known_right y hy'

end Registry
