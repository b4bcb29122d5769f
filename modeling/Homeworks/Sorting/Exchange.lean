import Mathlib.Data.List.Rotate
import Mathlib.Data.List.Sort
import Mathlib.Order.Defs.LinearOrder

/-!
# Exchange sort

A pass compares the first element with each of the others in turn and exchanges the two where the
first is greater.  Sorting by exchange is not stable: while smaller elements are fetched from
behind, the elements of one size are rotated.
-/

namespace Exchange

variable {α : Type*}

/-- A pass: what is first at its end, and the others. -/
def pass (gt : α → α → Bool) (x : α) : List α → α × List α
  | [] => (x, [])
  | y :: l =>
      if gt x y then ((pass gt y l).1, x :: (pass gt y l).2)
      else ((pass gt x l).1, y :: (pass gt x l).2)

theorem length_pass {gt : α → α → Bool} {x : α} {l : List α} :
  (pass gt x l).2.length = l.length
  := by
  induction l generalizing x with
  | nil => rfl
  | cons y l ih =>
      rw [pass]
      split
      · exact congrArg Nat.succ ih
      · exact congrArg Nat.succ ih

def sort (gt : α → α → Bool) : List α → List α
  | [] => []
  | x :: l => (pass gt x l).1 :: sort gt (pass gt x l).2
termination_by l => l.length
decreasing_by
  rw [length_pass, List.length_cons]
  exact Nat.lt_succ_self _

variable {gt : α → α → Bool} {x y : α} {l l' : List α}

/-! ### Permutations -/

theorem pass_perm : ((pass gt x l).1 :: (pass gt x l).2).Perm (x :: l)
  := by
  induction l generalizing x with
  | nil => exact List.Perm.refl _
  | cons y l ih =>
      rw [pass]
      split
      · exact (List.Perm.swap ..).trans (ih.cons x)
      · exact (List.Perm.swap ..).trans ((ih.cons y).trans (List.Perm.swap ..))

theorem sort_perm : (sort gt l).Perm l
  := by
  induction l using sort.induct gt with
  | case1 => rw [sort]
  | case2 x l ih =>
      rw [sort]
      exact (ih.cons _).trans pass_perm

theorem length_sort : (sort gt l).length = l.length := sort_perm.length_eq

theorem pass_append :
  pass gt x (l ++ l') = ((pass gt (pass gt x l).1 l').1,
    (pass gt x l).2 ++ (pass gt (pass gt x l).1 l').2)
  := by
  induction l generalizing x with
  | nil => rfl
  | cons y l ih =>
      rw [List.cons_append, pass, pass]
      split
      · rw [ih]
        rfl
      · rw [ih]
        rfl

/-- A pass changes nothing where nothing is smaller. -/
theorem pass_eq_self (h : ∀ y ∈ l, gt x y = false) :
  pass gt x l = (x, l)
  := by
  induction l with
  | nil => rfl
  | cons y l ih =>
      rw [List.forall_mem_cons] at h
      rw [pass, h.1, if_neg Bool.false_ne_true, ih h.2]

/-- Nothing is sorted by a comparison that never holds. -/
theorem sort_eq_self (h : ∀ x y, gt x y = false) (l : List α) : sort gt l = l
  := by
  induction l with
  | nil => rw [sort]
  | cons x l ih => rw [sort, pass_eq_self fun y _ => h x y, ih]

/-! ### Keys -/

/-- The comparison of elements by a key. -/
def byKey {ι : Type*} [LinearOrder ι] (key : α → ι) (x y : α) : Bool := key y < key x

variable {ι : Type*} [LinearOrder ι] {key : α → ι} {r : ι}

theorem byKey_eq_true : byKey key x y = true ↔ key y < key x := decide_eq_true_iff

theorem byKey_eq_false : byKey key x y = false ↔ key x ≤ key y :=
  decide_eq_false_iff_not.trans not_lt

theorem pass_le : ∀ y ∈ x :: l, key (pass (byKey key) x l).1 ≤ key y
  := by
  induction l generalizing x with
  | nil =>
      intro y hy
      rw [List.mem_singleton.mp hy]
      exact le_rfl
  | cons z l ih =>
      rw [pass]
      split
      next hgt =>
        have hle := List.forall_mem_cons.mp (ih (x := z))
        exact List.forall_mem_cons.mpr ⟨hle.1.trans (byKey_eq_true.mp hgt).le, ih⟩
      next hgt =>
        have hle := List.forall_mem_cons.mp (ih (x := x))
        have hxz := byKey_eq_false.mp ((Bool.not_eq_true _).mp hgt)
        exact List.forall_mem_cons.mpr
          ⟨hle.1, List.forall_mem_cons.mpr ⟨hle.1.trans hxz, hle.2⟩⟩

/-- Sorting by exchange sorts. -/
theorem sort_pairwise : (sort (byKey key) l).Pairwise fun x y => key x ≤ key y
  := by
  induction l using sort.induct (byKey key) with
  | case1 =>
      rw [sort]
      exact List.Pairwise.nil
  | case2 x l ih =>
      rw [sort]
      refine List.pairwise_cons.mpr ⟨fun y hy => ?_, ih⟩
      have hmem := pass_perm.mem_iff.mp (List.mem_cons_of_mem _ (sort_perm.mem_iff.mp hy))
      exact pass_le y hmem

/-! ### The order of the elements of one size -/

/-- The elements of one size. -/
def ofSize (key : α → ι) (r : ι) (l : List α) : List α := l.filter fun x => key x = r

theorem ofSize_cons_of_eq (h : key x = r) : ofSize key r (x :: l) = x :: ofSize key r l :=
  List.filter_cons_of_pos (decide_eq_true h)

theorem ofSize_cons_of_ne (h : key x ≠ r) : ofSize key r (x :: l) = ofSize key r l :=
  List.filter_cons_of_neg (by simpa using h)

theorem ofSize_append : ofSize key r (l ++ l') = ofSize key r l ++ ofSize key r l' :=
  List.filter_append _ _

theorem ofSize_eq_self (h : ∀ x ∈ l, key x = r) : ofSize key r l = l :=
  List.filter_eq_self.mpr fun x hx => decide_eq_true (h x hx)

theorem ofSize_eq_nil (h : ∀ x ∈ l, key x ≠ r) : ofSize key r l = [] :=
  List.filter_eq_nil_iff.mpr fun x hx => by simpa using h x hx

theorem ofSize_cons : ofSize key r (x :: l) = ofSize key r [x] ++ ofSize key r l :=
  ofSize_append (l := [x])

theorem ofSize_cons_cons_of_ne (h : key y ≠ r) :
  ofSize key r (x :: y :: l) = ofSize key r (x :: l)
  := by
  rw [ofSize_cons, ofSize_cons_of_ne h, ← ofSize_cons]

/-- A pass keeps the order of the smallest elements. -/
theorem ofSize_pass (h : ∀ y ∈ x :: l, r ≤ key y) :
  ofSize key r ((pass (byKey key) x l).1 :: (pass (byKey key) x l).2) = ofSize key r (x :: l)
  := by
  induction l generalizing x with
  | nil => rfl
  | cons y l ih =>
      obtain ⟨hx, h⟩ := List.forall_mem_cons.mp h
      obtain ⟨hy, hl⟩ := List.forall_mem_cons.mp h
      rw [pass]
      split
      next hgt =>
        have hne : key x ≠ r := fun heq => not_lt_of_ge (heq ▸ hy) (byKey_eq_true.mp hgt)
        rw [ofSize_cons_cons_of_ne hne, ih h, ofSize_cons_of_ne hne]
      next hgt =>
        have hle := byKey_eq_false.mp ((Bool.not_eq_true _).mp hgt)
        by_cases heq : key y = r
        · have hxr : key x = r := le_antisymm (heq ▸ hle) hx
          rw [pass_eq_self fun z hz => byKey_eq_false.mpr (hxr ▸ hl z hz)]
        · rw [ofSize_cons_cons_of_ne heq, ih (List.forall_mem_cons.mpr ⟨hx, hl⟩),
            ofSize_cons_cons_of_ne heq]

/-- Sorting keeps the order of the smallest elements. -/
theorem ofSize_sort (h : ∀ y ∈ l, r ≤ key y) :
  ofSize key r (sort (byKey key) l) = ofSize key r l
  := by
  induction l using sort.induct (byKey key) with
  | case1 => rw [sort]
  | case2 x l ih =>
      have hpass : ∀ y ∈ (pass (byKey key) x l).2, r ≤ key y := fun y hy =>
        h y (pass_perm.mem_iff.mp (List.mem_cons_of_mem _ hy))
      rw [sort, ofSize_cons, ih hpass, ← ofSize_cons, ofSize_pass h]

/-- A pass over elements of which some are smaller than all others, from one of the smaller. -/
theorem pass_smaller {smaller rest : List α} (hsmaller : ∀ y ∈ x :: smaller, key y < r)
    (hrest : ∀ y ∈ rest, r ≤ key y) :
  ∃ m smaller', key m < r ∧ (∀ y ∈ smaller', key y < r) ∧ smaller'.length = smaller.length
    ∧ pass (byKey key) x (smaller ++ rest) = (m, smaller' ++ rest)
  := by
  have hpass : ∀ y ∈ (pass (byKey key) x smaller).1 :: (pass (byKey key) x smaller).2, key y < r :=
    fun y hy => hsmaller y (pass_perm.mem_iff.mp hy)
  obtain ⟨hm, hothers⟩ := List.forall_mem_cons.mp hpass
  refine ⟨_, _, hm, hothers, length_pass, ?_⟩
  rw [pass_append, pass_eq_self fun y hy => byKey_eq_false.mpr (hm.le.trans (hrest y hy))]

/-- A pass that fetches a smaller element from behind. -/
theorem pass_fetch {s : α} {smaller rest : List α} (hl : ∀ y ∈ l, key x ≤ key y)
    (hx : r ≤ key x) (hsmaller : ∀ y ∈ s :: smaller, key y < r) (hrest : ∀ y ∈ rest, r ≤ key y) :
  ∃ m smaller', key m < r ∧ (∀ y ∈ smaller', key y < r) ∧ smaller'.length = smaller.length
    ∧ pass (byKey key) x (l ++ (s :: smaller ++ rest)) = (m, l ++ (x :: smaller' ++ rest))
  := by
  obtain ⟨m, smaller', hm, hothers, hlength, hpass⟩ := pass_smaller hsmaller hrest
  refine ⟨m, smaller', hm, hothers, hlength, ?_⟩
  have hsx : byKey key x s = true :=
    byKey_eq_true.mpr ((hsmaller s List.mem_cons_self).trans_le hx)
  rw [pass_append, pass_eq_self fun y hy => byKey_eq_false.mpr (hl y hy), List.cons_append, pass,
    hsx, if_pos rfl, hpass]
  rfl

/-- Fetching smaller elements from behind rotates the elements of one size. -/
theorem ofSize_sort_rotate {same greater same' smaller rest : List α}
    (hsame : ∀ y ∈ same ++ same', key y = r) (hgreater : ∀ y ∈ greater, r < key y)
    (hsmaller : ∀ y ∈ smaller, key y < r) (hrest : ∀ y ∈ rest, r ≤ key y) :
  ofSize key r (sort (byKey key) (same ++ (greater ++ (same' ++ (smaller ++ rest)))))
    = (same ++ same').rotate smaller.length ++ ofSize key r rest
  := by
  generalize hn : smaller.length = n
  induction n generalizing same greater same' smaller with
  | zero =>
      obtain rfl := List.length_eq_zero_iff.mp hn
      obtain ⟨hsame₁, hsame₂⟩ := List.forall_mem_append.mp hsame
      rw [List.nil_append, ofSize_sort, ofSize_append, ofSize_append, ofSize_append,
        ofSize_eq_self hsame₁, ofSize_eq_self hsame₂, ofSize_eq_nil fun y hy => (hgreater y hy).ne',
        List.rotate_zero, List.nil_append, List.append_assoc]
      simp only [List.forall_mem_append]
      exact ⟨fun y hy => (hsame₁ y hy).ge, fun y hy => (hgreater y hy).le,
        fun y hy => (hsame₂ y hy).ge, hrest⟩
  | succ n ih =>
      obtain ⟨s, smaller, rfl⟩ := List.exists_cons_of_length_eq_add_one hn
      have hn' : smaller.length = n := Nat.succ.inj hn
      -- the first of the elements of the size goes behind the others
      have hfirst : ∀ {x : α} {same greater same' : List α}, (∀ y ∈ x :: same ++ same', key y = r) →
          (∀ y ∈ greater, r < key y) →
          ofSize key r (sort (byKey key)
            (x :: same ++ (greater ++ (same' ++ (s :: smaller ++ rest)))))
            = (x :: same ++ same').rotate (n + 1) ++ ofSize key r rest := by
        intro x same greater same' hsame hgreater
        obtain ⟨hx, hsame⟩ := List.forall_mem_cons.mp hsame
        obtain ⟨hsame₁, hsame₂⟩ := List.forall_mem_append.mp hsame
        have hl : ∀ y ∈ same ++ (greater ++ same'), key x ≤ key y := by
          simp only [List.forall_mem_append, hx]
          exact ⟨fun y hy => (hsame₁ y hy).ge, fun y hy => (hgreater y hy).le,
            fun y hy => (hsame₂ y hy).ge⟩
        obtain ⟨m, smaller', hm, hsmaller', hlength, hpass⟩ := pass_fetch hl hx.ge hsmaller hrest
        have hlist : same ++ (greater ++ (same' ++ (s :: smaller ++ rest)))
            = same ++ (greater ++ same') ++ (s :: smaller ++ rest) := by
          simp only [List.append_assoc]
        have hlist' : same ++ (greater ++ same') ++ (x :: smaller' ++ rest)
            = same ++ (greater ++ (same' ++ [x] ++ (smaller' ++ rest))) := by
          simp only [List.append_assoc, List.cons_append, List.nil_append]
        rw [List.cons_append, sort, hlist, hpass, ofSize_cons_of_ne hm.ne, hlist',
          ih _ hgreater hsmaller' (hlength.trans hn'), List.cons_append, List.rotate_cons_succ,
          List.append_assoc]
        rw [← List.append_assoc]
        exact List.forall_mem_append.mpr ⟨hsame, List.forall_mem_singleton.mpr hx⟩
      cases same with
      | cons x same => exact hfirst hsame hgreater
      | nil =>
          cases greater with
          | nil =>
              cases same' with
              | cons x same' =>
                  have hsame' : ∀ y ∈ x :: same' ++ [], key y = r := by
                    rw [List.append_nil]
                    exact hsame
                  have hrotate := hfirst hsame' hgreater
                  rwa [List.append_nil] at hrotate
              | nil =>
                  obtain ⟨m, smaller', hm, hsmaller', hlength, hpass⟩ := pass_smaller hsmaller hrest
                  have hrotate := ih hsame hgreater hsmaller' (hlength.trans hn')
                  simp only [List.nil_append, List.rotate_nil] at hrotate ⊢
                  rw [List.cons_append, sort, hpass, ofSize_cons_of_ne hm.ne, hrotate]
          | cons g greater =>
              have hpassG : ∀ y ∈ (pass (byKey key) g greater).1 :: (pass (byKey key) g greater).2,
                  r < key y := fun y hy => hgreater y (pass_perm.mem_iff.mp hy)
              rw [List.nil_append, List.cons_append, sort, pass_append]
              revert hpassG
              generalize (pass (byKey key) g greater).1 = g'
              generalize (pass (byKey key) g greater).2 = greater'
              intro hpassG
              obtain ⟨hg', hgreater'⟩ := List.forall_mem_cons.mp hpassG
              have hgreater'' : ∀ y ∈ greater' ++ [g'], r < key y :=
                List.forall_mem_append.mpr ⟨hgreater', List.forall_mem_singleton.mpr hg'⟩
              cases same' with
              | nil =>
                  obtain ⟨m, smaller', hm, hsmaller', hlength, hpass⟩ :=
                    pass_fetch (l := []) (fun y hy => absurd hy List.not_mem_nil) hg'.le hsmaller
                      hrest
                  have hrotate := ih hsame hgreater'' hsmaller' (hlength.trans hn')
                  simp only [List.nil_append, List.append_assoc, List.cons_append,
                    List.rotate_nil] at hrotate hpass ⊢
                  rw [hpass, ofSize_cons_of_ne hm.ne, hrotate]
              | cons v same' =>
                  obtain ⟨hv, hsame'⟩ := List.forall_mem_cons.mp hsame
                  have hg'v : byKey key g' v = true := byKey_eq_true.mpr (hv ▸ hg')
                  obtain ⟨m, smaller', hm, hsmaller', hlength, hpass⟩ :=
                    pass_fetch (fun y hy => (hv.trans (hsame' y hy).symm).le) hv.ge hsmaller hrest
                  have hsame'' : ∀ y ∈ [] ++ (same' ++ [v]), key y = r := by
                    rw [List.nil_append]
                    exact List.forall_mem_append.mpr ⟨hsame', List.forall_mem_singleton.mpr hv⟩
                  have hrotate := ih hsame'' hgreater'' hsmaller' (hlength.trans hn')
                  simp only [List.nil_append, List.append_assoc, List.cons_append,
                    List.rotate_cons_succ] at hrotate hpass ⊢
                  rw [pass, hg'v, if_pos rfl, hpass, ofSize_cons_of_ne hm.ne, hrotate]

/-- Smaller elements in front are sorted first, and leave the others where they are. -/
theorem ofSize_sort_front {front same greater smaller rest : List α}
    (hfront : ∀ y ∈ front, key y < r) (hsame : ∀ y ∈ same, key y = r)
    (hgreater : ∀ y ∈ greater, r < key y) (hsmaller : ∀ y ∈ smaller, key y < r)
    (hrest : ∀ y ∈ rest, r ≤ key y) :
  ofSize key r (sort (byKey key) (front ++ (same ++ (greater ++ (smaller ++ rest)))))
    = same.rotate smaller.length ++ ofSize key r rest
  := by
  generalize hn : front.length = n
  induction n generalizing front smaller with
  | zero =>
      obtain rfl := List.length_eq_zero_iff.mp hn
      have hsame' : ∀ y ∈ same ++ [], key y = r := by rwa [List.append_nil]
      have hrotate := ofSize_sort_rotate hsame' hgreater hsmaller hrest
      rwa [List.append_nil] at hrotate
  | succ n ih =>
      obtain ⟨x, front, rfl⟩ := List.exists_cons_of_length_eq_add_one hn
      have hpass : ∀ y ∈ (pass (byKey key) x front).1 :: (pass (byKey key) x front).2, key y < r :=
        fun y hy => hfront y (pass_perm.mem_iff.mp hy)
      have hlength : (pass (byKey key) x front).2.length = n :=
        length_pass.trans (Nat.succ.inj hn)
      rw [List.cons_append, sort, pass_append]
      revert hpass hlength
      generalize (pass (byKey key) x front).1 = x'
      generalize (pass (byKey key) x front).2 = front'
      intro hpass hlength
      obtain ⟨hx', hfront'⟩ := List.forall_mem_cons.mp hpass
      obtain ⟨m, smaller', hm, hsmaller', hlength', hpass'⟩ :=
        pass_smaller (List.forall_mem_cons.mpr ⟨hx', hsmaller⟩) hrest
      have hmiddle : ∀ y ∈ same ++ greater, byKey key x' y = false := by
        refine List.forall_mem_append.mpr ⟨fun y hy => ?_, fun y hy => ?_⟩
        · exact byKey_eq_false.mpr (hx'.le.trans (hsame y hy).ge)
        · exact byKey_eq_false.mpr (hx'.le.trans (hgreater y hy).le)
      rw [← List.append_assoc same, pass_append, pass_eq_self hmiddle, hpass',
        ofSize_cons_of_ne hm.ne, List.append_assoc, ih hfront' hsmaller' hlength, hlength']

/-- A list that is sorted by a key: the smaller elements, those of one size, the greater ones. -/
theorem eq_append_of_pairwise (h : l.Pairwise fun x y => key x ≤ key y) (r : ι) :
  l = l.filter (fun x => key x < r) ++ (ofSize key r l ++ l.filter fun x => r < key x)
  := by
  induction l with
  | nil => rfl
  | cons x l ih =>
      obtain ⟨hx, hl⟩ := List.pairwise_cons.mp h
      have hle : r ≤ key x → l.filter (fun x => key x < r) = [] := fun hr =>
        List.filter_eq_nil_iff.mpr fun y hy => by simpa using hr.trans (hx y hy)
      rcases lt_trichotomy (key x) r with hlt | heq | hgt
      · rw [ofSize_cons_of_ne hlt.ne, List.filter_cons_of_pos (by simpa using hlt),
          List.filter_cons_of_neg (by simpa using hlt.le), List.cons_append, ← ih hl]
      · rw [ofSize_cons_of_eq heq, List.filter_cons_of_neg (by simpa using heq.ge),
          List.filter_cons_of_neg (by simpa using heq.le), hle heq.ge, List.nil_append,
          List.cons_append]
        conv_lhs => rw [ih hl, hle heq.ge, List.nil_append]
      · have hnil : ofSize key r l = [] := ofSize_eq_nil fun y hy => (hgt.trans_le (hx y hy)).ne'
        rw [ofSize_cons_of_ne hgt.ne', List.filter_cons_of_neg (by simpa using hgt.le),
          List.filter_cons_of_pos (by simpa using hgt), hle hgt.le, hnil, List.nil_append,
          List.nil_append]
        conv_lhs => rw [ih hl, hle hgt.le, hnil, List.nil_append, List.nil_append]

/-- The order of the elements of one size when two sorted lists are sorted by exchange: those of
the first list, rotated by as many places as the second list has smaller elements, and those of
the second list. -/
theorem ofSize_sort_append (h : l.Pairwise fun x y => key x ≤ key y)
    (h' : l'.Pairwise fun x y => key x ≤ key y) (r : ι) :
  ofSize key r (sort (byKey key) (l ++ l'))
    = (ofSize key r l).rotate (l'.countP fun x => key x < r) ++ ofSize key r l'
  := by
  have hsame : ∀ l : List α, ∀ y ∈ ofSize key r l, key y = r := fun l y hy =>
    of_decide_eq_true (List.mem_filter.mp hy).2
  have hsmaller : ∀ l : List α, ∀ y ∈ l.filter fun x => key x < r, key y < r := fun l y hy =>
    of_decide_eq_true (List.mem_filter.mp hy).2
  have hgreater : ∀ l : List α, ∀ y ∈ l.filter fun x => r < key x, r < key y := fun l y hy =>
    of_decide_eq_true (List.mem_filter.mp hy).2
  have hrest : ∀ y ∈ ofSize key r l' ++ l'.filter fun x => r < key x, r ≤ key y :=
    List.forall_mem_append.mpr
      ⟨fun y hy => (hsame l' y hy).ge, fun y hy => (hgreater l' y hy).le⟩
  have hsort := ofSize_sort_front (hsmaller l) (hsame l) (hgreater l) (hsmaller l') hrest
  rw [ofSize_append, ofSize_eq_self (hsame l'), ofSize_eq_nil fun y hy => (hgreater l' y hy).ne',
    List.append_nil, ← List.countP_eq_length_filter] at hsort
  conv_lhs => rw [eq_append_of_pairwise h r, eq_append_of_pairwise h' r]
  simp only [List.append_assoc] at hsort ⊢
  rw [hsort]

/-- A list with increasing values is rotated to itself by whole turns only. -/
theorem rotate_pairwise_iff {κ : Type*} [LinearOrder κ] {value : α → κ} {n : ℕ} (hne : l ≠ [])
    (h : l.Pairwise fun x y => value x < value y) :
  ((l.rotate n).Pairwise fun x y => value x < value y) ↔ l.length ∣ n
  := by
  have hnodup : l.Nodup := h.imp fun hlt heq => hlt.ne (congrArg value heq)
  have hself : ((l.rotate n).Pairwise fun x y => value x < value y) ↔ l.rotate n = l := by
    constructor
    · intro hrotate
      have : Std.Irrefl fun x y => value x < value y := ⟨fun x => lt_irrefl (value x)⟩
      have : Std.Asymm fun x y => value x < value y := ⟨fun x y => lt_asymm⟩
      exact hrotate.eq_of_mem_iff h fun x => List.mem_rotate
    · intro heq
      rwa [heq]
  rw [hself, hnodup.rotate_eq_self_iff, or_iff_left hne, Nat.dvd_iff_mod_eq_zero]

end Exchange
