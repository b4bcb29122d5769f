import Homeworks.WordSearch.Grid

/-!
# Where words are found

A word can be read at a place in a direction if its letters are there.  The program finds it in the
first direction in which it can be read, as far as it takes the lines to reach.
-/

namespace WordSearch

/-! ### Reading words -/

def Direction.down : Direction → ℕ
  | .horizontal => 0
  | .vertical => 1
  | .diagonal => 1

def Direction.right : Direction → ℕ
  | .horizontal => 1
  | .vertical => 0
  | .diagonal => 1

/-- The word can be read from a place on in a direction, inside the lines. -/
def Grid.Reads (g : Grid) (w : List Char) (d : Direction) (r c : ℕ) : Prop :=
  ∀ k < w.length, g.letter? (r + k * d.down) (c + k * d.right) = w[k]?

instance (g : Grid) (w : List Char) (d : Direction) (r c : ℕ) : Decidable (g.Reads w d r c) :=
  inferInstanceAs (Decidable (∀ k < w.length, _))

/-- The letters can be read, and the program looks at all the places: it starts inside what it takes
for the line, and it does not go beyond the line, or diagonally the longest one. -/
structure Grid.Found (g : Grid) (t : List Char) (d : Direction) (r c : ℕ) : Prop where
  ne_nil : t ≠ []
  starts : c < g.lineLength r
  reads : g.Reads t d r c
  inLine : d = .horizontal → c + t.length ≤ g.lineLength r
  inLongest : d = .diagonal → c + t.length ≤ g.maxLength

/-- The first of the three directions in which the letters are found. -/
def Grid.First (g : Grid) (t : List Char) (d : Direction) (r c : ℕ) : Prop :=
  g.Found t d r c ∧ (d ≠ .horizontal → ¬g.Found t .horizontal r c)
    ∧ (d = .diagonal → ¬g.Found t .vertical r c)

variable {g : Grid} {w t word : List Char} {d d' : Direction} {r c n i : ℕ} {same : ℕ → Bool}

/-! ### The matchers -/

theorem advance_eq_iff (hi : i ≤ n) :
  advance same n i = n ↔ ∀ k, i ≤ k → k < n → same k = true
  := by
  fun_induction advance same n i with
  | case1 i hlt hsame ih =>
      rw [ih hlt]
      constructor
      · intro h k hk hkn
        rcases Nat.eq_or_lt_of_le hk with rfl | hlt'
        · exact hsame
        · exact h k hlt' hkn
      · intro h k hk hkn
        exact h k (Nat.le_of_succ_le hk) hkn
  | case2 i hlt hsame =>
      constructor
      · intro h
        exact absurd h (Nat.ne_of_lt hlt)
      · intro h
        exact absurd (h i (Nat.le_refl i) hlt) hsame
  | case3 i hge =>
      constructor
      · intro _ k hk hkn
        exact absurd (Nat.lt_of_le_of_lt hk hkn) hge
      · intro _
        exact Nat.le_antisymm hi (Nat.not_lt.mp hge)

/-- The loop looks at the letters after the first one. -/
theorem advance_zero : advance same 0 1 ≠ 0
  := by
  rw [advance, if_neg (Nat.not_lt_zero 1)]
  exact Nat.one_ne_zero

/-- The letters of a word, as many as the program compares. -/
theorem letter_take {k : ℕ} (hk : k < n) (hn : n ≤ word.length) :
  (word.take n)[k]? = some (letter word k)
  := by
  have hlt : k < word.length := hk.trans_le hn
  rw [List.getElem?_take_of_lt hk, letter, List.getElem?_eq_getElem hlt]
  rfl

theorem letter_ne (hplain : Plain word) {k : ℕ} (hk : k < word.length) :
  letter word k ≠ '\n' ∧ letter word k ≠ '\x00'
  := by
  rw [letter, List.getElem?_eq_getElem hk]
  exact hplain _ (List.getElem_mem hk)

/-- The first letters of a word can be read if the first one is there, and the others are. -/
theorem reads_take_iff (hplain : Plain word) (hpos : 0 < n) (hn : n ≤ word.length) :
  g.Reads (word.take n) d r c
    ↔ letterAt g.rows r c = letter word 0
      ∧ ∀ k, 1 ≤ k → k < n → letterAt g.rows (r + k * d.down) (c + k * d.right) = letter word k
  := by
  have hlength : (word.take n).length = n := List.length_take_of_le hn
  constructor
  · intro h
    have hletter : ∀ k < n,
        letterAt g.rows (r + k * d.down) (c + k * d.right) = letter word k := by
      intro k hk
      rw [Grid.letterAt_eq_iff (letter_ne hplain (hk.trans_le hn)), h k (by omega),
        letter_take hk hn]
    constructor
    · have hfirst := hletter 0 hpos
      rwa [Nat.zero_mul, Nat.zero_mul] at hfirst
    · intro k _ hk
      exact hletter k hk
  · rintro ⟨hfirst, hothers⟩ k hk
    rw [hlength] at hk
    rw [letter_take hk hn, ← Grid.letterAt_eq_iff (letter_ne hplain (hk.trans_le hn))]
    rcases Nat.eq_zero_or_pos k with rfl | hk'
    · rwa [Nat.zero_mul, Nat.zero_mul]
    · exact hothers k hk' hk

/-- A word that can be read ends in a row of the grid. -/
theorem Grid.Reads.row_lt (h : g.Reads t d r c) (hne : t ≠ []) :
  r + (t.length - 1) * d.down < g.all.length
  := by
  have hpos := List.length_pos_iff.mpr hne
  have hlast := h (t.length - 1) (by omega)
  rw [List.getElem?_eq_getElem (by omega)] at hlast
  exact (Grid.length_of_letter? hlast).1

section

variable (hplain : Plain word) (hpos : 0 < n) (hn : n ≤ word.length)
  (hc : c < g.lineLength r) (hfirst : letterAt g.rows r c = letter word 0)

include hplain hpos hn hc hfirst

theorem isHorizontal_iff :
  isHorizontal g.rows word n r c = true ↔ g.Found (word.take n) .horizontal r c
  := by
  have hlength : (word.take n).length = n := List.length_take_of_le hn
  have hreads := reads_take_iff (g := g) (d := .horizontal) (r := r) (c := c) hplain hpos hn
  simp only [Direction.down, Direction.right, Nat.mul_zero, Nat.add_zero, Nat.mul_one] at hreads
  rw [isHorizontal, Grid.lineLength_rows]
  split_ifs with hroom
  · rw [decide_eq_true_iff, advance_eq_iff hpos]
    simp only [decide_eq_true_iff]
    constructor
    · intro h
      refine ⟨?_, hc, hreads.mpr ⟨hfirst, h⟩, ?_, ?_⟩
      · rw [← List.length_pos_iff, hlength]
        exact hpos
      · intro _
        omega
      · intro hd
        cases hd
    · intro h
      exact (hreads.mp h.reads).2
  · constructor
    · intro h
      cases h
    · intro h
      have hline := h.inLine rfl
      omega

theorem isVertical_iff :
  isVertical g.rows word n r c = true ↔ g.Found (word.take n) .vertical r c
  := by
  have hlength : (word.take n).length = n := List.length_take_of_le hn
  have hne : word.take n ≠ [] := by
    rw [← List.length_pos_iff, hlength]
    exact hpos
  have hreads := reads_take_iff (g := g) (d := .vertical) (r := r) (c := c) hplain hpos hn
  simp only [Direction.down, Direction.right, Nat.mul_zero, Nat.add_zero, Nat.mul_one] at hreads
  rw [isVertical, Grid.length_rows]
  split_ifs with hroom
  · rw [decide_eq_true_iff, advance_eq_iff hpos]
    simp only [decide_eq_true_iff]
    constructor
    · intro h
      refine ⟨hne, hc, hreads.mpr ⟨hfirst, h⟩, ?_, ?_⟩
      · intro hd
        cases hd
      · intro hd
        cases hd
    · intro h
      exact (hreads.mp h.reads).2
  · constructor
    · intro h
      cases h
    · intro h
      have hrow := h.reads.row_lt hne
      rw [hlength, Direction.down] at hrow
      omega

theorem isDiagonal_iff :
  isDiagonal g.rows word n r c = true ↔ g.Found (word.take n) .diagonal r c
  := by
  have hlength : (word.take n).length = n := List.length_take_of_le hn
  have hne : word.take n ≠ [] := by
    rw [← List.length_pos_iff, hlength]
    exact hpos
  have hreads := reads_take_iff (g := g) (d := .diagonal) (r := r) (c := c) hplain hpos hn
  simp only [Direction.down, Direction.right, Nat.mul_one] at hreads
  have hmax := hc.trans_le (g.lineLength_le_maxLength r)
  rw [isDiagonal, Grid.length_rows, Grid.maxLength_rows]
  split_ifs with hroom
  · rw [decide_eq_true_iff, advance_eq_iff hpos]
    simp only [Bool.and_eq_true, decide_eq_true_iff]
    constructor
    · intro h
      refine ⟨hne, hc, hreads.mpr ⟨hfirst, fun k hk hkn => (h k hk hkn).2⟩, ?_, ?_⟩
      · intro hd
        cases hd
      · intro _
        omega
    · intro h k hk hkn
      have hletter := (hreads.mp h.reads).2 k hk hkn
      rw [hletter]
      exact ⟨(letter_ne hplain (hkn.trans_le hn)).2, rfl⟩
  · constructor
    · intro h
      cases h
    · intro h
      have hrow := h.reads.row_lt hne
      have hlongest := h.inLongest rfl
      rw [hlength] at hlongest hrow
      rw [Direction.down] at hrow
      omega

end

/-- The direction that is written. -/
theorem found_eq_some_iff (hplain : Plain word) (hpos : 0 < n) (hn : n ≤ word.length)
    (hc : c < g.lineLength r) :
  found g.rows word n r c = some d ↔ g.First (word.take n) d r c
  := by
  rw [found]
  split_ifs with hfirst hhorizontal hvertical hdiagonal
  · rw [isHorizontal_iff hplain hpos hn hc hfirst] at hhorizontal
    constructor
    · intro heq
      obtain rfl := Option.some.inj heq
      refine ⟨hhorizontal, ?_, ?_⟩
      · intro hne
        exact absurd rfl hne
      · intro heq'
        cases heq'
    · intro h
      by_contra hne
      exact h.2.1 (fun heq => hne (heq ▸ rfl)) hhorizontal
  · rw [isHorizontal_iff hplain hpos hn hc hfirst] at hhorizontal
    rw [isVertical_iff hplain hpos hn hc hfirst] at hvertical
    constructor
    · intro heq
      obtain rfl := Option.some.inj heq
      refine ⟨hvertical, fun _ => hhorizontal, ?_⟩
      intro heq'
      cases heq'
    · intro h
      cases d with
      | horizontal => exact absurd h.1 hhorizontal
      | vertical => rfl
      | diagonal => exact absurd hvertical (h.2.2 rfl)
  · rw [isHorizontal_iff hplain hpos hn hc hfirst] at hhorizontal
    rw [isVertical_iff hplain hpos hn hc hfirst] at hvertical
    rw [isDiagonal_iff hplain hpos hn hc hfirst] at hdiagonal
    constructor
    · intro heq
      obtain rfl := Option.some.inj heq
      exact ⟨hdiagonal, fun _ => hhorizontal, fun _ => hvertical⟩
    · intro h
      cases d with
      | horizontal => exact absurd h.1 hhorizontal
      | vertical => exact absurd h.1 hvertical
      | diagonal => rfl
  · rw [isHorizontal_iff hplain hpos hn hc hfirst] at hhorizontal
    rw [isVertical_iff hplain hpos hn hc hfirst] at hvertical
    rw [isDiagonal_iff hplain hpos hn hc hfirst] at hdiagonal
    constructor
    · intro heq
      cases heq
    · intro h
      cases d with
      | horizontal => exact absurd h.1 hhorizontal
      | vertical => exact absurd h.1 hvertical
      | diagonal => exact absurd h.1 hdiagonal
  · constructor
    · intro heq
      cases heq
    · intro h
      exact absurd ((reads_take_iff hplain hpos hn).mp h.1.reads).1 hfirst

end WordSearch
