import Homeworks.CString.Format

/-!
# The order of texts

Of two numbers in decimal, the text of the greater one need not be the greater text: the digits of
the shorter text are compared with as many leading digits of the other, and `-` is less than every
digit.
-/

namespace CString

variable {s t u v : List Char} {a b : Nat}

/-- What follows two texts of one length is compared where they are the same. -/
theorem append_lt_append (h : s.length = t.length) :
  s ++ u < t ++ v ↔ s < t ∨ s = t ∧ u < v
  := by
  induction s generalizing t with
  | nil =>
      obtain rfl : t = [] := List.length_eq_zero_iff.mp h.symm
      simp
  | cons c s ih =>
      cases t with
      | nil => cases h
      | cons d t =>
          rw [List.cons_append, List.cons_append, List.cons_lt_cons_iff, List.cons_lt_cons_iff,
            ih (Nat.succ.inj h), List.cons.injEq]
          constructor
          · rintro (hlt | ⟨rfl, hlt | ⟨rfl, hlt⟩⟩)
            · exact .inl (.inl hlt)
            · exact .inl (.inr ⟨rfl, hlt⟩)
            · exact .inr ⟨⟨rfl, rfl⟩, hlt⟩
          · rintro ((hlt | ⟨rfl, hlt⟩) | ⟨⟨rfl, rfl⟩, hlt⟩)
            · exact .inl hlt
            · exact .inr ⟨rfl, .inl hlt⟩
            · exact .inr ⟨rfl, .inr ⟨rfl, hlt⟩⟩

/-- Of two different texts one is less than the other. -/
theorem lt_of_not_lt (h : ¬s < t) (hne : s ≠ t) : t < s
  := by
  induction s generalizing t with
  | nil =>
      cases t with
      | nil => exact absurd rfl hne
      | cons d t => exact absurd (List.nil_lt_cons d t) h
  | cons c s ih =>
      cases t with
      | nil => exact List.nil_lt_cons c s
      | cons d t =>
          rw [List.cons_lt_cons_iff, not_or, not_and] at h
          rw [List.cons_lt_cons_iff]
          rcases Classical.em (d < c) with hdc | hdc
          · exact .inl hdc
          · have hcd : c = d := Char.le_antisymm (Char.not_lt.mp hdc) (Char.not_lt.mp h.1)
            exact .inr ⟨hcd.symm, ih (h.2 hcd) fun heq => hne (by rw [hcd, heq])⟩

/-! ### Numbers without sign -/

theorem digitChar_lt_iff (ha : a < 10) (hb : b < 10) :
  a.digitChar < b.digitChar ↔ a < b
  := by
  have h : ∀ i : Fin 10, ∀ j : Fin 10, i.val.digitChar < j.val.digitChar ↔ i.val < j.val := by
    decide
  exact h ⟨a, ha⟩ ⟨b, hb⟩

theorem toDigits_injective (h : Nat.toDigits 10 a = Nat.toDigits 10 b) : a = b
  := by
  rw [← Nat.ofDigitChars_ten_toDigits (n := a), h, Nat.ofDigitChars_ten_toDigits]

/-- The last digit. -/
theorem toDigits_of_ten_le (h : 10 ≤ a) :
  Nat.toDigits 10 a = Nat.toDigits 10 (a / 10) ++ [(a % 10).digitChar]
  := Nat.toDigits_of_base_le (by decide) h

theorem length_toDigits_of_ten_le (h : 10 ≤ a) :
  (Nat.toDigits 10 a).length = (Nat.toDigits 10 (a / 10)).length + 1
  := by
  rw [toDigits_of_ten_le h, List.length_append, List.length_singleton]

/-- Numbers of one length are ordered as their digits are. -/
theorem toDigits_lt_iff_of_length
    (h : (Nat.toDigits 10 a).length = (Nat.toDigits 10 b).length) :
  Nat.toDigits 10 a < Nat.toDigits 10 b ↔ a < b
  := by
  induction a using Nat.strongRecOn generalizing b with
  | ind a ih =>
      rcases Nat.lt_or_ge a 10 with ha | ha <;> rcases Nat.lt_or_ge b 10 with hb | hb
      · rw [Nat.toDigits_of_lt_base ha, Nat.toDigits_of_lt_base hb, List.cons_lt_cons_iff,
          digitChar_lt_iff ha hb]
        simp
      · rw [Nat.toDigits_of_lt_base ha, length_toDigits_of_ten_le hb] at h
        exact absurd (Nat.succ.inj h).symm (Nat.ne_of_gt Nat.length_toDigits_pos)
      · rw [Nat.toDigits_of_lt_base hb, length_toDigits_of_ten_le ha] at h
        exact absurd (Nat.succ.inj h) (Nat.ne_of_gt Nat.length_toDigits_pos)
      · rw [length_toDigits_of_ten_le ha, length_toDigits_of_ten_le hb] at h
        rw [toDigits_of_ten_le ha, toDigits_of_ten_le hb, append_lt_append (Nat.succ.inj h),
          ih (a / 10) (by omega) (Nat.succ.inj h), List.cons_lt_cons_iff,
          digitChar_lt_iff (Nat.mod_lt a (by decide)) (Nat.mod_lt b (by decide))]
        have hdiv : Nat.toDigits 10 (a / 10) = Nat.toDigits 10 (b / 10) ↔ a / 10 = b / 10 :=
          ⟨toDigits_injective, congrArg _⟩
        simp only [hdiv, List.not_lt_nil, and_false, or_false]
        omega

/-- The leading digits of a number are a number of their own. -/
theorem exists_toDigits_div {k : Nat} (h : k < (Nat.toDigits 10 b).length) :
  ∃ r, r.length = k ∧ Nat.toDigits 10 b = Nat.toDigits 10 (b / 10 ^ k) ++ r
  := by
  induction k with
  | zero => exact ⟨[], rfl, by simp⟩
  | succ k ih =>
      obtain ⟨r, hr, hb⟩ := ih (Nat.lt_of_succ_lt h)
      have hten : 10 ≤ b / 10 ^ k := by
        refine Nat.le_of_not_lt fun hlt => ?_
        rw [hb, Nat.toDigits_of_lt_base hlt, List.length_append, hr, List.length_singleton] at h
        omega
      refine ⟨(b / 10 ^ k % 10).digitChar :: r, congrArg Nat.succ hr, ?_⟩
      rw [hb, toDigits_of_ten_le hten, Nat.div_div_eq_div_mul, ← Nat.pow_succ, List.append_assoc]
      rfl

/-- The digits of the smaller number are compared with as many leading digits of the greater
one. -/
theorem toDigits_lt_iff (h : a < b) :
  Nat.toDigits 10 a < Nat.toDigits 10 b
    ↔ a ≤ b / 10 ^ ((Nat.toDigits 10 b).length - (Nat.toDigits 10 a).length)
  := by
  have hle : (Nat.toDigits 10 a).length ≤ (Nat.toDigits 10 b).length := by
    rw [Nat.length_toDigits_le_iff (by decide) Nat.length_toDigits_pos]
    exact Nat.lt_trans h
      ((Nat.length_toDigits_le_iff (by decide) Nat.length_toDigits_pos).mp (Nat.le_refl _))
  generalize hk : (Nat.toDigits 10 b).length - (Nat.toDigits 10 a).length = k
  have hpos : 0 < (Nat.toDigits 10 a).length := Nat.length_toDigits_pos
  obtain ⟨r, hr, hb⟩ := exists_toDigits_div (b := b) (k := k) (by omega)
  have hlength : (Nat.toDigits 10 a).length = (Nat.toDigits 10 (b / 10 ^ k)).length := by
    rw [hb, List.length_append, hr] at hk hle
    omega
  have hlt := append_lt_append (u := []) (v := r) hlength
  rw [List.append_nil, ← hb, toDigits_lt_iff_of_length hlength] at hlt
  rw [hlt, Nat.le_iff_lt_or_eq]
  refine or_congr_right ⟨fun heq => toDigits_injective heq.1, fun heq => ?_⟩
  refine ⟨congrArg _ heq, ?_⟩
  cases r with
  | cons c r => exact List.nil_lt_cons c r
  | nil =>
      -- without digits that follow, the two numbers are the same
      rw [← hr, List.length_nil, Nat.pow_zero, Nat.div_one] at heq
      exact absurd heq (Nat.ne_of_lt h)

/-! ### Numbers with sign -/

/-- The text of the first of two numbers is less than that of the second, which is greater. -/
def OrderedDecimal (m n : Int) : Prop :=
  let length k := (Nat.toDigits 10 k).length
  (0 ≤ m → m.natAbs ≤ n.natAbs / 10 ^ (length n.natAbs - length m.natAbs))
  ∧ (n < 0 → m.natAbs / 10 ^ (length m.natAbs - length n.natAbs) < n.natAbs)

instance (m n : Int) : Decidable (OrderedDecimal m n) :=
  inferInstanceAs (Decidable ((_ → _) ∧ (_ → _)))

theorem decimal_of_neg {n : Int} (h : n < 0) : decimal n = '-' :: Nat.toDigits 10 n.natAbs
  := if_pos h

theorem decimal_of_nonneg {n : Int} (h : 0 ≤ n) : decimal n = Nat.toDigits 10 n.natAbs
  := if_neg (Int.not_lt.mpr h)

theorem decimal_injective {m n : Int} (h : decimal m = decimal n) : m = n
  := by
  have hread : ∀ k : Int, number (decimal k) = some (k, []) := fun k => by
    rw [← List.append_nil (decimal k), number_decimal (t := []) nofun]
  have hm := hread m
  rw [h, hread] at hm
  exact (congrArg Prod.fst (Option.some.inj hm)).symm

theorem minus_lt_of_isDigit {c : Char} (h : c.isDigit = true) : '-' < c
  := by
  simp only [Char.isDigit, Bool.and_eq_true, decide_eq_true_eq] at h
  exact Nat.lt_of_lt_of_le (by decide) h.1

theorem decimal_lt_iff {m n : Int} (h : m < n) : decimal m < decimal n ↔ OrderedDecimal m n
  := by
  rcases Int.lt_or_le m 0 with hm | hm
  · rw [decimal_of_neg hm]
    rcases Int.lt_or_le n 0 with hn | hn
    · -- among negative numbers, the smaller one has the greater absolute value
      have habs : n.natAbs < m.natAbs := by omega
      have hne : Nat.toDigits 10 m.natAbs ≠ Nat.toDigits 10 n.natAbs := fun heq =>
        Nat.ne_of_gt habs (toDigits_injective heq)
      have hflip : Nat.toDigits 10 m.natAbs < Nat.toDigits 10 n.natAbs
          ↔ ¬Nat.toDigits 10 n.natAbs < Nat.toDigits 10 m.natAbs :=
        ⟨List.lt_asymm, fun hnlt => lt_of_not_lt hnlt hne.symm⟩
      rw [decimal_of_neg hn, List.cons_lt_cons_iff, hflip, toDigits_lt_iff habs, Nat.not_le]
      simp [OrderedDecimal, Int.not_le.mpr hm, hn]
    · obtain ⟨c, r, hc⟩ := List.exists_cons_of_ne_nil (Nat.toDigits_ne_nil (n := n.natAbs))
      have hdigit : c.isDigit = true :=
        isDigit_toDigits c (hc ▸ List.mem_cons_self)
      rw [decimal_of_nonneg hn, hc, List.cons_lt_cons_iff]
      simp only [minus_lt_of_isDigit hdigit, true_or, true_iff]
      exact ⟨fun hm' => absurd hm' (Int.not_le.mpr hm), fun hn' => absurd hn (Int.not_le.mpr hn')⟩
  · have hn : 0 ≤ n := Int.le_trans hm (Int.le_of_lt h)
    rw [decimal_of_nonneg hm, decimal_of_nonneg hn, toDigits_lt_iff (by omega)]
    simp [OrderedDecimal, hm, Int.not_lt.mpr hn]

end CString
