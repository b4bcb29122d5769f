import Homeworks.GuessingGame.Secrets

/-!
# Legal guesses

A guess that is typed without a mistake is accepted, and nothing else is.  A line with more digits
than there is room for is written past the end of the array, before its length is looked at.
-/

namespace GuessingGame

variable {digitNum : Fin DIGIT} {num userNum : Digits} {input : List Char} {i : ℕ}

/-- The characters of a line without its white space. -/
def withoutSpaces (input : List Char) : List Char := input.filter fun c => !CString.isSpace c

def hexDigits : List Char := "0123456789abcdef".toList

/-- The number of digits that is asked for, all of them different, and no 0 in front. -/
structure Legal (digitNum : Fin DIGIT) (guess : List Char) : Prop where
  length_eq : guess.length = digitNum
  nodup : guess.Nodup
  hex : ∀ c ∈ guess, c ∈ hexDigits
  first : guess.head? ≠ some '0'

/-- The array has no room for all the digits in front of the first other character. -/
def Overflows (guess : List Char) : Prop :=
  DIGIT < guess.length ∧ ∀ c ∈ guess.take (DIGIT + 1), c ∈ hexDigits

/-! ### Digits -/

theorem hexDigits_eq :
  hexDigits = (List.finRange 16).map fun d : Digit => Nat.digitChar d
  := by decide

theorem toNat_digitChar (d : Digit) :
  (Nat.digitChar d).toNat = if d < 10 then d.val + 48 else d.val + 87
  := by
  have h : ∀ d : Digit,
      (Nat.digitChar d).toNat = if d < 10 then d.val + 48 else d.val + 87 := by decide
  exact h d

theorem digitChar_injective {d d' : Digit} (h : Nat.digitChar d = Nat.digitChar d') : d = d'
  := by
  have heq := digit?_digitChar d
  rw [h, digit?_digitChar] at heq
  exact (Option.some.inj heq).symm

theorem digitChar_eq_zero_iff {d : Digit} : Nat.digitChar d = '0' ↔ d = 0
  := by
  constructor
  · intro h
    apply digitChar_injective
    rw [h]
    rfl
  · rintro rfl
    rfl

/-- The characters that have a value are the hexadecimal digits. -/
theorem eq_digitChar_of_digit? {c : Char} {d : Digit} (h : digit? c = some d) :
  c = Nat.digitChar d
  := by
  apply Char.toNat_inj.mp
  rw [digit?] at h
  split_ifs at h with hdecimal hletter
  all_goals
    obtain rfl := Option.some.inj h
    rw [toNat_digitChar]
    simp only [Fin.lt_def, Fin.ofNat]
    split_ifs with hlt <;> omega

theorem mem_hexDigits_iff {c : Char} :
  c ∈ hexDigits ↔ ∃ d, digit? c = some d
  := by
  rw [hexDigits_eq, List.mem_map]
  constructor
  · rintro ⟨d, -, rfl⟩
    exact ⟨d, digit?_digitChar d⟩
  · rintro ⟨d, h⟩
    exact ⟨d, List.mem_finRange d, (eq_digitChar_of_digit? h).symm⟩

theorem exists_digits {guess : List Char} (h : ∀ c ∈ guess, c ∈ hexDigits) :
  ∃ ds : List Digit, guess = ds.map fun d : Digit => Nat.digitChar d
  := by
  induction guess with
  | nil => exact ⟨[], rfl⟩
  | cons c guess ih =>
      obtain ⟨d, hd⟩ := mem_hexDigits_iff.mp (h c List.mem_cons_self)
      obtain ⟨ds, rfl⟩ := ih fun c hc => h c (List.mem_cons_of_mem _ hc)
      use d :: ds
      rw [List.map_cons, eq_digitChar_of_digit? hd]

/-! ### Reading -/

/-- What the loop reads, if it does not leave the function. -/
theorem hex_of_readDigits {guess : List Char} {n : ℕ} {num' : Digits} (hi : i ≤ DIGIT)
    (h : readDigits guess i num = .ok (n, num')) :
  (∀ c ∈ guess, c ∈ hexDigits) ∧ i + guess.length ≤ DIGIT
  := by
  induction guess generalizing i num with
  | nil => exact ⟨fun c hc => absurd hc List.not_mem_nil, hi⟩
  | cons c guess ih =>
      rw [readDigits] at h
      cases hc : digit? c with
      | none =>
          rw [hc] at h
          cases h
      | some d =>
          rw [hc] at h
          dsimp only at h
          split_ifs at h with hlt
          obtain ⟨hall, hlength⟩ := ih hlt h
          constructor
          · rw [List.forall_mem_cons]
            exact ⟨mem_hexDigits_iff.mpr ⟨d, hc⟩, hall⟩
          · rw [List.length_cons]
            omega

/-- The loop writes past the end of the array if the digits in front of the first other character
are too many. -/
theorem readDigits_pastEnd_iff {guess : List Char} (hi : i ≤ DIGIT) :
  readDigits guess i num = .error .pastEnd
    ↔ DIGIT < i + guess.length ∧ ∀ c ∈ guess.take (DIGIT + 1 - i), c ∈ hexDigits
  := by
  induction guess generalizing i num with
  | nil =>
      constructor
      · intro h
        cases h
      · intro h
        exact absurd h.1 (Nat.not_lt.mpr hi)
  | cons c guess ih =>
      rw [readDigits, List.length_cons, show DIGIT + 1 - i = DIGIT - i + 1 by omega,
        List.take_succ_cons, List.forall_mem_cons]
      cases hc : digit? c with
      | none =>
          have hmem : c ∉ hexDigits := by
            rw [mem_hexDigits_iff, hc]
            rintro ⟨d, hd⟩
            cases hd
          constructor
          · intro h
            cases h
          · intro h
            exact absurd h.2.1 hmem
      | some d =>
          have hmem : c ∈ hexDigits := mem_hexDigits_iff.mpr ⟨d, hc⟩
          dsimp only
          split_ifs with hlt
          · rw [ih hlt, show DIGIT + 1 - (i + 1) = DIGIT - i by omega]
            constructor
            · intro h
              exact ⟨by omega, hmem, h.2⟩
            · intro h
              exact ⟨by omega, h.2.2⟩
          · obtain rfl : i = DIGIT := Nat.le_antisymm hi (Nat.not_lt.mp hlt)
            rw [Nat.sub_self, List.take_zero]
            constructor
            · intro _
              exact ⟨by omega, hmem, fun c hc => absurd hc List.not_mem_nil⟩
            · intro _
              rfl

/-- Digits for which there is room are read into the array. -/
theorem exists_readDigits {guess : List Char} (digitNum : Fin DIGIT) (num : Digits)
    (hhex : ∀ c ∈ guess, c ∈ hexDigits) (hlength : guess.length ≤ DIGIT) :
  ∃ num', readDigits guess 0 num = .ok (guess.length, num')
    ∧ (guess.length = digitNum → typed digitNum num' = guess)
  := by
  obtain ⟨ds, rfl⟩ := exists_digits hhex
  rw [List.length_map] at hlength
  have hbound : 0 + ds.length ≤ DIGIT := by rwa [Nat.zero_add]
  obtain ⟨num', hread, hnum'⟩ := readDigits_map num hbound
  rw [Nat.zero_add] at hread
  refine ⟨num', ?_, ?_⟩
  · rw [hread, List.length_map]
  · intro heq
    rw [List.length_map] at heq
    apply List.ext_getElem
    · rw [typed, List.length_map, List.length_finRange, List.length_map, heq]
    · intro k hk hk'
      rw [List.length_map] at hk'
      have hdigit := hnum' ⟨k, hk'.trans_le hlength⟩
      rw [if_neg (Nat.not_lt_zero _), Nat.sub_zero, List.getElem?_eq_getElem hk',
        Option.getD_some] at hdigit
      simp only [typed, List.getElem_map, List.getElem_finRange, ← hdigit]
      rfl

/-! ### Accepting -/

/-- An array holds a legal guess if its first digit is not 0 and no digit repeats another one. -/
theorem legal_typed_iff (hpos : 0 < digitNum.val) :
  Legal digitNum (typed digitNum num) ↔ Digits.first num ≠ 0 ∧ ¬Repeats digitNum num
  := by
  have hhead : (typed digitNum num).head? = some (Nat.digitChar (Digits.first num)) := by
    rw [List.head?_eq_getElem?, typed, List.getElem?_map, List.getElem?_eq_getElem
      (by rwa [List.length_finRange]), List.getElem_finRange]
    rfl
  have hnodup : (typed digitNum num).Nodup ↔ ¬Repeats digitNum num := by
    rw [typed, List.nodup_map_iff_inj_on (List.nodup_finRange _)]
    constructor
    · rintro hinj ⟨j, k, hjk, heq⟩
      have hsame := hinj j (List.mem_finRange j) k (List.mem_finRange k)
        (congrArg (fun d : Digit => Nat.digitChar d) heq)
      exact absurd (congrArg Fin.val hsame) (Nat.ne_of_lt hjk)
    · intro hrepeats j _ k _ heq
      have hdigit := digitChar_injective heq
      rcases lt_trichotomy j k with hlt | hsame | hgt
      · exact absurd ⟨j, k, hlt, hdigit⟩ hrepeats
      · exact hsame
      · exact absurd ⟨k, j, hgt, hdigit.symm⟩ hrepeats
  constructor
  · intro h
    constructor
    · intro hzero
      apply h.first
      rw [hhead, hzero]
      rfl
    · exact hnodup.mp h.nodup
  · rintro ⟨hfirst, hrepeats⟩
    refine ⟨?_, hnodup.mpr hrepeats, ?_, ?_⟩
    · rw [typed, List.length_map, List.length_finRange]
    · intro c hc
      obtain ⟨i, -, rfl⟩ := List.mem_map.mp hc
      exact mem_hexDigits_iff.mpr ⟨_, digit?_digitChar _⟩
    · rw [hhead]
      intro hzero
      exact hfirst (digitChar_eq_zero_iff.mp (Option.some.inj hzero))

theorem getInput_pastEnd_iff :
  getInput digitNum input userNum = .error .pastEnd ↔ Overflows (withoutSpaces input)
  := by
  have hread : readDigits (withoutSpaces input) 0 userNum = .error .pastEnd ↔ _ :=
    readDigits_pastEnd_iff (Nat.zero_le DIGIT)
  rw [Nat.zero_add, Nat.sub_zero] at hread
  rw [Overflows, ← hread]
  cases h : readDigits (withoutSpaces input) 0 userNum with
  | error e =>
      rw [getInput, ← withoutSpaces, h]
      constructor
      · intro heq
        rw [Except.error.inj heq]
      · intro heq
        rw [Except.error.inj heq]
        rfl
  | ok result =>
      rw [getInput_of_readDigits h]
      split_ifs
      all_goals
        constructor
        · intro heq
          cases heq
        · intro heq
          cases heq

/-- The guesses that are accepted are the legal ones, and the array then holds their digits. -/
theorem legal_of_getInput (hpos : 0 < digitNum.val) {num' : Digits} :
  getInput digitNum input userNum = .ok num' →
    Legal digitNum (withoutSpaces input) ∧ typed digitNum num' = withoutSpaces input
  := by
  intro h
  cases hread : readDigits (withoutSpaces input) 0 userNum with
  | error e =>
      rw [getInput, ← withoutSpaces, hread] at h
      cases h
  | ok result =>
      obtain ⟨hhex, hlength⟩ := hex_of_readDigits (Nat.zero_le DIGIT) hread
      rw [Nat.zero_add] at hlength
      obtain ⟨num, heq, htyped⟩ := exists_readDigits digitNum userNum hhex hlength
      rw [getInput_of_readDigits heq] at h
      split_ifs at h with hzero hlen hrepeats
      obtain rfl := Except.ok.inj h
      have htyped := htyped (not_not.mp hlen)
      refine ⟨?_, htyped⟩
      rw [← htyped]
      exact (legal_typed_iff hpos).mpr ⟨hzero, hrepeats⟩

theorem exists_getInput_of_legal (hpos : 0 < digitNum.val)
    (h : Legal digitNum (withoutSpaces input)) :
  ∃ num', getInput digitNum input userNum = .ok num'
  := by
  have hlength : (withoutSpaces input).length ≤ DIGIT := h.length_eq ▸ digitNum.isLt.le
  obtain ⟨num, heq, htyped⟩ := exists_readDigits digitNum userNum h.hex hlength
  have hnum := h.length_eq
  rw [← htyped hnum] at h
  obtain ⟨hfirst, hrepeats⟩ := (legal_typed_iff hpos).mp h
  use num
  rw [getInput_of_readDigits heq, if_neg hfirst, if_neg (not_not.mpr hnum), if_neg hrepeats]

/-- The legal guesses, and they alone, are accepted with their digits in the array, and nothing is
written outside it, if and only if the line does not start with more digits than there is room
for. -/
theorem accepts_legal_iff (digitNum : Fin DIGIT) (hpos : 0 < digitNum.val) (input : List Char) :
  (∀ userNum,
    getInput digitNum input userNum ≠ .error .pastEnd
      ∧ ((∃ num', getInput digitNum input userNum = .ok num')
        ↔ Legal digitNum (withoutSpaces input))
      ∧ ∀ num', getInput digitNum input userNum = .ok num' →
        typed digitNum num' = withoutSpaces input)
    ↔ ¬Overflows (withoutSpaces input)
  := by
  constructor
  · intro h hoverflow
    apply (h (Vector.replicate DIGIT 0)).1
    exact getInput_pastEnd_iff.mpr hoverflow
  · intro h userNum
    refine ⟨?_, ?_, ?_⟩
    · intro hpast
      exact h (getInput_pastEnd_iff.mp hpast)
    · constructor
      · rintro ⟨num', hok⟩
        exact (legal_of_getInput hpos hok).1
      · intro hlegal
        exact exists_getInput_of_legal hpos hlegal
    · intro num' hok
      exact (legal_of_getInput hpos hok).2

theorem accepts_legal_four :
  getInput (Fin.ofNat 17 4) " 1a 2b".toList (Vector.replicate DIGIT 0) ≠ .error .pastEnd
  := (((accepts_legal_iff (Fin.ofNat 17 4) (by decide) " 1a 2b".toList).mpr
    (fun h => absurd h.1 (by decide))) _).1

/-- Eighteen digits are written into the array for seventeen. -/
theorem eighteen_digits :
  ¬ ∀ (digitNum : Fin DIGIT), 0 < digitNum.val → ∀ (input : List Char) (userNum : Digits),
    getInput digitNum input userNum ≠ .error .pastEnd
      ∧ ((∃ num', getInput digitNum input userNum = .ok num')
        ↔ Legal digitNum (withoutSpaces input))
      ∧ ∀ num', getInput digitNum input userNum = .ok num' →
        typed digitNum num' = withoutSpaces input
  := by
  intro h
  apply (h (Fin.ofNat 17 4) (by decide) (List.replicate 18 '1') (Vector.replicate DIGIT 0)).1
  decide

end GuessingGame
