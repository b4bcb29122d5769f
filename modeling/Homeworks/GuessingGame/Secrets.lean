import Homeworks.GuessingGame.Game

/-!
# Secrets that can be guessed

The digits of a secret differ, and its first digit comes from the first random number.  A number
whose digits differ is accepted, but not with a 0 in front, while the secret may start with 0.
-/

namespace GuessingGame

variable {digitNum : Fin DIGIT} {s : Generation digitNum} {rand : ℕ → ℕ} {n : ℕ}
  {num secret userNum : Digits}

/-! ### Drawing -/

/-- The digits below an index differ. -/
def DistinctBelow (num : Digits) (i : ℕ) : Prop :=
  ∀ j k : Fin DIGIT, j < k → k < i → getElem num j j.isLt ≠ getElem num k k.isLt

theorem getElem_set {i : ℕ} (h : i < DIGIT) (d : Digit) (j : Fin DIGIT) :
  getElem (num.set i d h) j j.isLt = if j.val = i then d else getElem num j j.isLt
  := by
  rw [Fin.getElem_fin, Fin.getElem_fin, Vector.getElem_set]
  simp only [eq_comm]

theorem getElem_set_of_ne {i : ℕ} (h : i < DIGIT) (d : Digit) {j : Fin DIGIT} (hj : j.val ≠ i) :
  getElem (num.set i d h) j j.isLt = getElem num j j.isLt
  := by rw [getElem_set, if_neg hj]

/-- What a step does, as long as there are digits to be drawn. -/
theorem step_cases (h : s.i < digitNum) (r : ℕ) :
  (s.step r).randomNum = s.randomNum.set s.i (Fin.ofNat 16 r) (h.trans digitNum.isLt)
    ∧ ((s.step r).i = s.i ∧ 0 < s.i
      ∨ (s.step r).i = s.i + 1
        ∧ ∀ j : Fin DIGIT, j < s.i → getElem s.randomNum j j.isLt ≠ Fin.ofNat 16 r)
  := by
  rw [Generation.step, dif_pos h]
  dsimp only
  split_ifs with hrepeats
  · obtain ⟨j, -⟩ := hrepeats
    exact ⟨rfl, .inl ⟨rfl, Nat.zero_lt_of_lt j.isLt⟩⟩
  · exact ⟨rfl, .inr ⟨rfl, fun j hj heq => hrepeats ⟨⟨j, hj⟩, heq⟩⟩⟩

theorem step_of_le (h : digitNum ≤ s.i) (r : ℕ) : s.step r = s
  := dif_neg (Nat.not_lt.mpr h)

theorem distinctBelow_step (h : DistinctBelow s.randomNum s.i) (r : ℕ) :
  DistinctBelow (s.step r).randomNum (s.step r).i
  := by
  rcases Nat.lt_or_ge s.i digitNum with hlt | hge
  · obtain ⟨hnum, ⟨hi, -⟩ | ⟨hi, hnew⟩⟩ := step_cases hlt r
    · rw [hnum, hi]
      intro j k hjk hk
      rw [getElem_set_of_ne _ _ (by omega), getElem_set_of_ne _ _ (by omega)]
      exact h j k hjk hk
    · rw [hnum, hi]
      intro j k hjk hk
      rw [getElem_set_of_ne _ _ (by omega), getElem_set]
      split_ifs with heq
      · exact hnew j (by omega)
      · exact h j k hjk (by omega)
  · rwa [step_of_le hge]

theorem distinctBelow_run : DistinctBelow (run digitNum rand n).randomNum (run digitNum rand n).i
  := by
  induction n with
  | zero => exact fun j k _ hk => absurd hk (Nat.not_lt_zero _)
  | succ n ih => exact distinctBelow_step ih _

theorem zero_lt_room : 0 < 17 := Nat.zero_lt_succ 16

/-- The first digit. -/
def Digits.first (num : Digits) : Digit := getElem num 0 zero_lt_room

/-- The first step draws the first digit. -/
theorem first_step (hpos : 0 < digitNum.val) (h : s.i = 0) (r : ℕ) :
  0 < (s.step r).i ∧ Digits.first (s.step r).randomNum = Fin.ofNat 16 r
  := by
  obtain ⟨hnum, ⟨-, hi⟩ | ⟨hi, -⟩⟩ := step_cases (h.trans_lt hpos) r
  · exact absurd h (Nat.ne_of_gt hi)
  · refine ⟨hi ▸ Nat.succ_pos _, ?_⟩
    rw [hnum]
    exact (getElem_set _ _ ⟨0, Nat.zero_lt_succ 16⟩).trans (if_pos h.symm)

/-- Later steps leave it. -/
theorem first_step_of_pos (h : 0 < s.i) (r : ℕ) :
  0 < (s.step r).i ∧ Digits.first (s.step r).randomNum = Digits.first s.randomNum
  := by
  rcases Nat.lt_or_ge s.i digitNum with hlt | hge
  · obtain ⟨hnum, hi⟩ := step_cases hlt r
    refine ⟨by omega, ?_⟩
    rw [hnum]
    exact getElem_set_of_ne _ _ (j := ⟨0, Nat.zero_lt_succ 16⟩) (Nat.ne_of_lt h)
  · rw [step_of_le hge]
    exact ⟨h, rfl⟩

theorem first_run (hpos : 0 < digitNum.val) :
  0 < (run digitNum rand (n + 1)).i
    ∧ Digits.first (run digitNum rand (n + 1)).randomNum = Fin.ofNat 16 (rand 0)
  := by
  induction n with
  | zero => exact first_step hpos rfl _
  | succ n ih =>
      obtain ⟨hi, hfirst⟩ := ih
      obtain ⟨hi', hfirst'⟩ := first_step_of_pos hi (rand (n + 1))
      exact ⟨hi', hfirst'.trans hfirst⟩

/-- What is known about a secret. -/
theorem Generates.spec (hpos : 0 < digitNum.val) (h : Generates digitNum rand secret) :
  DistinctBelow secret digitNum ∧ Digits.first secret = Fin.ofNat 16 (rand 0)
  := by
  obtain ⟨n, hi, rfl⟩ := h
  refine ⟨hi ▸ distinctBelow_run, ?_⟩
  cases n with
  | zero => exact absurd hi (Nat.ne_of_lt hpos)
  | succ n => exact (first_run hpos).2

/-! ### Typing -/

theorem digit?_digitChar (d : Digit) : digit? (Nat.digitChar d) = some d
  := by
  have h : ∀ d : Digit, digit? (Nat.digitChar d) = some d := by decide
  exact h d

theorem isSpace_digitChar (d : Digit) : CString.isSpace (Nat.digitChar d) = false
  := by
  have h : ∀ d : Digit, CString.isSpace (Nat.digitChar d) = false := by decide
  exact h d

theorem filter_typed :
  (typed digitNum num).filter (fun c => !CString.isSpace c) = typed digitNum num
  := by
  refine List.filter_eq_self.mpr fun c hc => ?_
  obtain ⟨i, -, rfl⟩ := List.mem_map.mp hc
  rw [isSpace_digitChar]
  rfl

/-- Digits are read into the array from an index on. -/
theorem readDigits_map (num : Digits) {ds : List Digit} {i : ℕ} (h : i + ds.length ≤ DIGIT) :
  ∃ num', readDigits (ds.map fun d : Digit => Nat.digitChar d) i num = .ok (i + ds.length, num')
    ∧ ∀ j : Fin DIGIT, getElem num' j j.isLt
      = if j < i then getElem num j j.isLt
        else ds[j - i]?.getD (getElem num j j.isLt)
  := by
  induction ds generalizing i num with
  | nil => exact ⟨num, rfl, fun j => by simp⟩
  | cons d ds ih =>
      rw [List.length_cons] at h
      have hi : i < DIGIT := by omega
      obtain ⟨num', hread, hnum'⟩ := ih (num.set i d hi) (i := i + 1) (by omega)
      refine ⟨num', ?_, fun j => ?_⟩
      · rw [List.map_cons, readDigits, digit?_digitChar]
        dsimp only
        rw [dif_pos hi, hread, List.length_cons, Nat.add_right_comm, Nat.add_assoc]
      · rw [hnum' j]
        rcases Nat.lt_trichotomy j i with hj | hj | hj
        · rw [if_pos (Nat.lt_succ_of_lt hj), if_pos hj, getElem_set_of_ne _ _ (Nat.ne_of_lt hj)]
        · rw [if_pos (hj ▸ Nat.lt_succ_self _), if_neg (hj ▸ Nat.lt_irrefl _), getElem_set,
            if_pos hj, hj, Nat.sub_self]
          rfl
        · rw [if_neg (Nat.not_lt.mpr hj), if_neg (Nat.lt_asymm hj),
            getElem_set_of_ne _ _ (Nat.ne_of_gt hj), show j - i = j - (i + 1) + 1 by omega]
          rfl

/-- A number is read as it was typed. -/
theorem readDigits_typed (digitNum : Fin DIGIT) (num userNum : Digits) :
  ∃ num', readDigits (typed digitNum num) 0 userNum = .ok (digitNum, num')
    ∧ ∀ i : Fin digitNum, digitAt num' i = digitAt num i
  := by
  have hlength : ((List.finRange digitNum).map (digitAt num)).length = digitNum := by
    rw [List.length_map, List.length_finRange]
  have hbound : 0 + ((List.finRange digitNum).map (digitAt num)).length ≤ DIGIT := by
    rw [hlength, Nat.zero_add]
    exact digitNum.isLt.le
  obtain ⟨num', hread, hnum'⟩ := readDigits_map userNum hbound
  rw [List.map_map, hlength, Nat.zero_add] at hread
  refine ⟨num', hread, fun i => ?_⟩
  have hi := hnum' ⟨i, i.isLt.trans digitNum.isLt⟩
  rw [if_neg (Nat.not_lt_zero _)] at hi
  refine hi.trans ?_
  simp

/-! ### Guessing -/

theorem getInput_of_readDigits {input : List Char} {i : ℕ} {num' : Digits}
    (h : readDigits (input.filter fun c => !CString.isSpace c) 0 num = .ok (i, num')) :
  getInput digitNum input num
    = if Digits.first num' = 0 then .error .E1
      else if i ≠ digitNum then .error .E1
      else if Repeats digitNum num' then .error .E1
      else .ok num'
  := by
  rw [getInput, h, Digits.first]
  dsimp only [bind, Except.bind, pure, Except.pure, throw, throwThe, MonadExceptOf.throw]

theorem repeats_iff : Repeats digitNum num ↔ ¬DistinctBelow num digitNum
  := by
  constructor
  · rintro ⟨j, k, hjk, heq⟩ hdistinct
    exact hdistinct ⟨j, j.isLt.trans digitNum.isLt⟩ ⟨k, k.isLt.trans digitNum.isLt⟩ hjk k.isLt heq
  · intro h
    by_contra hrepeats
    exact h fun j k hjk hk heq => hrepeats ⟨⟨j, (Fin.lt_def.mp hjk).trans hk⟩, ⟨k, hk⟩, hjk, heq⟩

/-- A number is found when it is guessed. -/
theorem hints_of_eq (h : ∀ i : Fin digitNum, digitAt userNum i = digitAt secret i) (count : ℕ) :
  hints digitNum secret userNum count = .found count
  := by
  have hfold : ∀ (places : List (Fin digitNum)) (t : Tally),
      places.foldl (Tally.compare secret userNum) t
        = { t with exact := t.exact + places.length } := by
    intro places
    induction places with
    | nil => exact fun _ => rfl
    | cons i places ih =>
        intro t
        rw [List.foldl_cons, ih, Tally.compare, if_pos (h i).symm, List.length_cons,
          Nat.add_assoc, Nat.add_comm 1]
  rw [hints, hfold, List.length_finRange, Nat.zero_add]
  exact if_pos rfl

/-- A number whose digits differ is guessable if it does not start with 0. -/
theorem guessable_iff (hpos : 0 < digitNum.val) (h : DistinctBelow secret digitNum) :
  Guessable digitNum secret ↔ Digits.first secret ≠ 0
  := by
  have hinput : ∀ userNum, ∃ userNum',
      (∀ i : Fin digitNum, digitAt userNum' i = digitAt secret i)
      ∧ getInput digitNum (typed digitNum secret) userNum
        = if Digits.first secret = 0 then .error .E1 else .ok userNum' := by
    intro userNum
    obtain ⟨userNum', hread, heq⟩ := readDigits_typed digitNum secret userNum
    refine ⟨userNum', heq, ?_⟩
    have hfirst : getElem userNum' 0 (Nat.zero_lt_succ 16) = Digits.first secret := heq ⟨0, hpos⟩
    have hrepeats : ¬Repeats digitNum userNum' := by
      rintro ⟨j, k, hjk, hsame⟩
      rw [heq, heq] at hsame
      exact repeats_iff.mp ⟨j, k, hjk, hsame⟩ h
    rw [← filter_typed] at hread
    rw [getInput_of_readDigits hread, ← hfirst, Digits.first, if_neg
      (fun hne => hne rfl : ¬digitNum.val ≠ digitNum), if_neg hrepeats]
  constructor
  · intro hguess hzero
    obtain ⟨userNum', hok, -⟩ := hguess secret 1
    obtain ⟨_, -, heq⟩ := hinput secret
    rw [heq, if_pos hzero] at hok
    cases hok
  · intro hne userNum count
    obtain ⟨userNum', hdigits, heq⟩ := hinput userNum
    rw [if_neg hne] at heq
    exact ⟨userNum', heq, hdigits, hints_of_eq hdigits count⟩

/-- A secret of at least one digit can be guessed if and only if the first random number is not
divisible by 16. -/
theorem guessable_of_generates_iff (digitNum : Fin DIGIT) (hpos : 0 < digitNum.val)
    (rand : ℕ → ℕ) (secret : Digits) (h : Generates digitNum rand secret) :
  Guessable digitNum secret ↔ ¬16 ∣ rand 0
  := by
  obtain ⟨hdistinct, hfirst⟩ := h.spec hpos
  rw [guessable_iff hpos hdistinct, hfirst, Nat.dvd_iff_mod_eq_zero, not_iff_not, Fin.ext_iff]
  rfl

theorem guessable_two_digits :
  Guessable (Fin.ofNat 17 2) (run (Fin.ofNat 17 2) (fun n => 40 + n) 2).randomNum
  := (guessable_of_generates_iff (Fin.ofNat 17 2) (by decide) (fun n => 40 + n) _
    ⟨2, by decide, rfl⟩).mpr (by decide)

/-- The secret `0` cannot be guessed. -/
theorem zero_not_guessable :
  ¬ ∀ (digitNum : Fin DIGIT), 0 < digitNum.val → ∀ (rand : ℕ → ℕ) (secret : Digits),
    Generates digitNum rand secret → Guessable digitNum secret
  := by
  intro h
  obtain ⟨userNum', hok, -⟩ := h (Fin.ofNat 17 1) (by decide) (fun _ => 0)
    (Vector.replicate DIGIT 0) ⟨1, by decide, by decide⟩ (Vector.replicate DIGIT 0) 1
  have herror : getInput (Fin.ofNat 17 1) (typed (Fin.ofNat 17 1) (Vector.replicate DIGIT 0))
      (Vector.replicate DIGIT 0) = .error .E1 := by decide
  rw [herror] at hok
  cases hok

end GuessingGame
