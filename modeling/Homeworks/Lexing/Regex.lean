import Mathlib.Computability.Language

/-!
# Regular expressions over classes of characters

Regular expressions whose atoms are classes of characters, the languages they denote, and their
derivatives, by which the longest match at the front of a text is found.
-/

inductive Regex (α : Type*) where
  | empty
  | eps
  | chars (p : α → Bool)
  | alt (r s : Regex α)
  | seq (r s : Regex α)
  | star (r : Regex α)

namespace Regex

variable {α : Type*} {r : Regex α} {w : List α} {c : α}

def language : Regex α → Language α
  | empty => 0
  | eps => 1
  | chars p => {w | ∃ c, w = [c] ∧ p c}
  | alt r s => r.language + s.language
  | seq r s => r.language * s.language
  | star r => KStar.kstar r.language

def nullable : Regex α → Bool
  | empty => false
  | eps => true
  | chars _ => false
  | alt r s => r.nullable || s.nullable
  | seq r s => r.nullable && s.nullable
  | star _ => true

/-- The words that come after a character. -/
def deriv (c : α) : Regex α → Regex α
  | empty => empty
  | eps => empty
  | chars p => if p c then eps else empty
  | alt r s => alt (r.deriv c) (s.deriv c)
  | seq r s => if r.nullable then alt (seq (r.deriv c) s) (s.deriv c) else seq (r.deriv c) s
  | star r => seq (r.deriv c) (star r)

theorem mem_chars {p : α → Bool} :
  w ∈ (chars p).language ↔ ∃ c, w = [c] ∧ p c = true
  := Iff.rfl

theorem nil_mem_iff :
  [] ∈ r.language ↔ r.nullable = true
  := by
  induction r with
  | empty => simp [language, nullable]
  | eps => simp [language, nullable]
  | chars p => simp [mem_chars, nullable]
  | alt r s hr hs => simp [language, nullable, Language.mem_add, hr, hs]
  | seq r s hr hs => simp [language, nullable, Language.mem_mul, hr, hs]
  | star r ih =>
      rw [language, nullable]
      exact ⟨fun _ => rfl, fun _ => Language.nil_mem_kstar r.language⟩

theorem cons_mem_mul {l m : Language α} :
  c :: w ∈ l * m ↔ (∃ u v, u ++ v = w ∧ c :: u ∈ l ∧ v ∈ m) ∨ [] ∈ l ∧ c :: w ∈ m
  := by
  rw [Language.mem_mul]
  constructor
  · rintro ⟨u, hu, v, hv, heq⟩
    cases u with
    | nil => exact .inr ⟨hu, heq ▸ hv⟩
    | cons d u =>
        cases heq
        exact .inl ⟨u, v, rfl, hu, hv⟩
  · rintro (⟨u, v, rfl, hu, hv⟩ | ⟨hnil, hw⟩)
    · exact ⟨c :: u, hu, v, hv, rfl⟩
    · exact ⟨[], hnil, c :: w, hw, rfl⟩

theorem cons_mem_kstar {l : Language α} :
  c :: w ∈ KStar.kstar l ↔ ∃ u v, u ++ v = w ∧ c :: u ∈ l ∧ v ∈ KStar.kstar l
  := by
  rw [Language.mem_kstar]
  constructor
  · rintro ⟨words, heq, hwords⟩
    induction words with
    | nil => cases heq
    | cons word words ih =>
        cases word with
        | nil => exact ih heq fun y hy => hwords y (List.mem_cons_of_mem _ hy)
        | cons d u =>
            cases heq
            refine ⟨u, words.flatten, rfl, hwords _ List.mem_cons_self, ?_⟩
            exact Language.join_mem_kstar fun y hy => hwords y (List.mem_cons_of_mem _ hy)
  · rintro ⟨u, v, rfl, hu, hv⟩
    obtain ⟨words, rfl, hwords⟩ := Language.mem_kstar.mp hv
    refine ⟨(c :: u) :: words, rfl, fun y hy => ?_⟩
    rcases List.mem_cons.mp hy with rfl | hy
    · exact hu
    · exact hwords y hy

theorem mem_seq_deriv {s : Regex α}
    (h : ∀ {u}, u ∈ (r.deriv c).language ↔ c :: u ∈ r.language) :
  w ∈ (seq (r.deriv c) s).language
    ↔ ∃ u v, u ++ v = w ∧ c :: u ∈ r.language ∧ v ∈ s.language
  := by
  rw [language, Language.mem_mul]
  constructor
  · rintro ⟨u, hu, v, hv, heq⟩
    exact ⟨u, v, heq, h.mp hu, hv⟩
  · rintro ⟨u, v, heq, hu, hv⟩
    exact ⟨u, h.mpr hu, v, hv, heq⟩

theorem mem_deriv_iff :
  w ∈ (r.deriv c).language ↔ c :: w ∈ r.language
  := by
  induction r generalizing w with
  | empty => simp [language, deriv]
  | eps => simp [language, deriv]
  | chars p =>
      rw [deriv, mem_chars]
      split
      · simp [language, *]
      · simp [language, *]
  | alt r s hr hs => simp [language, deriv, Language.mem_add, hr, hs]
  | seq r s hr hs =>
      have hfront := mem_seq_deriv (w := w) (s := s) hr
      rw [language, cons_mem_mul, nil_mem_iff, deriv]
      split
      · rename_i hnull
        rw [language, Language.mem_add, hfront, hs]
        simp only [hnull, true_and]
      · rename_i hnull
        rw [hfront]
        exact ⟨Or.inl, fun h => h.resolve_right fun hright => hnull hright.1⟩
  | star r ih =>
      rw [language, cons_mem_kstar, deriv, mem_seq_deriv ih]
      rfl

/-! ### The longest match -/

/-- The length of the longest match at the front of a text. -/
def longest : Regex α → List α → Option ℕ
  | r, [] => if r.nullable then some 0 else none
  | r, c :: cs =>
    match longest (r.deriv c) cs with
    | some n => some (n + 1)
    | none => if r.nullable then some 0 else none

theorem longest_eq_none :
  r.longest w = none ↔ ∀ u, u <+: w → u ∉ r.language
  := by
  induction w generalizing r with
  | nil =>
      rw [longest]
      simp [nil_mem_iff]
  | cons c cs ih =>
      rw [longest]
      constructor
      · intro hnone u hfront
        split at hnone
        · cases hnone
        · rename_i htail
          cases u with
          | nil =>
              rw [nil_mem_iff]
              intro hnull
              rw [if_pos hnull] at hnone
              cases hnone
          | cons d u =>
              obtain ⟨rfl, hu⟩ := List.cons_prefix_cons.mp hfront
              rw [← mem_deriv_iff]
              exact ih.mp htail u hu
      · intro hno
        have htail : longest (r.deriv c) cs = none := by
          refine ih.mpr fun u hu => ?_
          rw [mem_deriv_iff]
          exact hno (c :: u) (List.cons_prefix_cons.mpr ⟨rfl, hu⟩)
        rw [htail]
        exact if_neg fun hnull => hno [] List.nil_prefix (nil_mem_iff.mpr hnull)

theorem longest_eq_some {n : ℕ} (h : r.longest w = some n) :
  w.take n ∈ r.language ∧ n ≤ w.length ∧ ∀ u, u <+: w → u ∈ r.language → u.length ≤ n
  := by
  induction w generalizing r n with
  | nil =>
      rw [longest] at h
      split at h
      · rename_i hnull
        cases h
        refine ⟨nil_mem_iff.mpr hnull, Nat.le_refl 0, fun u hu _ => ?_⟩
        rw [List.prefix_nil.mp hu, List.length_nil]
      · cases h
  | cons c cs ih =>
      rw [longest] at h
      split at h
      · rename_i m hm
        cases h
        obtain ⟨hmem, hle, hmax⟩ := ih hm
        refine ⟨mem_deriv_iff.mp hmem, Nat.succ_le_succ hle, fun u hfront hu => ?_⟩
        cases u with
        | nil => exact Nat.zero_le _
        | cons d u =>
            obtain ⟨rfl, hrest⟩ := List.cons_prefix_cons.mp hfront
            exact Nat.succ_le_succ (hmax u hrest (mem_deriv_iff.mpr hu))
      · rename_i hnone
        split at h
        · rename_i hnull
          cases h
          refine ⟨nil_mem_iff.mpr hnull, Nat.zero_le _, fun u hfront hu => ?_⟩
          cases u with
          | nil => exact Nat.le_refl 0
          | cons d u =>
              obtain ⟨rfl, hrest⟩ := List.cons_prefix_cons.mp hfront
              exact absurd (mem_deriv_iff.mpr hu) (longest_eq_none.mp hnone u hrest)
        · cases h

/-- A match that no other one exceeds is the longest one. -/
theorem longest_eq {u : List α} (hfront : u <+: w) (hu : u ∈ r.language)
    (hmax : ∀ v, v <+: w → v ∈ r.language → v.length ≤ u.length) :
  r.longest w = some u.length
  := by
  cases hn : r.longest w with
  | none => exact absurd hu (longest_eq_none.mp hn u hfront)
  | some n =>
      obtain ⟨hmem, hle, hlongest⟩ := longest_eq_some hn
      have htake := hmax _ (List.take_prefix n w) hmem
      rw [List.length_take_of_le hle] at htake
      rw [Nat.le_antisymm htake (hlongest u hfront hu)]

/-! ### Words and repetitions -/

theorem mem_seq_chars {p : α → Bool} {s : Regex α} :
  w ∈ (seq (chars p) s).language ↔ ∃ c v, w = c :: v ∧ p c = true ∧ v ∈ s.language
  := by
  rw [language, Language.mem_mul]
  constructor
  · rintro ⟨u, hu, v, hv, rfl⟩
    obtain ⟨c, rfl, hc⟩ := mem_chars.mp hu
    exact ⟨c, v, rfl, hc, hv⟩
  · rintro ⟨c, v, rfl, hc, hv⟩
    exact ⟨[c], ⟨c, rfl, hc⟩, v, hv, rfl⟩

/-- A given word. -/
def literal [DecidableEq α] (w : List α) : Regex α :=
  w.foldr (fun c r => seq (chars (· == c)) r) eps

/-- One or more of a class. -/
def plus (p : α → Bool) : Regex α := seq (chars p) (star (chars p))

theorem mem_literal [DecidableEq α] {word : List α} :
  w ∈ (literal word).language ↔ w = word
  := by
  induction word generalizing w with
  | nil => simp [literal, language]
  | cons d word ih =>
      have hcons : literal (d :: word) = seq (chars (· == d)) (literal word) := rfl
      rw [hcons, mem_seq_chars]
      constructor
      · rintro ⟨c, v, rfl, hc, hv⟩
        rw [ih.mp hv, beq_iff_eq.mp hc]
      · rintro rfl
        exact ⟨d, word, rfl, beq_self_eq_true d, ih.mpr rfl⟩

theorem mem_star_chars {p : α → Bool} :
  w ∈ (star (chars p)).language ↔ ∀ c ∈ w, p c = true
  := by
  induction w with
  | nil => simp [nil_mem_iff, nullable]
  | cons c w ih =>
      rw [language, cons_mem_kstar]
      rw [language] at ih
      constructor
      · rintro ⟨u, v, rfl, hu, hv⟩
        obtain ⟨d, heq, hd⟩ := mem_chars.mp hu
        cases heq
        exact List.forall_mem_cons.mpr ⟨hd, ih.mp hv⟩
      · intro hall
        obtain ⟨hc, hw⟩ := List.forall_mem_cons.mp hall
        exact ⟨[], w, rfl, ⟨c, rfl, hc⟩, ih.mpr hw⟩

theorem mem_plus {p : α → Bool} :
  w ∈ (plus p).language ↔ w ≠ [] ∧ ∀ c ∈ w, p c = true
  := by
  rw [plus, mem_seq_chars]
  constructor
  · rintro ⟨c, v, rfl, hc, hv⟩
    exact ⟨nofun, List.forall_mem_cons.mpr ⟨hc, mem_star_chars.mp hv⟩⟩
  · rintro ⟨hne, hall⟩
    obtain ⟨c, v, rfl⟩ := List.exists_cons_of_ne_nil hne
    obtain ⟨hc, hv⟩ := List.forall_mem_cons.mp hall
    exact ⟨c, v, rfl, hc, mem_star_chars.mpr hv⟩

end Regex

/-! ### Scanners

A scanner has a list of rules, each a pattern with an action.  At each place of the text the rule
with the longest match is taken, the earliest one of those; a character that no rule matches is
passed over.
-/

namespace Lexing

structure Rule (α β : Type*) where
  pattern : Regex α
  action : β

variable {α β : Type*}

/-- The first of two matches, unless the second one is longer. -/
def longer : Option (β × ℕ) → Option (β × ℕ) → Option (β × ℕ)
  | none, second => second
  | first, none => first
  | some first, some second => if first.2 < second.2 then some second else some first

def Rule.find (rule : Rule α β) (text : List α) : Option (β × ℕ) :=
  (rule.pattern.longest text).map fun n => (rule.action, n)

/-- The match that is taken, as its action and its length. -/
def scan (rules : List (Rule α β)) (text : List α) : Option (β × ℕ) :=
  rules.foldr (fun rule rest => longer (rule.find text) rest) none

/-- The matches in a text some of whose first characters have been matched already. -/
def lexemesFrom (rules : List (Rule α β)) : ℕ → List α → List (Option β × List α)
  | _, [] => []
  | matched + 1, _ :: text => lexemesFrom rules matched text
  | 0, c :: text =>
    match scan rules (c :: text) with
    | some (action, n) => (some action, (c :: text).take n) :: lexemesFrom rules (n - 1) text
    | none => (none, [c]) :: lexemesFrom rules 0 text

def lexemes (rules : List (Rule α β)) (text : List α) : List (Option β × List α) :=
  lexemesFrom rules 0 text

variable {rules : List (Rule α β)} {text : List α} {n : ℕ}

theorem lexemesFrom_eq :
  lexemesFrom rules n text = lexemes rules (text.drop n)
  := by
  induction text generalizing n with
  | nil =>
      rw [List.drop_nil]
      cases n <;> rfl
  | cons c text ih =>
      cases n with
      | zero => rfl
      | succ n =>
          rw [lexemesFrom, ih]
          rfl

theorem lexemes_match {action : β} (h : scan rules text = some (action, n)) (hn : 0 < n)
    (hne : text ≠ []) :
  lexemes rules text = (some action, text.take n) :: lexemes rules (text.drop n)
  := by
  obtain ⟨c, rest, rfl⟩ := List.exists_cons_of_ne_nil hne
  obtain ⟨m, rfl⟩ := Nat.exists_eq_succ_of_ne_zero (Nat.ne_of_gt hn)
  rw [lexemes, lexemesFrom, h]
  dsimp only
  rw [lexemesFrom_eq]
  rfl

/-- The match that is taken is the longest one of some rule. -/
theorem longest_of_scan {best : β × ℕ} (h : scan rules text = some best) :
  ∃ rule ∈ rules, rule.pattern.longest text = some best.2
  := by
  induction rules generalizing best with
  | nil => cases h
  | cons rule rules ih =>
      rw [scan, List.foldr_cons, ← scan] at h
      cases hfind : rule.find text with
      | none =>
          rw [hfind, longer] at h
          obtain ⟨r, hr, hbest⟩ := ih h
          exact ⟨r, List.mem_cons_of_mem _ hr, hbest⟩
      | some first =>
          have hfirst : rule.pattern.longest text = some first.2 := by
            obtain ⟨m, hm, rfl⟩ := Option.map_eq_some_iff.mp hfind
            exact hm
          cases hrest : scan rules text with
          | none =>
              rw [hfind, hrest] at h
              cases h
              exact ⟨rule, List.mem_cons_self, hfirst⟩
          | some second =>
              rw [hfind, hrest, longer] at h
              split at h
              · cases h
                obtain ⟨r, hr, hbest⟩ := ih hrest
                exact ⟨r, List.mem_cons_of_mem _ hr, hbest⟩
              · cases h
                exact ⟨rule, List.mem_cons_self, hfirst⟩

/-- A rule is taken if no earlier match is as long and no later match longer. -/
theorem scan_eq {before after : List (Rule α β)} {rule : Rule α β}
    (hrule : rule.pattern.longest text = some n)
    (hbefore : ∀ r ∈ before, ∀ m, r.pattern.longest text = some m → m < n)
    (hafter : ∀ r ∈ after, ∀ m, r.pattern.longest text = some m → m ≤ n) :
  scan (before ++ rule :: after) text = some (rule.action, n)
  := by
  induction before with
  | nil =>
      rw [List.nil_append, scan, List.foldr_cons, ← scan, Rule.find, hrule]
      cases hrest : scan after text with
      | none => rfl
      | some best =>
          obtain ⟨r, hr, hbest⟩ := longest_of_scan hrest
          exact if_neg (Nat.not_lt_of_le (hafter r hr _ hbest))
  | cons r before ih =>
      have hrest := ih fun q hq => hbefore q (List.mem_cons_of_mem r hq)
      rw [List.cons_append, scan, List.foldr_cons, ← scan, hrest, Rule.find]
      cases hr : r.pattern.longest text with
      | none => rfl
      | some m => exact if_pos (hbefore r List.mem_cons_self m hr)

/-- The first rule with the longest match is taken. -/
theorem scan_first {before after : List (Rule α β)} {rule : Rule α β} {u : List α}
    (hfront : u <+: text) (hu : u ∈ rule.pattern.language)
    (hmax : ∀ r ∈ before ++ rule :: after, ∀ v, v <+: text → v ∈ r.pattern.language →
      v.length ≤ u.length)
    (hfirst : ∀ r ∈ before, u ∉ r.pattern.language) :
  scan (before ++ rule :: after) text = some (rule.action, u.length)
  := by
  have hmatch : ∀ r : Rule α β, ∀ m, r.pattern.longest text = some m →
      ∃ v, v <+: text ∧ v.length = m ∧ v ∈ r.pattern.language := by
    intro r m hm
    obtain ⟨hmem, hle, -⟩ := Regex.longest_eq_some hm
    exact ⟨text.take m, List.take_prefix m text, List.length_take_of_le hle, hmem⟩
  refine scan_eq (Regex.longest_eq hfront hu (hmax rule (by simp))) ?_ ?_
  · intro r hr m hm
    obtain ⟨v, hv, rfl, hmem⟩ := hmatch r m hm
    refine Nat.lt_of_le_of_ne (hmax r (List.mem_append_left _ hr) v hv hmem) fun hlength => ?_
    rw [List.prefix_iff_eq_take.mp hv, hlength, ← List.prefix_iff_eq_take.mp hfront] at hmem
    exact hfirst r hr hmem
  · intro r hr m hm
    obtain ⟨v, hv, rfl, hmem⟩ := hmatch r m hm
    exact hmax r (List.mem_append_right _ (List.mem_cons_of_mem _ hr)) v hv hmem

end Lexing
