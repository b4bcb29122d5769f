import Homeworks.CString.Search

/-!
# Reading and searching the log file

The manager reads the file in chunks that end with a newline or fill its buffer, and puts into the
buffer of the workers what comes before the first NUL of a chunk.  An occurrence of the term in a
line is found if it lies in one chunk and no NUL comes before it in that chunk.
-/

open CString

namespace LogAnalyser

/-- `MAX_LINE_LENGTH`. -/
def maxLineLength : ℕ := 1024

/-- `read_line` with so much room left: the bytes, and what is left of the file. -/
def readLine : ℕ → List Char → List Char × List Char
  | 0, file => ([], file)
  | _ + 1, [] => ([], [])
  | room + 1, c :: file =>
      if c = '\n' then ([c], file)
      else (c :: (readLine room file).1, (readLine room file).2)

/-- The string of some bytes, without the newline at its end. -/
def chomp (bytes : List Char) : List Char :=
  let line := string bytes
  if line.getLast? = some '\n' then line.dropLast else line

/-- The number of bytes that are read, at most the first line with its newline. -/
def chunkLength (room : ℕ) (file : List Char) : ℕ :=
  min room ((firstLine file).length + 1)

theorem chunkLength_cons {c : Char} (h : c ≠ '\n') (room : ℕ) (file : List Char) :
  chunkLength (room + 1) (c :: file) = chunkLength room file + 1
  := by
  have htake : firstLine (c :: file) = c :: firstLine file :=
    List.takeWhile_cons_of_pos (decide_eq_true h)
  rw [chunkLength, chunkLength, htake, List.length_cons]
  exact Nat.add_min_add_right _ _ _

theorem readLine_eq (room : ℕ) (file : List Char) :
  readLine room file
    = (file.take (chunkLength room file), file.drop (chunkLength room file))
  := by
  induction file generalizing room with
  | nil => cases room <;> simp [readLine]
  | cons c file ih =>
      cases room with
      | zero => simp [readLine, chunkLength]
      | succ room =>
          rw [readLine, ih]
          by_cases hc : c = '\n'
          · simp [hc, chunkLength, firstLine]
          · simp [hc, chunkLength_cons hc]

/-- What the manager puts into the buffer. -/
def linesRead (file : List Char) : List (List Char) :=
  let line := readLine (maxLineLength - 1) file
  if line.1 = [] then [] else chomp line.1 :: linesRead line.2
termination_by file.length
decreasing_by
  rename_i hne
  change (readLine (maxLineLength - 1) file).1 ≠ [] at hne
  rw [readLine_eq] at hne ⊢
  have hlength := List.length_pos_iff.mpr hne
  rw [List.length_take] at hlength
  rw [List.length_drop]
  omega

/-- `int` addition, nothing when it overflows. -/
def addInt (m n : ℕ) : Option ℕ := if m + n < 2 ^ 31 then some (m + n) else none

theorem length_lt_of_strstr {term s found : List Char} (h : strstr s term = some found) :
  found.length < s.length + 1
  := Nat.lt_succ_of_le (isSuffix_of_strstr h).length_le

/-- The loop of `worker_thread` over the occurrences in a line, nothing when the line is read past
its end. -/
def countMatches (term : List Char) (found : Option (List Char)) (localMatches : ℕ) : Option ℕ :=
  match found with
  | none => some localMatches
  | some [] => none
  | some (_ :: rest) => do
      let localMatches ← addInt localMatches 1
      countMatches term (strstr rest term) localMatches
termination_by (found.map List.length).elim 0 Nat.succ
decreasing_by
  cases hfound : strstr rest term with
  | none => exact Nat.succ_pos _
  | some found => exact Nat.succ_lt_succ (length_lt_of_strstr hfound)

/-- The number of matches of a worker that has been handed some lines. -/
def matchesIn (term : List Char) (lines : List (List Char)) : Option ℕ :=
  lines.foldlM (fun localMatches line => countMatches term (strstr line term) localMatches) 0

/-! ### The counters -/

variable {term : List Char}

theorem addInt_zero {m : ℕ} (h : m < 2 ^ 31) :
  addInt m 0 = some m
  := if_pos h

theorem addInt_bind {f : ℕ → Option ℕ} {n : ℕ} (h : ∀ k < 2 ^ 31, f k = addInt k n) (m k : ℕ) :
  addInt m k >>= f = addInt m (k + n)
  := by
  rw [addInt]
  split
  next hlt =>
    rw [Option.bind_eq_bind, Option.bind_some, h _ hlt, addInt, addInt, Nat.add_assoc]
  next hge =>
    rw [addInt, if_neg (by omega)]
    rfl

/-- A number that is an `int` is added. -/
theorem addInt_zero_bind (m k : ℕ) :
  addInt 0 k >>= addInt m = addInt m k
  := by
  rw [addInt, Nat.zero_add]
  split
  next hlt => rfl
  next hge =>
    rw [addInt, if_neg (by omega)]
    rfl

/-- The loop counts the occurrences. -/
theorem countMatches_eq (hterm : term ≠ []) (s : List Char) {m : ℕ} (hm : m < 2 ^ 31) :
  countMatches term (strstr s term) m = addInt m (occurrences term s)
  := by
  induction s generalizing m with
  | nil =>
      rw [strstr_nil hterm, countMatches, occurrences_nil, addInt_zero hm]
  | cons c s ih =>
      rw [occurrences_cons]
      by_cases hfront : term <+: c :: s
      · rw [strstr_cons_of_isPrefix hfront, countMatches, if_pos hfront,
          addInt_bind fun _ hlt => ih hlt, Nat.add_comm]
      · rw [strstr_cons_of_not hfront, ih hm, if_neg hfront, Nat.add_zero]

/-- With an empty term every line is read past its end. -/
theorem countMatches_nil (s : List Char) (m : ℕ) :
  countMatches [] (strstr s []) m = none
  := by
  induction s generalizing m with
  | nil => rw [strstr, List.tails, List.find?_cons_of_pos rfl, countMatches]
  | cons c s ih =>
      rw [strstr_cons_of_isPrefix List.nil_prefix, countMatches, Option.bind_eq_bind,
        Option.bind_eq_none_iff]
      exact fun m _ => ih m

/-- Sums of `int`s, as long as they do not overflow. -/
theorem foldlM_addInt {α : Type*} {f : ℕ → α → Option ℕ} {g : α → ℕ}
    (h : ∀ m < 2 ^ 31, ∀ a, f m a = addInt m (g a)) (l : List α) {m : ℕ} (hm : m < 2 ^ 31) :
  l.foldlM f m = addInt m (l.map g).sum
  := by
  induction l generalizing m with
  | nil =>
      rw [List.foldlM_nil, List.map_nil, List.sum_nil, addInt_zero hm]
      rfl
  | cons a l ih =>
      rw [List.foldlM_cons, h m hm, List.map_cons, List.sum_cons, addInt_bind fun _ hlt => ih hlt]

theorem foldlM_eq_none {α β : Type*} {f : β → α → Option β} {a : α} (h : ∀ b, f b a = none)
    {l : List α} (hmem : a ∈ l) (b : β) :
  l.foldlM f b = none
  := by
  induction hmem generalizing b with
  | head l => rw [List.foldlM_cons, h, Option.bind_eq_bind, Option.bind_none]
  | tail a' _ ih =>
      rw [List.foldlM_cons, Option.bind_eq_bind, Option.bind_eq_none_iff]
      exact fun b _ => ih b

theorem matchesIn_eq (hterm : term ≠ []) (lines : List (List Char)) :
  matchesIn term lines = addInt 0 (lines.map (occurrences term)).sum
  := foldlM_addInt (fun _ hm line => countMatches_eq hterm line hm) lines (by decide)

theorem matchesIn_nil {line : List Char} {lines : List (List Char)} (h : line ∈ lines) :
  matchesIn [] lines = none
  := foldlM_eq_none (countMatches_nil line) h 0

/-! ### The occurrences that are found -/

/-- Every occurrence of the term in a line lies in one chunk, and no NUL comes before it there. -/
def Intact (term line : List Char) : Prop :=
  ∀ p, term <+: line.drop p →
    p % (maxLineLength - 1) + term.length ≤ maxLineLength - 1
      ∧ '\x00' ∉ (line.drop (p - p % (maxLineLength - 1))).take (p % (maxLineLength - 1))

/-- The number of occurrences in the chunks of a line. -/
def occurrencesRead (term line : List Char) : ℕ :=
  occurrences term (string (line.take (maxLineLength - 1)))
    + if maxLineLength - 1 ≤ line.length then
        occurrencesRead term (line.drop (maxLineLength - 1))
      else 0
termination_by line.length
decreasing_by
  rw [List.length_drop]
  rw [maxLineLength] at *
  omega

theorem occurrencesRead_nil :
  occurrencesRead term [] = 0
  := by
  rw [occurrencesRead, if_neg (by decide)]
  rfl

variable {line : List Char} {p : ℕ}

/-- The occurrences that are found in the first chunk. -/
theorem isPrefix_drop_string (hterm : term ≠ []) (hnul : '\x00' ∉ term) (line : List Char)
    (hp : p < maxLineLength - 1) :
  term <+: (string (line.take (maxLineLength - 1))).drop p
    ↔ term <+: line.drop p ∧ p + term.length ≤ maxLineLength - 1 ∧ '\x00' ∉ line.take p
  := by
  have hchars : ∀ c ∈ term, decide (c ≠ '\x00') = true := fun c hc =>
    decide_eq_true fun h => hnul (h ▸ hc)
  rw [string, isPrefix_drop_takeWhile hterm hchars, isPrefix_drop_take, or_iff_left hterm,
    List.take_take, Nat.min_eq_left hp.le, and_assoc]
  refine and_congr_right fun _ => and_congr_right fun _ => ?_
  constructor
  · intro h hmem
    exact of_decide_eq_true (h _ hmem) rfl
  · intro h c hc
    exact decide_eq_true fun heq => h (heq ▸ hc)

/-- The occurrences that start in the first chunk of a line. -/
theorem occurrences_chunk (hterm : term ≠ []) (hnul : '\x00' ∉ term) (line : List Char) :
  occurrences term (string (line.take (maxLineLength - 1)))
      ≤ ∑ p ∈ Finset.range (maxLineLength - 1), (if term <+: line.drop p then 1 else 0)
    ∧ (occurrences term (string (line.take (maxLineLength - 1)))
        = ∑ p ∈ Finset.range (maxLineLength - 1), (if term <+: line.drop p then 1 else 0)
      ↔ ∀ p < maxLineLength - 1, term <+: line.drop p →
          p + term.length ≤ maxLineLength - 1 ∧ '\x00' ∉ line.take p)
  := by
  have hlength : (string (line.take (maxLineLength - 1))).length ≤ maxLineLength - 1 :=
    (List.takeWhile_prefix _).length_le.trans (List.length_take_le _ _)
  rw [occurrences_eq_sum_of_le hterm hlength]
  have hle : ∀ p ∈ Finset.range (maxLineLength - 1),
      (if term <+: (string (line.take (maxLineLength - 1))).drop p then 1 else 0)
        ≤ if term <+: line.drop p then 1 else 0 := by
    intro p hp
    have hfound := isPrefix_drop_string hterm hnul line (Finset.mem_range.mp hp)
    split_ifs with hchunk hline
    · exact Nat.le_refl 1
    · exact absurd (hfound.mp hchunk).1 hline
    · exact Nat.zero_le 1
    · exact Nat.le_refl 0
  refine ⟨Finset.sum_le_sum hle, ?_⟩
  rw [Finset.sum_eq_sum_iff_of_le hle]
  refine forall_congr' fun p => ?_
  rw [Finset.mem_range]
  refine imp_congr_right fun hp => ?_
  have hfound := isPrefix_drop_string hterm hnul line hp
  split_ifs with hchunk hline hline
  · exact iff_of_true rfl fun _ => (hfound.mp hchunk).2
  · exact absurd (hfound.mp hchunk).1 hline
  · exact iff_of_false nofun fun h => hchunk (hfound.mpr ⟨hline, h hline⟩)
  · exact iff_of_true rfl fun h => absurd h hline

theorem intact_nil (hterm : term ≠ []) :
  Intact term []
  := by
  intro p hp
  rw [List.drop_nil, List.prefix_nil] at hp
  exact absurd hp hterm

/-- A line that fits in the buffer of the manager and has no NUL is intact. -/
theorem intact_of_length_le (hterm : term ≠ []) (hlength : line.length ≤ maxLineLength - 1)
    (hnul : '\x00' ∉ line) :
  Intact term line
  := by
  intro p hocc
  have hle := hocc.length_le
  have hpos := List.length_pos_iff.mpr hterm
  rw [List.length_drop] at hle
  rw [Nat.mod_eq_of_lt (by omega), Nat.sub_self, List.drop_zero]
  exact ⟨by omega, fun hmem => hnul (List.mem_of_mem_take hmem)⟩

/-- The first chunk of a line and the rest. -/
theorem intact_iff :
  Intact term line
    ↔ (∀ p < maxLineLength - 1, term <+: line.drop p →
          p + term.length ≤ maxLineLength - 1 ∧ '\x00' ∉ line.take p)
      ∧ Intact term (line.drop (maxLineLength - 1))
  := by
  constructor
  · intro h
    constructor
    · intro p hp hocc
      have hfirst := h p hocc
      rwa [Nat.mod_eq_of_lt hp, Nat.sub_self, List.drop_zero] at hfirst
    · intro p hocc
      rw [List.drop_drop] at hocc
      have hrest := h _ hocc
      have hmod : (maxLineLength - 1 + p) % (maxLineLength - 1) = p % (maxLineLength - 1) :=
        Nat.add_mod_left _ _
      have hsub := Nat.add_sub_assoc (Nat.mod_le p (maxLineLength - 1)) (maxLineLength - 1)
      rwa [hmod, hsub, ← List.drop_drop] at hrest
  · rintro ⟨hfirst, hrest⟩ p hocc
    rcases Nat.lt_or_ge p (maxLineLength - 1) with hp | hp
    · rw [Nat.mod_eq_of_lt hp, Nat.sub_self, List.drop_zero]
      exact hfirst p hp hocc
    · obtain ⟨q, rfl⟩ := Nat.exists_eq_add_of_le hp
      rw [← List.drop_drop] at hocc
      have hmod : (maxLineLength - 1 + q) % (maxLineLength - 1) = q % (maxLineLength - 1) :=
        Nat.add_mod_left _ _
      have hsub := Nat.add_sub_assoc (Nat.mod_le q (maxLineLength - 1)) (maxLineLength - 1)
      rw [hmod, hsub, ← List.drop_drop]
      exact hrest q hocc

/-- All occurrences in a line are found if and only if the line is intact. -/
theorem occurrencesRead_spec (hterm : term ≠ []) (hnul : '\x00' ∉ term) (line : List Char) :
  occurrencesRead term line ≤ occurrences term line
    ∧ (occurrencesRead term line = occurrences term line ↔ Intact term line)
  := by
  have hchunk := fun line => occurrences_chunk hterm hnul line
  induction hlength : line.length using Nat.strongRecOn generalizing line with
  | ind n ih =>
      obtain ⟨hle, hiff⟩ := hchunk line
      have hadd := occurrences_eq_add hterm (s := line) (k := maxLineLength - 1)
      rw [occurrencesRead, hadd, intact_iff, ← hiff]
      split
      next hlong =>
        have hshort : (line.drop (maxLineLength - 1)).length < n := by
          rw [List.length_drop, hlength]
          rw [maxLineLength] at *
          omega
        obtain ⟨hle', hiff'⟩ := ih _ hshort _ rfl
        rw [← hiff']
        omega
      next hshort =>
        have hend : line.drop (maxLineLength - 1) = [] := List.drop_eq_nil_of_le (by omega)
        rw [hend, occurrences_nil, and_iff_left (intact_nil hterm), Nat.add_zero, Nat.add_zero]
        exact ⟨hle, Iff.rfl⟩

/-! ### The lines of the file -/

theorem string_of_notMem (h : '\x00' ∉ line) :
  string line = line
  := List.takeWhile_eq_self_iff.mpr fun _ hc => decide_eq_true fun heq => h (heq ▸ hc)

theorem chomp_eq (h : '\n' ∉ line) :
  chomp line = string line
  := by
  rw [chomp]
  refine if_neg fun hlast => h ?_
  exact (List.takeWhile_prefix _).subset (List.mem_of_getLast? hlast)

theorem chomp_append_newline (h : '\n' ∉ line) :
  chomp (line ++ ['\n']) = string line
  := by
  by_cases hnul : '\x00' ∈ line
  · obtain ⟨front, rest, rfl, hfront⟩ := List.eq_append_cons_of_mem hnul
    have hcut : ∀ rest, string (front ++ '\x00' :: rest) = front := by
      intro rest
      rw [string, List.takeWhile_append_of_pos]
      · exact List.append_nil front
      · exact fun _ hc => decide_eq_true fun heq => hfront (heq ▸ hc)
    rw [chomp, List.append_assoc, List.cons_append, hcut, hcut]
    refine if_neg fun hlast => h ?_
    exact List.mem_append_left _ (List.mem_of_getLast? hlast)
  · have hnul' : '\x00' ∉ line ++ ['\n'] := by simp [hnul]
    rw [chomp, string_of_notMem hnul, string_of_notMem hnul']
    simp

/-- The first chunk of a file. -/
theorem chomp_chunk (file : List Char) :
  chomp (file.take (chunkLength (maxLineLength - 1) file))
    = string ((firstLine file).take (maxLineLength - 1))
  := by
  rw [chunkLength]
  by_cases hmem : '\n' ∈ file
  · obtain ⟨line, rest, hline, rfl⟩ := eq_append_newline hmem
    rw [firstLine_append_newline hline]
    rcases Nat.lt_or_ge line.length (maxLineLength - 1) with hlt | hge
    · have hfill : min (maxLineLength - 1) (line.length + 1) = line.length + 1 :=
        Nat.min_eq_right hlt
      rw [hfill, List.take_of_length_le hlt.le, ← chomp_append_newline hline]
      rw [List.take_length_add_append]
      rfl
    · rw [Nat.min_eq_left (by omega), List.take_append_of_le_length hge]
      exact chomp_eq fun h => hline (List.mem_of_mem_take h)
  · have htake : file.take (min (maxLineLength - 1) (file.length + 1))
        = file.take (maxLineLength - 1) := by
      rw [List.take_eq_take_iff]
      omega
    rw [firstLine_of_notMem hmem, htake]
    exact chomp_eq fun h => hmem (List.mem_of_mem_take h)

theorem linesRead_nil :
  linesRead [] = []
  := by
  rw [linesRead]
  rfl

theorem linesRead_of_ne_nil {file : List Char} (h : file ≠ []) :
  linesRead file = string ((firstLine file).take (maxLineLength - 1))
    :: linesRead (file.drop (chunkLength (maxLineLength - 1) file))
  := by
  have hbytes : file.take (chunkLength (maxLineLength - 1) file) ≠ [] := by
    rw [← List.length_pos_iff, List.length_take, chunkLength, maxLineLength]
    have hlength := List.length_pos_iff.mpr h
    omega
  rw [linesRead, readLine_eq, if_neg hbytes, chomp_chunk]

/-- The sum over the lines, also for an empty file. -/
theorem sum_lines {f : List Char → ℕ} (hf : f [] = 0) (file : List Char) :
  ((lines file).map f).sum
    = f (firstLine file) + ((lines (file.drop ((firstLine file).length + 1))).map f).sum
  := by
  rcases eq_or_ne file [] with rfl | hne
  · rw [firstLine_of_notMem List.not_mem_nil, hf, List.drop_nil, Nat.zero_add]
  · rw [lines_of_ne_nil hne, List.map_cons, List.sum_cons]

/-- A file whose first line is longer than a chunk. -/
theorem firstLine_drop {file : List Char} {k : ℕ} (h : k ≤ (firstLine file).length) :
  firstLine (file.drop k) = (firstLine file).drop k
  := by
  by_cases hmem : '\n' ∈ file
  · obtain ⟨line, rest, hline, rfl⟩ := eq_append_newline hmem
    rw [firstLine_append_newline hline] at h ⊢
    rw [List.drop_append_of_le_length h]
    exact firstLine_append_newline (fun h => hline (List.mem_of_mem_drop h)) rest
  · rw [firstLine_of_notMem hmem]
    exact firstLine_of_notMem fun h => hmem (List.mem_of_mem_drop h)

/-- What is found in the file is what is found in its lines. -/
theorem sum_linesRead (term file : List Char) :
  ((linesRead file).map (occurrences term)).sum = ((lines file).map (occurrencesRead term)).sum
  := by
  induction hlength : file.length using Nat.strongRecOn generalizing file with
  | ind n ih =>
      rcases eq_or_ne file [] with rfl | hne
      · rw [linesRead_nil, lines_nil, List.map_nil, List.map_nil]
      · have hpos := List.length_pos_iff.mpr hne
        have hchunk : 0 < chunkLength (maxLineLength - 1) file := by
          rw [chunkLength, maxLineLength]
          omega
        have hrest := ih _ (by rw [List.length_drop]; omega)
          (file.drop (chunkLength (maxLineLength - 1) file)) rfl
        rw [linesRead_of_ne_nil hne, List.map_cons, List.sum_cons, hrest,
          sum_lines occurrencesRead_nil file, occurrencesRead]
        split
        next hlong =>
          have hfill : chunkLength (maxLineLength - 1) file = maxLineLength - 1 :=
            Nat.min_eq_left (Nat.le_succ_of_le hlong)
          have hend : maxLineLength - 1 + ((firstLine file).length - (maxLineLength - 1) + 1)
              = (firstLine file).length + 1 := by
            omega
          rw [hfill, sum_lines occurrencesRead_nil, firstLine_drop hlong, List.drop_drop,
            List.length_drop, Nat.add_assoc, hend]
        next hshort =>
          have hfill : chunkLength (maxLineLength - 1) file = (firstLine file).length + 1 :=
            Nat.min_eq_right (by omega)
          rw [hfill]
          rfl

/-- The number of occurrences in the lines of the file. -/
def occurrencesIn (term file : List Char) : ℕ := ((lines file).map (occurrences term)).sum

/-- All occurrences in the file are found if and only if its lines are intact. -/
theorem sum_linesRead_eq_iff (hterm : term ≠ []) (hnul : '\x00' ∉ term) (file : List Char) :
  ((linesRead file).map (occurrences term)).sum = occurrencesIn term file
    ↔ ∀ line ∈ lines file, Intact term line
  := by
  rw [sum_linesRead, occurrencesIn]
  have hspec := occurrencesRead_spec hterm hnul
  induction lines file with
  | nil => simp
  | cons line rest ih =>
      have hle := (hspec line).1
      have hrest : (rest.map (occurrencesRead term)).sum ≤ (rest.map (occurrences term)).sum :=
        List.sum_le_sum fun line _ => (hspec line).1
      rw [List.map_cons, List.map_cons, List.sum_cons, List.sum_cons, List.forall_mem_cons,
        ← (hspec line).2]
      refine Iff.trans ?_ (and_congr_right fun _ => ih)
      omega

end LogAnalyser
