import Homeworks.BankServer.Conservation
import Homeworks.CString.Fields
import Mathlib.Algebra.BigOperators.Group.List.Basic

/-!
# The log of the bank

The text that `write_log` writes, and what `load_db` reads of it.  The file is read into one
buffer, and the number of an account in at most two characters.
-/

namespace BankServer

/-- The size of the array `msg_buffer`. -/
abbrev MSG_SIZE : Nat := 256

/-- The size of the array into which the log is read. -/
abbrev BUFFER_SIZE : Nat := 4096

/-- What is written of an account, without the newline at its end. -/
def rowText (i : Nat) (a : Account) : Text :=
  "BankID_".toList ++ (CString.padded 2 i ++ (" D ".toList ++ (CString.decimal a.deposited
    ++ (" W ".toList ++ (CString.decimal a.withdrawn ++ (" ".toList
    ++ CString.decimal a.balance))))))

def endOfLog : Text := CString.snprintf MSG_SIZE "## end of log.\n".toList

/-- The file that `write_log` writes, if all active accounts are in the table. -/
def writeLog (s : Shared) : Option Text :=
  ((List.range' 1 s.active.toNat).mapM fun (i : Nat) =>
    (entry i).map fun k =>
      CString.snprintf MSG_SIZE (rowText i (s.accounts k) ++ ['\n'])).map fun lines =>
    lines.flatten ++ endOfLog

/-- The four values that `sscanf` reads of a line. -/
def scanRow (line : Text) : Option Account := do
  let s ← CString.literal "BankID_".toList line
  let (id, s) ← CString.scanIntWidth 2 s
  let s ← CString.literal ['D'] (s.dropWhile CString.isSpace)
  let (deposit, s) ← CString.scanInt s
  let s ← CString.literal ['W'] (s.dropWhile CString.isSpace)
  let (withdraw, s) ← CString.scanInt s
  let (balance, _) ← CString.scanInt s
  return ⟨id, deposit, withdraw, balance⟩

/-- What is loaded of a line; a line that starts with `#` is skipped. -/
def scanLine (line : Text) : Option Account :=
  if line.head? = some '#' then none else scanRow line

def isNewline (c : Char) : Bool := c = '\n'

/-- The rows that `load_db` finds in some bytes. -/
def scanRows (bytes : Text) : List Account :=
  (CString.tokens isNewline (CString.string bytes)).filterMap scanLine

/-- What `load_db` makes of an empty database, if there is a log. -/
def loadLog : Option Text → Option Shared
  | none => some empty
  | some file => loadDb (scanRows (file.take (BUFFER_SIZE - 1)))

/-- A database is written and read back. -/
def RoundTrip (s : Shared) : Prop :=
  ∃ file s', writeLog s = some file ∧ loadLog (some file) = some s' ∧ s'.active = s.active
    ∧ ∀ i : Fin MAX_CLI, 1 ≤ i.val → (i.val : Int) ≤ s.active → s'.accounts i = s.accounts i

/-- The length of the line of an account with a number of at most two digits. -/
def rowLength (a : Account) : Nat :=
  "BankID_00 D  W  \n".length + (CString.decimal a.deposited).length
    + (CString.decimal a.withdrawn).length + (CString.decimal a.balance).length

/-! ### A line -/

/-- The values of an account are those of an `int`. -/
structure Account.IsInts (a : Account) : Prop where
  deposited : IsInt a.deposited
  withdrawn : IsInt a.withdrawn
  balance : IsInt a.balance

variable {a row : Account} {i : Nat} {p q : Text}

theorem endsNumber_space {s : Text} :
  CString.EndsNumber (' ' :: s)
  := by
  rintro c ⟨⟩
  rfl

/-- A number after a blank is read back. -/
theorem scanInt_space {n : Int} {s : Text} (hn : IsInt n) (hs : CString.EndsNumber s) :
  CString.scanInt (' ' :: (CString.decimal n ++ s)) = some (n, s)
  := CString.scanInt_decimal hs hn.1 hn.2

theorem scanIntWidth_id {s : Text} (hi : i ≤ 99) :
  CString.scanIntWidth 2 (CString.padded 2 i ++ s) = some ((i : Int), s)
  := by
  have hwidth : 0 < 2 := by decide
  have hlt : i < 10 ^ 2 := by omega
  have hint : i < 2 ^ 31 := by omega
  exact CString.scanIntWidth_padded hwidth hlt hint


/-- A line is read back. -/
theorem scanRow_rowText (hi : i ≤ 99) (ha : a.IsInts) :
  scanRow (rowText i a) = some { a with id := i }
  := by
  have hbalance := scanInt_space ha.balance CString.endsNumber_nil
  rw [List.append_nil] at hbalance
  have hD : ∀ s : Text, (" D ".toList ++ s).dropWhile CString.isSpace = ['D'] ++ ' ' :: s :=
    fun _ => rfl
  have hW : ∀ s : Text, (" W ".toList ++ s).dropWhile CString.isSpace = ['W'] ++ ' ' :: s :=
    fun _ => rfl
  have hends : ∀ s : Text, CString.EndsNumber (" W ".toList ++ s) := fun _ => endsNumber_space
  have hspace : " ".toList ++ CString.decimal a.balance = ' ' :: CString.decimal a.balance := rfl
  unfold scanRow rowText
  simp only [CString.literal_append, Option.bind_eq_bind, Option.bind_some]
  rw [scanIntWidth_id hi]
  simp only [Option.bind_some, hD, CString.literal_append]
  rw [scanInt_space ha.deposited (hends _)]
  simp only [Option.bind_some, hW, CString.literal_append]
  rw [hspace, scanInt_space ha.withdrawn endsNumber_space]
  simp only [Option.bind_some]
  rw [hbalance]
  rfl

/-- The numbers that are loaded have at most two digits. -/
theorem id_of_scanRow {line : Text} (h : scanRow line = some row) :
  row.id ≤ 99
  := by
  unfold scanRow at h
  simp only [Option.bind_eq_bind, Option.bind_eq_some_iff] at h
  obtain ⟨s, -, ⟨id, s⟩, hid, s, -, ⟨deposit, s⟩, -, s, -, ⟨withdraw, s⟩, -, ⟨balance, s⟩, -, h⟩ :=
    h
  cases h
  have hlt := CString.scanIntWidth_lt (by decide) hid
  exact Int.le_of_lt_add_one hlt

theorem id_of_scanLine {line : Text} (h : scanLine line = some row) :
  row.id ≤ 99
  := by
  rw [scanLine] at h
  split at h
  · cases h
  · exact id_of_scanRow h

/-! ### A line that is cut off -/

/-- A text that is cut off after the first of some characters. -/
theorem cut_after {c : Char} {x y : Text} (h : p ++ q = x ++ c :: y) (hx : c ∉ x) (hp : c ∈ p) :
  ∃ p', p = x ++ c :: p' ∧ p' ++ q = y
  := by
  rcases List.append_eq_append_iff.mp h with ⟨r, rfl, -⟩ | ⟨r, rfl, hr⟩
  · exact absurd (List.mem_append_left _ hp) hx
  · cases r with
    | nil =>
        rw [List.append_nil] at hp
        exact absurd hp hx
    | cons d r =>
        obtain ⟨rfl, rfl⟩ := List.cons.inj hr
        exact ⟨r, rfl, rfl⟩

theorem mem_of_literal {c : Char} {s t : Text} (h : CString.literal [c] s = some t) :
  c ∈ s
  := by
  obtain ⟨p, rfl, hp⟩ := List.dropPrefix?_eq_some_iff.mp h
  rw [eq_of_beq hp]
  exact List.mem_append_left _ List.mem_cons_self

/-- A letter is no character of a number. -/
theorem letter_not_mem_number {c : Char} {s : Text} (hc : c ≠ '-' ∧ c ≠ ' ' ∧ c.isDigit = false)
    (hs : ∀ d ∈ s, d = '-' ∨ d.isDigit = true) :
  c ∉ s ++ [' ']
  := by
  intro hmem
  rcases List.mem_append.mp hmem with hmem | hmem
  · rcases hs c hmem with heq | hdigit
    · exact hc.1 heq
    · rw [hc.2.2] at hdigit
      cases hdigit
  · exact hc.2.1 (List.mem_singleton.mp hmem)

/-- What is read of the values of the last two fields when they are cut off. -/
theorem scan_cut_numbers {w b m m' : Int} {s rest rest' : Text} (hw : IsInt w) (hb : IsInt b)
    (h : s ++ q = ' ' :: (CString.decimal w ++ ' ' :: CString.decimal b)) (hq : q ≠ [])
    (hm : CString.scanInt s = some (m, rest)) (hm' : CString.scanInt rest = some (m', rest')) :
  m' ≠ b
  := by
  cases s with
  | nil =>
      rw [CString.scanInt_nil] at hm
      cases hm
  | cons c s =>
      obtain ⟨rfl, htail⟩ := List.cons.inj h
      change CString.scanInt s = _ at hm
      have hno : ∀ r, s ++ r = CString.decimal w → False := by
        intro r hr
        obtain ⟨rfl, -⟩ := CString.scanInt_prefix hw.1 hw.2 hr hm
        rw [CString.scanInt_nil] at hm'
        cases hm'
      rcases List.append_eq_append_iff.mp htail with ⟨r, hr, -⟩ | ⟨r, rfl, hr⟩
      · exact (hno r hr.symm).elim
      · cases r with
        | nil =>
            rw [List.append_nil] at hno
            exact (hno [] (List.append_nil _)).elim
        | cons c r =>
            obtain ⟨rfl, hcut⟩ := List.cons.inj hr
            rw [CString.scanInt_decimal endsNumber_space hw.1 hw.2] at hm
            cases hm
            exact (CString.scanInt_prefix hb.1 hb.2 hcut.symm hm').2 hq

/-- What is read of a line that is cut off is not the account. -/
theorem scanRow_cut (hi : i ≤ 99) (ha : a.IsInts) (h : p ++ q = rowText i a) (hq : q ≠ [])
    (hrow : scanRow p = some row) :
  row.id = i ∧ row.balance ≠ a.balance
  := by
  unfold scanRow at hrow
  simp only [Option.bind_eq_bind, Option.bind_eq_some_iff] at hrow
  obtain ⟨p₁, hp₁, ⟨id, t₁⟩, hid, p₂, hp₂, ⟨deposit, t₂⟩, hdeposit, p₃, hp₃, ⟨withdraw, p₄⟩,
    hwithdraw, ⟨balance, t₄⟩, hbalance, hrow⟩ := hrow
  cases hrow
  obtain ⟨x, rfl, hx⟩ := List.dropPrefix?_eq_some_iff.mp hp₁
  unfold rowText at h
  rw [eq_of_beq hx, List.append_assoc] at h
  -- the line is cut off after the `D` and after the `W`, which have been read
  have h₁ : p₁ ++ q = (CString.padded 2 i ++ [' ']) ++ 'D' :: (' ' :: (CString.decimal a.deposited
      ++ (" W ".toList ++ (CString.decimal a.withdrawn ++ (" ".toList
      ++ CString.decimal a.balance))))) := by
    rw [List.append_cancel_left h, List.append_assoc]
    rfl
  have hD : 'D' ∈ p₁ := by
    apply CString.scanIntWidth_subset hid
    exact (List.dropWhile_suffix _).subset (mem_of_literal hp₂)
  obtain ⟨y, rfl, h₂⟩ := cut_after h₁
    (letter_not_mem_number (by decide) fun _ => CString.of_mem_padded) hD
  rw [List.append_assoc, scanIntWidth_id hi] at hid
  cases hid
  have hy : CString.literal ['D'] (['D'] ++ y) = some p₂ := hp₂
  rw [CString.literal_append] at hy
  cases hy
  have h₃ : p₂ ++ q = (' ' :: CString.decimal a.deposited ++ [' ']) ++ 'W' :: (' '
      :: (CString.decimal a.withdrawn ++ ' ' :: CString.decimal a.balance)) := by
    rw [h₂, List.append_assoc]
    rfl
  have hW : 'W' ∈ p₂ := by
    apply (CString.scanInt_suffix hdeposit).subset
    exact (List.dropWhile_suffix _).subset (mem_of_literal hp₃)
  have hnot : 'W' ∉ ' ' :: CString.decimal a.deposited ++ [' '] := by
    have hletter := letter_not_mem_number (c := 'W') (s := CString.decimal a.deposited) (by decide)
      fun _ => CString.of_mem_decimal
    intro hmem
    rcases List.mem_cons.mp hmem with heq | hmem
    · cases heq
    · exact hletter hmem
  obtain ⟨z, rfl, h₄⟩ := cut_after h₃ hnot hW
  have hscan : CString.scanInt (' ' :: (CString.decimal a.deposited ++ ' ' :: 'W' :: z))
      = some (deposit, t₂) := by
    rw [← hdeposit, List.append_assoc]
    rfl
  rw [scanInt_space ha.deposited endsNumber_space] at hscan
  cases hscan
  have hz : CString.literal ['W'] (['W'] ++ z) = some p₃ := hp₃
  rw [CString.literal_append] at hz
  cases hz
  exact ⟨rfl, scan_cut_numbers ha.withdrawn ha.balance h₄ hq hwithdraw hbalance⟩

/-! ### Rows that are written -/

/-- The numbers that are logged, with their accounts. -/
def loggedRows (s : Shared) : List (Nat × Account) :=
  (List.range' 1 s.active.toNat).map fun i => (i, s.accounts (Fin.ofNat MAX_CLI i))

/-- The lines of some accounts. -/
def rowsText (rows : List (Nat × Account)) : Text :=
  (rows.map fun r => rowText r.1 r.2 ++ ['\n']).flatten

/-- What is loaded of some lines. -/
def loaded (bytes : Text) : List Account := (CString.tokens isNewline bytes).filterMap scanLine

/-- An account whose line can be read. -/
structure Readable (r : Nat × Account) : Prop where
  le : r.1 ≤ 99
  ints : r.2.IsInts
  id : r.2.id = r.1

variable {r : Nat × Account} {rows : List (Nat × Account)} {N : Nat}

theorem of_mem_rowText {c : Char} (h : c ∈ rowText i a) :
  c ∈ "BankID_ DW-".toList ∨ c.isDigit = true
  := by
  have hnumber : ∀ {s : Text}, (∀ d ∈ s, d = '-' ∨ d.isDigit = true) → c ∈ s →
      c ∈ "BankID_ DW-".toList ∨ c.isDigit = true := by
    intro s hs hc
    rcases hs c hc with rfl | hdigit
    · exact .inl (by decide)
    · exact .inr hdigit
  have hliteral : ∀ {s : Text}, s ⊆ "BankID_ DW-".toList → c ∈ s →
      c ∈ "BankID_ DW-".toList ∨ c.isDigit = true := fun hs hc => .inl (hs hc)
  unfold rowText at h
  simp only [List.mem_append] at h
  rcases h with h | h | h | h | h | h | h | h
  · exact hliteral (by decide) h
  · exact hnumber (fun _ => CString.of_mem_padded) h
  · exact hliteral (by decide) h
  · exact hnumber (fun _ => CString.of_mem_decimal) h
  · exact hliteral (by decide) h
  · exact hnumber (fun _ => CString.of_mem_decimal) h
  · exact hliteral (by decide) h
  · exact hnumber (fun _ => CString.of_mem_decimal) h

/-- A line has no newline and no end of a string in it. -/
theorem plain_rowText :
  ∀ c ∈ rowText i a, isNewline c = false ∧ c ≠ '\x00'
  := by
  intro c hc
  have hletters : ("BankID_ DW-".toList.all fun c => !isNewline c && c ≠ '\x00') = true := by
    decide
  rcases of_mem_rowText hc with hletter | hdigit
  · simpa using List.all_eq_true.mp hletters c hletter
  · constructor
    · rw [isNewline, decide_eq_false_iff_not]
      rintro rfl
      cases hdigit
    · rintro rfl
      cases hdigit

theorem rowText_ne_nil :
  rowText i a ≠ []
  := by
  intro h
  have hhead : (rowText i a).head? = some 'B' := rfl
  rw [h] at hhead
  cases hhead

/-- A line that is loaded is not skipped. -/
theorem scanLine_rowText (hr : Readable r) :
  scanLine (rowText r.1 r.2) = some r.2
  := by
  have hhead : (rowText r.1 r.2).head? = some 'B' := rfl
  rw [scanLine, hhead, if_neg (by decide), scanRow_rowText hr.le hr.ints, ← hr.id]

theorem loaded_cons {s : Text} (hr : Readable r) :
  loaded (rowText r.1 r.2 ++ '\n' :: s) = r.2 :: loaded s
  := by
  rw [loaded, CString.tokens_append rowText_ne_nil (fun c hc => (plain_rowText c hc).1) rfl,
    List.filterMap_cons_some (scanLine_rowText hr)]
  rfl

/-- A last line that is loaded. -/
theorem loaded_single {s : Text} (hs : ∀ c ∈ s, isNewline c = false) :
  loaded s = (scanLine s).toList
  := by
  rcases eq_or_ne s [] with rfl | hne
  · rw [loaded, CString.tokens_nil]
    rfl
  · rw [loaded, CString.tokens_eq hne hs]
    cases h : scanLine s with
    | none => rw [List.filterMap_cons_none h, List.filterMap_nil, Option.toList_none]
    | some row => rw [List.filterMap_cons_some h, List.filterMap_nil, Option.toList_some]

/-- The end of the log is skipped, also if it is cut off. -/
theorem loaded_endOfLog :
  loaded (endOfLog.take N) = []
  := by
  have hend : endOfLog = "## end of log.".toList ++ '\n' :: [] := by decide
  have hplain : ("## end of log.".toList.all fun c => !isNewline c) = true := by decide
  have hline : ∀ c ∈ "## end of log.".toList, isNewline c = false := by
    intro c hc
    simpa using List.all_eq_true.mp hplain c hc
  have hcomment : ∀ s : Text, scanLine ('#' :: s) = none := by
    intro s
    rw [scanLine, if_pos]
    rfl
  rcases Nat.lt_or_ge N 15 with hlt | hge
  · have htake : endOfLog.take N = "## end of log.".toList.take N := by
      rw [hend, List.take_append_of_le_length]
      exact Nat.le_of_lt_succ hlt
    rw [htake, loaded_single fun c hc => hline c (List.mem_of_mem_take hc)]
    cases N with
    | zero => rfl
    | succ N =>
        have hcons : "## end of log.".toList.take (N + 1)
            = '#' :: "# end of log.".toList.take N := rfl
        rw [hcons, hcomment]
        rfl
  · rw [List.take_of_length_le (by rw [hend]; exact hge), hend, loaded,
      CString.tokens_append (by decide) hline rfl, CString.tokens_nil]
    rfl

theorem rowsText_cons :
  rowsText (r :: rows) = rowText r.1 r.2 ++ '\n' :: rowsText rows
  := by
  rw [rowsText, List.map_cons, List.flatten_cons, List.append_assoc]
  rfl

theorem length_rowsText_cons :
  (rowsText (r :: rows)).length = (rowText r.1 r.2).length + 1 + (rowsText rows).length
  := by
  rw [rowsText_cons, List.length_append, List.length_cons]
  omega

theorem length_rowsText_eq_zero (h : (rowsText rows).length = 0) :
  rows = []
  := by
  cases rows with
  | nil => rfl
  | cons r rows =>
      rw [length_rowsText_cons] at h
      omega

/-- What is read of a line and of what follows it. -/
theorem take_rowsText_cons (hN : (rowText r.1 r.2).length < N) :
  (rowsText (r :: rows) ++ endOfLog).take N = rowText r.1 r.2
    ++ '\n' :: (rowsText rows ++ endOfLog).take (N - ((rowText r.1 r.2).length + 1))
  := by
  rw [rowsText_cons, List.append_assoc, List.take_append, List.take_of_length_le hN.le,
    List.cons_append, List.take_cons (by omega)]
  rw [Nat.sub_add_eq]

theorem take_rowsText_cut (hN : N ≤ (rowText r.1 r.2).length) :
  (rowsText (r :: rows) ++ endOfLog).take N = (rowText r.1 r.2).take N
  := by
  rw [rowsText_cons, List.append_assoc, List.take_append_of_le_length hN]

/-- A log that fits into the buffer is loaded. -/
theorem loaded_rowsText (hrows : ∀ r ∈ rows, Readable r) :
  ∀ N, (rowsText rows).length ≤ N + 1 →
    loaded ((rowsText rows ++ endOfLog).take N) = rows.map Prod.snd
  := by
  induction rows with
  | nil =>
      intro N _
      exact loaded_endOfLog
  | cons r rows ih =>
      intro N hN
      have hr := hrows r List.mem_cons_self
      rw [length_rowsText_cons] at hN
      rcases Nat.lt_or_ge (rowText r.1 r.2).length N with hlt | hge
      · rw [take_rowsText_cons hlt, loaded_cons hr,
          ih (fun r' hr' => hrows r' (List.mem_cons_of_mem _ hr')) _ (by omega), List.map_cons]
      · -- only the newline of the last line is cut off
        obtain rfl : rows = [] := length_rowsText_eq_zero (by omega)
        rw [take_rowsText_cut hge, List.take_of_length_le (by omega),
          loaded_single fun c hc => (plain_rowText c hc).1, scanLine_rowText hr]
        rfl

/-- A log that does not fit into the buffer is loaded up to an account, of which something
else may be loaded. -/
theorem loaded_rowsText_cut (hrows : ∀ r ∈ rows, Readable r) :
  ∀ N, N + 1 < (rowsText rows).length →
    ∃ l₁ r l₂, rows = l₁ ++ r :: l₂ ∧ ∀ row ∈ loaded ((rowsText rows ++ endOfLog).take N),
      row ∈ l₁.map Prod.snd ∨ row.id = r.1 ∧ row.balance ≠ r.2.balance
  := by
  induction rows with
  | nil =>
      intro N hN
      exact absurd hN (Nat.not_lt_zero _)
  | cons r rows ih =>
      intro N hN
      have hr := hrows r List.mem_cons_self
      have hrest := fun r' hr' => hrows r' (List.mem_cons_of_mem r hr')
      rw [length_rowsText_cons] at hN
      rcases Nat.lt_trichotomy (rowText r.1 r.2).length N with hlt | heq | hgt
      · obtain ⟨l₁, r', l₂, rfl, hl⟩ := ih hrest (N - ((rowText r.1 r.2).length + 1))
          (by omega)
        refine ⟨r :: l₁, r', l₂, rfl, ?_⟩
        rw [take_rowsText_cons hlt, loaded_cons hr]
        intro row hrow
        rcases List.mem_cons.mp hrow with rfl | hrow
        · exact .inl List.mem_cons_self
        · exact (hl row hrow).imp_left (List.mem_cons_of_mem _)
      · -- nothing is loaded of the line that follows
        cases rows with
        | nil =>
            rw [rowsText, List.map_nil, List.flatten_nil, List.length_nil] at hN
            omega
        | cons r' rows =>
            refine ⟨[r], r', rows, rfl, ?_⟩
            rw [take_rowsText_cut heq.ge, List.take_of_length_le heq.le,
              loaded_single fun c hc => (plain_rowText c hc).1, scanLine_rowText hr]
            exact fun row hrow => .inl hrow
      · refine ⟨[], r, rows, rfl, ?_⟩
        rw [take_rowsText_cut hgt.le, loaded_single fun c hc =>
          (plain_rowText c (List.mem_of_mem_take hc)).1]
        intro row hrow
        have hscan : scanRow ((rowText r.1 r.2).take N) = some row := by
          rw [Option.mem_toList, scanLine] at hrow
          split at hrow
          · cases hrow
          · exact hrow
        refine .inr (scanRow_cut hr.le hr.ints (List.take_append_drop N _) ?_ hscan)
        rw [ne_eq, List.drop_eq_nil_iff]
        omega

/-! ### What is loaded -/

variable {s s' : Shared} {l : List Account}

/-- An account of a database that is loaded is one of the rows, or what it was before. -/
theorem accounts_of_load {k : Fin MAX_CLI} (h : l.foldlM loadRow s = some s') :
  s'.accounts k = s.accounts k ∨ s'.accounts k ∈ l
  := by
  induction l generalizing s with
  | nil =>
      cases h
      exact .inl rfl
  | cons row l ih =>
      rw [List.foldlM_cons] at h
      obtain ⟨s₁, h₁, h⟩ := Option.bind_eq_some_iff.mp h
      rcases ih h with heq | hmem
      · obtain ⟨j, -, rfl⟩ := Option.map_eq_some_iff.mp h₁
        rcases eq_or_ne k j with rfl | hne
        · right
          rw [heq]
          simp [Shared.setAccount]
        · left
          rw [heq]
          simp [Shared.setAccount, hne]
      · exact .inr (List.mem_cons_of_mem _ hmem)

theorem entry_natCast (hi : i < MAX_CLI) :
  entry (i : Int) = some (Fin.ofNat MAX_CLI i)
  := by
  have hin : 0 ≤ (i : Int) ∧ (i : Int) < (MAX_CLI : Nat) := by omega
  rw [entry, dif_pos hin]
  congr 1
  apply Fin.ext
  rw [Fin.val_ofNat, Nat.mod_eq_of_lt hi]
  rfl

/-- Rows with consecutive numbers are loaded. -/
theorem load_range {f : Nat → Account} {m : Nat} :
  ∀ n : Nat, s.active = n → n + m < MAX_CLI → (∀ i, n < i → i ≤ n + m → (f i).id = i) →
    ∃ s', ((List.range' (n + 1) m).map f).foldlM loadRow s = some s' ∧ s'.active = (n + m : Nat)
      ∧ ∀ k : Fin MAX_CLI, s'.accounts k
        = if n < k.val ∧ k.val ≤ n + m then f k.val else s.accounts k
  := by
  induction m generalizing s with
  | zero =>
      intro n hn hm _
      refine ⟨s, rfl, hn, ?_⟩
      intro k
      rw [if_neg (by omega)]
  | succ m ih =>
      intro n hn hm hf
      have hrow : loadRow s (f (n + 1)) = some { s.setAccount (Fin.ofNat MAX_CLI (n + 1))
          (f (n + 1)) with active := (n + 1 : Nat) } := by
        have hgt : ((n + 1 : Nat) : Int) > s.active := by omega
        rw [loadRow, hf (n + 1) (by omega) (by omega), entry_natCast (by omega), Option.map_some,
          if_pos hgt]
      obtain ⟨s', hs', hactive, haccounts⟩ := ih (s := { s.setAccount (Fin.ofNat MAX_CLI (n + 1))
        (f (n + 1)) with active := (n + 1 : Nat) }) (n + 1) rfl (by omega)
        (fun i hi hi' => hf i (by omega) (by omega))
      refine ⟨s', ?_, ?_, ?_⟩
      · rw [List.range'_succ, List.map_cons, List.foldlM_cons, hrow]
        exact hs'
      · rw [hactive, Nat.add_assoc, Nat.add_comm 1]
      · intro k
        rw [haccounts]
        have hval : (Fin.ofNat MAX_CLI (n + 1)).val = n + 1 := Nat.mod_eq_of_lt (by omega)
        rcases eq_or_ne k (Fin.ofNat MAX_CLI (n + 1)) with rfl | hne
        · rw [if_neg (by omega), if_pos (by omega), hval]
          simp [Shared.setAccount]
        · have hne' : k.val ≠ n + 1 := by
            intro heq
            apply hne
            apply Fin.ext
            rw [heq, hval]
          dsimp only [Shared.setAccount]
          rw [Function.update_of_ne hne]
          congr 1
          rw [eq_iff_iff]
          omega

/-! ### What is written -/

theorem length_padded {k : Nat} (hk : k < 1000) :
  (CString.padded 2 k).length ≤ 3 ∧ (k ≤ 99 → (CString.padded 2 k).length = 2)
  := by
  have hthree := (Nat.length_toDigits_le_iff (b := 10) (k := 3) (by decide) (by decide)).mpr hk
  have htwo : k ≤ 99 → (Nat.toDigits 10 k).length ≤ 2 := by
    intro hle
    exact (Nat.length_toDigits_le_iff (b := 10) (by decide) (by decide)).mpr
      (Nat.lt_succ_of_le hle)
  have hpadded : CString.padded 2 k = (Nat.toDigits 10 k).leftpad 2 '0' := by
    rw [CString.padded, if_neg (by omega)]
    rfl
  rw [hpadded, List.length_leftpad]
  omega

theorem length_rowText :
  (rowText i a).length = 14 + (CString.padded 2 i).length + (CString.decimal a.deposited).length
    + (CString.decimal a.withdrawn).length + (CString.decimal a.balance).length
  := by
  have hid : "BankID_".toList.length = 7 := rfl
  have hD : " D ".toList.length = 3 := rfl
  have hW : " W ".toList.length = 3 := rfl
  have hspace : " ".toList.length = 1 := rfl
  unfold rowText
  simp only [List.length_append, hid, hD, hW, hspace]
  omega

/-- A line is written in full. -/
theorem snprintf_rowText (hi : i < 1000) (ha : a.IsInts) :
  CString.snprintf MSG_SIZE (rowText i a ++ ['\n']) = rowText i a ++ ['\n']
  := by
  have hint : ∀ {n : Int}, IsInt n → (CString.decimal n).length ≤ 11 := by
    rintro n ⟨hlow, hhigh⟩
    apply CString.length_decimal (by decide)
    omega
  have hdeposited := hint ha.deposited
  have hwithdrawn := hint ha.withdrawn
  have hbalance := hint ha.balance
  have hpadded := (length_padded hi).1
  have hsize : MSG_SIZE = 256 := rfl
  apply CString.snprintf_eq
  rw [List.length_append, length_rowText, List.length_singleton]
  omega

theorem mapM_eq_some {α β : Type} {f : α → Option β} {g : α → β} {l : List α}
    (h : ∀ x ∈ l, f x = some (g x)) :
  l.mapM f = some (l.map g)
  := by
  induction l with
  | nil => rfl
  | cons x l ih =>
      rw [List.mapM_cons, h x List.mem_cons_self,
        ih fun y hy => h y (List.mem_cons_of_mem _ hy)]
      rfl

/-- The log of a database. -/
theorem writeLog_eq (hactive : s.active < MAX_CLI) (hints : ∀ k, (s.accounts k).IsInts) :
  writeLog s = some (rowsText (loggedRows s) ++ endOfLog)
  := by
  have hlines : ((List.range' 1 s.active.toNat).mapM fun (i : Nat) =>
      (entry i).map fun k => CString.snprintf MSG_SIZE (rowText i (s.accounts k) ++ ['\n']))
      = some ((List.range' 1 s.active.toNat).map fun i =>
        rowText i (s.accounts (Fin.ofNat MAX_CLI i)) ++ ['\n']) := by
    apply mapM_eq_some
    intro i hi
    have hmax : MAX_CLI = 1000 := rfl
    rw [List.mem_range'_1] at hi
    rw [entry_natCast (by omega), Option.map_some, snprintf_rowText (by omega) (hints _)]
  rw [writeLog, hlines, Option.map_some, rowsText, loggedRows, List.map_map]
  rfl

/-- A log has no end of a string in it. -/
theorem string_log :
  CString.string ((rowsText rows ++ endOfLog).take N) = (rowsText rows ++ endOfLog).take N
  := by
  have hend : (endOfLog.all fun c => c ≠ '\x00') = true := by decide
  have hplain : ∀ c ∈ rowsText rows ++ endOfLog, decide (c ≠ '\x00') = true := by
    intro c hc
    rcases List.mem_append.mp hc with hc | hc
    · obtain ⟨line, hline, hc⟩ := List.mem_flatten.mp hc
      obtain ⟨r, -, rfl⟩ := List.mem_map.mp hline
      rcases List.mem_append.mp hc with hc | hc
      · exact decide_eq_true (plain_rowText c hc).2
      · rw [List.mem_singleton.mp hc]
        rfl
    · exact List.all_eq_true.mp hend c hc
  have htake := CString.takeWhile_append (t := [])
    (fun c hc => hplain c (List.mem_of_mem_take (i := N) hc)) (by rintro c ⟨⟩)
  rwa [List.append_nil] at htake

/-- What is loaded of a log that has been written. -/
theorem loadLog_eq :
  loadLog (some (rowsText rows ++ endOfLog))
    = loadDb (loaded ((rowsText rows ++ endOfLog).take (BUFFER_SIZE - 1)))
  := by
  rw [loadLog, scanRows, string_log]
  rfl

/-! ### The round trip -/

/-- The accounts of a database have their numbers, and their values are those of an `int`. -/
structure Database (s : Shared) : Prop where
  active : 0 ≤ s.active ∧ s.active < MAX_CLI
  id : ∀ k : Fin MAX_CLI, 1 ≤ k.val → (k.val : Int) ≤ s.active → (s.accounts k).id = k.val
  ints : ∀ k, (s.accounts k).IsInts

/-- The length of the lines that are written of a database. -/
def logLength (s : Shared) : Nat :=
  ((List.range' 1 s.active.toNat).map fun i => rowLength (s.accounts (Fin.ofNat MAX_CLI i))).sum

theorem Database.id_ofNat (h : Database s) (hi : 1 ≤ i) (hi' : (i : Int) ≤ s.active) :
  (s.accounts (Fin.ofNat MAX_CLI i)).id = i
  := by
  have hactive := h.active
  have hval : (Fin.ofNat MAX_CLI i).val = i := Nat.mod_eq_of_lt (by omega)
  have hid := h.id (Fin.ofNat MAX_CLI i)
  rw [hval] at hid
  exact hid hi hi'

theorem Database.readable (h : Database s) (hle : s.active ≤ 99) :
  ∀ r ∈ loggedRows s, Readable r
  := by
  intro r hr
  obtain ⟨i, hi, rfl⟩ := List.mem_map.mp hr
  rw [List.mem_range'_1] at hi
  constructor
  · dsimp only
    omega
  · exact h.ints _
  · exact h.id_ofNat hi.1 (by omega)

theorem length_loggedRows (hle : s.active ≤ 99) :
  (rowsText (loggedRows s)).length = logLength s
  := by
  rw [rowsText, List.length_flatten, loggedRows, List.map_map, List.map_map, logLength]
  congr 1
  apply List.map_congr_left
  intro i hi
  rw [List.mem_range'_1] at hi
  have hpadded := (length_padded (k := i) (by omega)).2 (by omega)
  have htext := length_rowText (i := i) (a := s.accounts (Fin.ofNat MAX_CLI i))
  have hframe : "BankID_00 D  W  \n".length = 17 := rfl
  dsimp only [Function.comp]
  rw [List.length_append, List.length_singleton, rowLength, hframe]
  omega

/-- The last account is one of the rows that are loaded if the log is read back. -/
theorem Database.last_loaded (h : Database s) (hpos : 0 < s.active) (htrip : RoundTrip s) :
  s.accounts (Fin.ofNat MAX_CLI s.active.toNat)
    ∈ loaded ((rowsText (loggedRows s) ++ endOfLog).take (BUFFER_SIZE - 1))
  := by
  have hactive := h.active
  have hval : (Fin.ofNat MAX_CLI s.active.toNat).val = s.active.toNat :=
    Nat.mod_eq_of_lt (by omega)
  obtain ⟨file, s', hwrite, hload, -, haccounts⟩ := htrip
  rw [writeLog_eq hactive.2 h.ints] at hwrite
  cases hwrite
  rw [loadLog_eq] at hload
  have hlast := haccounts (Fin.ofNat MAX_CLI s.active.toNat) (by omega) (by omega)
  rcases accounts_of_load (k := Fin.ofNat MAX_CLI s.active.toNat) hload with hempty | hmem
  · have hid := h.id_ofNat (i := s.active.toNat) (by omega) (by omega)
    rw [← hlast, hempty] at hid
    have hzero : (empty.accounts (Fin.ofNat MAX_CLI s.active.toNat)).id = 0 := rfl
    omega
  · rwa [hlast] at hmem

theorem Database.round_trip (h : Database s) (hle : s.active ≤ 99)
    (hlength : logLength s ≤ BUFFER_SIZE) :
  RoundTrip s
  := by
  have hactive := h.active
  have hzero : empty.active = (0 : Nat) := rfl
  obtain ⟨s', hload, hactive', haccounts⟩ := load_range (s := empty) (m := s.active.toNat)
    (f := fun i => s.accounts (Fin.ofNat MAX_CLI i)) 0 hzero (by omega)
    (fun i hi hi' => h.id_ofNat (by omega) (by omega))
  have hrows : loaded ((rowsText (loggedRows s) ++ endOfLog).take (BUFFER_SIZE - 1))
      = (List.range' 1 s.active.toNat).map fun i => s.accounts (Fin.ofNat MAX_CLI i) := by
    have hsize : BUFFER_SIZE = 4096 := rfl
    rw [loaded_rowsText (h.readable hle) _ (by rw [length_loggedRows hle]; omega), loggedRows,
      List.map_map]
    rfl
  refine ⟨_, s', writeLog_eq hactive.2 h.ints, ?_, by omega, ?_⟩
  · rw [loadLog_eq, hrows]
    exact hload
  · intro k hk hk'
    have hofNat : Fin.ofNat MAX_CLI k.val = k := Fin.ext (Nat.mod_eq_of_lt k.isLt)
    rw [haccounts, if_pos (by omega), hofNat]

/-- The last account is not loaded of a log that is too long. -/
theorem Database.last_not_loaded (h : Database s) (hle : s.active ≤ 99)
    (hlong : BUFFER_SIZE < logLength s) :
  s.accounts (Fin.ofNat MAX_CLI s.active.toNat)
    ∉ loaded ((rowsText (loggedRows s) ++ endOfLog).take (BUFFER_SIZE - 1))
  := by
  intro hmem
  have hreadable := h.readable hle
  have hsize : BUFFER_SIZE = 4096 := rfl
  obtain ⟨l₁, r, l₂, hrows, hl⟩ := loaded_rowsText_cut hreadable (BUFFER_SIZE - 1)
    (by rw [length_loggedRows hle]; omega)
  have hr : r ∈ loggedRows s := by
    rw [hrows]
    exact List.mem_append_right _ List.mem_cons_self
  obtain ⟨i, hi, hir⟩ := List.mem_map.mp hr
  rw [List.mem_range'_1] at hi
  have hlast := h.id_ofNat (i := s.active.toNat) (by omega) (by omega)
  rcases hl _ hmem with hbefore | ⟨hid, hbalance⟩
  · -- the last account is not before another one
    obtain ⟨r', hr', heq⟩ := List.mem_map.mp hbefore
    have hid' := (hreadable r' (by rw [hrows]; exact List.mem_append_left _ hr')).id
    have hpairwise : ((loggedRows s).map Prod.fst).Pairwise (· < ·) := by
      rw [loggedRows, List.map_map]
      have hrange : List.map (Prod.fst ∘ fun i => (i, s.accounts (Fin.ofNat MAX_CLI i)))
          (List.range' 1 s.active.toNat) = List.range' 1 s.active.toNat := List.map_id _
      rw [hrange]
      exact List.pairwise_lt_range'
    rw [hrows, List.map_append, List.map_cons, List.pairwise_append] at hpairwise
    have hlt := hpairwise.2.2 r'.1 (List.mem_map_of_mem hr') r.1 List.mem_cons_self
    rw [heq] at hid'
    rw [← hir] at hlt
    dsimp only at hlt
    omega
  · rw [← hir] at hid hbalance
    have hi' : i = s.active.toNat := by
      dsimp only at hid
      omega
    apply hbalance
    rw [hi']

theorem Database.le_of_roundTrip (h : Database s) (htrip : RoundTrip s) :
  s.active ≤ 99
  := by
  rcases Int.lt_or_le 0 s.active with hpos | hnone
  · have hid := h.id_ofNat (i := s.active.toNat) (by omega) (by omega)
    obtain ⟨line, -, hline⟩ := List.mem_filterMap.mp (h.last_loaded hpos htrip)
    have hle := id_of_scanLine hline
    omega
  · omega

/-- The log is read back exactly if the numbers of the accounts have at most two digits, and
the lines fit into the buffer, but for the last newline. -/
theorem log_round_trip_iff (h : Database s) :
  RoundTrip s ↔ s.active ≤ 99 ∧ logLength s ≤ BUFFER_SIZE
  := by
  constructor
  · intro htrip
    have hle := h.le_of_roundTrip htrip
    refine ⟨hle, ?_⟩
    rcases Int.lt_or_le 0 s.active with hpos | hnone
    · by_contra hlong
      exact h.last_not_loaded hle (Nat.lt_of_not_le hlong) (h.last_loaded hpos htrip)
    · have hzero : s.active.toNat = 0 := by omega
      rw [logLength, hzero]
      exact Nat.zero_le _
  · rintro ⟨hle, hlength⟩
    exact h.round_trip hle hlength

/-- Two accounts, with money. -/
def savings : Shared :=
  { empty with
    accounts := fun k =>
      if k = 1 then ⟨1, 250, 50, 200⟩ else if k = 2 then ⟨2, 20, 0, 20⟩ else ⟨0, 0, 0, 0⟩
    active := 2 }

theorem database_savings :
  Database savings
  where
  active := by decide
  id := by
    intro k h₁ h₂
    change (k.val : Int) ≤ 2 at h₂
    obtain rfl | rfl : k = 1 ∨ k = 2 := by
      rw [Fin.ext_iff, Fin.ext_iff]
      change k.val = 1 ∨ k.val = 2
      omega
    · rfl
    · rfl
  ints k := by
    have hint : ∀ n : Int, 0 ≤ n → n ≤ 250 → IsInt n := by
      intro n h₀ h₁
      unfold IsInt
      omega
    dsimp only [savings]
    split_ifs
    · exact ⟨hint _ (by decide) (by decide), hint _ (by decide) (by decide),
        hint _ (by decide) (by decide)⟩
    · exact ⟨hint _ (by decide) (by decide), hint _ (by decide) (by decide),
        hint _ (by decide) (by decide)⟩
    · exact ⟨isInt_zero, isInt_zero, isInt_zero⟩

theorem log_round_trip_savings :
  RoundTrip savings
  := (log_round_trip_iff database_savings).mpr ⟨by decide, by decide⟩

/-- Accounts without money. -/
def openAccounts (n : Nat) : Shared :=
  { empty with accounts := fun k => ⟨k.val, 0, 0, 0⟩, active := n }

theorem database_openAccounts {n : Nat} (hn : n < MAX_CLI) :
  Database (openAccounts n)
  where
  active := by
    dsimp only [openAccounts]
    omega
  id _ _ _ := rfl
  ints _ := ⟨isInt_zero, isInt_zero, isInt_zero⟩

/-- The number of the hundredth account is not read. -/
theorem log_loses_account :
  Database (openAccounts 100) ∧ ¬ RoundTrip (openAccounts 100)
  := by
  have hdatabase : Database (openAccounts 100) := database_openAccounts (by decide)
  refine ⟨hdatabase, ?_⟩
  intro htrip
  exact absurd (hdatabase.le_of_roundTrip htrip) (by decide)

end BankServer
