import Homeworks.CString.Text

/-!
# Strings in memory

The functions of the C library on strings, where every access is checked.  A pointer is the
memory from where it points to on, as far as it may be read, and a null pointer is none.  A
local array is the list of its entries.
-/

namespace CString

/-- What is wrong with an access. -/
inductive Fault where
  /-- a null pointer is used -/
  | nullPointer
  /-- what is read is past the end of the memory -/
  | readOutside
  /-- what is written is not in the array -/
  | writeOutside
  deriving DecidableEq

abbrev Checked := Except Fault

variable {α : Type*}

/-- Writes some values to the entries of an array from an index on. -/
def write (a : List α) (k : Nat) : List α → Checked (List α)
  | [] => .ok a
  | x :: xs => if k < a.length then write (a.set k x) (k + 1) xs else .error .writeOutside

/-- Reads a string up to its terminator. -/
def read : List Char → Checked (List Char)
  | [] => .error .readOutside
  | c :: s => if c = '\x00' then .ok [] else (c :: ·) <$> read s

/-- Reads a string up to its terminator, or its first characters. -/
def readUpTo : Nat → List Char → Checked (List Char)
  | 0, _ => .ok []
  | _ + 1, [] => .error .readOutside
  | n + 1, c :: s => if c = '\x00' then .ok [] else (c :: ·) <$> readUpTo n s

def strcpy (dst src : List Char) : Checked (List Char) := do
  let s ← read src
  write dst 0 (s ++ ['\x00'])

/-- `strncpy` fills up with zeros what it does not need. -/
def strncpy (dst src : List Char) (n : Nat) : Checked (List Char) := do
  let s ← readUpTo n src
  write dst 0 (s ++ List.replicate (n - s.length) '\x00')

def strchr (c : Char) : List Char → Checked (Option (List Char))
  | [] => .error .readOutside
  | x :: s =>
      if x = c then
        .ok (some (x :: s))
      else if x = '\x00' then
        .ok none
      else
        strchr c s

/-- The difference of two pointers, of which the first may be null. -/
def difference (p : Option (List Char)) (q : List Char) : Checked Nat :=
  match p with
  | none => .error .nullPointer
  | some p => .ok (q.length - p.length)

/-- A local array, of which it does not matter what is in it. -/
def localArray (size : Nat) : List Char := List.replicate size '\x00'

@[simp]
theorem length_localArray (size : Nat) :
  (localArray size).length = size
  := List.length_replicate

variable {a xs : List α} {k n : Nat} {dst s t : List Char} {c : Char}

/-- What is written to entries of an array. -/
theorem write_eq (h : k + xs.length ≤ a.length) :
  write a k xs = .ok (a.take k ++ xs ++ a.drop (k + xs.length))
  := by
  induction xs generalizing a k with
  | nil => simp [write]
  | cons x xs ih =>
      rw [List.length_cons] at h
      have hk : k < a.length := by omega
      have hset : k + 1 + xs.length ≤ (a.set k x).length := by
        rw [List.length_set]
        omega
      have hlength : k + 1 + xs.length = k + (x :: xs).length := by
        rw [List.length_cons]
        omega
      rw [write, if_pos hk, ih hset, hlength, List.drop_set_of_lt (by simp)]
      simp [List.take_add_one, hk, List.take_set_of_le]

/-- Nothing is written past the end of an array. -/
theorem write_eq_error (hk : k ≤ a.length) (h : a.length < k + xs.length) :
  write a k xs = .error .writeOutside
  := by
  induction xs generalizing a k with
  | nil =>
      rw [List.length_nil] at h
      omega
  | cons x xs ih =>
      rw [write]
      split
      · apply ih
        · rw [List.length_set]
          assumption
        · rw [List.length_set]
          rw [List.length_cons] at h
          omega
      · rfl

theorem string_cons_of_ne (hc : c ≠ '\x00') (s : List Char) :
  string (c :: s) = c :: string s
  := by simp [string, hc]

/-- What is read is the string. -/
theorem read_eq (s t : List Char) :
  read (s ++ '\x00' :: t) = .ok (string s)
  := by
  induction s with
  | nil => rfl
  | cons c s ih =>
      rw [List.cons_append, read]
      split
      · rename_i hc
        rw [hc]
        rfl
      · rename_i hc
        rw [ih, string_cons_of_ne hc]
        rfl

theorem readUpTo_eq (n : Nat) (s t : List Char) :
  readUpTo n (s ++ '\x00' :: t) = .ok ((string s).take n)
  := by
  induction s generalizing n with
  | nil => cases n <;> rfl
  | cons c s ih =>
      cases n with
      | zero => rfl
      | succ n =>
          rw [List.cons_append, readUpTo]
          split
          · rename_i hc
            rw [hc]
            rfl
          · rename_i hc
            rw [ih, string_cons_of_ne hc]
            rfl

/-- A text without a terminator is the string that it starts. -/
theorem string_eq (h : '\x00' ∉ s) :
  string s = s
  := List.takeWhile_eq_self_iff.mpr fun _ hc => decide_eq_true fun heq => h (heq ▸ hc)

/-- A string that fits is copied with its terminator. -/
theorem strcpy_eq (h : (string s).length < dst.length) (t : List Char) :
  strcpy dst (s ++ '\x00' :: t)
    = .ok (string s ++ '\x00' :: dst.drop ((string s).length + 1))
  := by
  have hlength : 0 + (string s ++ ['\x00']).length ≤ dst.length := by
    simp only [List.length_append, List.length_singleton]
    omega
  simp only [strcpy, read_eq, bind, Except.bind, write_eq hlength]
  simp

/-- The first characters of a string that fit are copied. -/
theorem strncpy_eq (h : n ≤ dst.length) (s t : List Char) :
  strncpy dst (s ++ '\x00' :: t) n
    = .ok ((string s).take n ++ List.replicate (n - (string s).length) '\x00' ++ dst.drop n)
  := by
  have hcount : n - ((string s).take n).length = n - (string s).length := by
    rw [List.length_take]
    omega
  have hlength : ((string s).take n ++ List.replicate (n - (string s).length) '\x00').length
      = n := by
    simp only [List.length_append, List.length_take, List.length_replicate]
    omega
  simp only [strncpy, readUpTo_eq, bind, Except.bind, hcount]
  rw [write_eq (by rw [hlength]; omega), hlength]
  simp

/-- A character that is not in the string is not found. -/
theorem strchr_eq_none (hc : c ≠ '\x00') (h : c ∉ s) (t : List Char) :
  strchr c (s ++ '\x00' :: t) = .ok none
  := by
  induction s with
  | nil => simp [strchr, hc.symm]
  | cons x s ih =>
      obtain ⟨hx, hs⟩ := not_or.mp (List.mem_cons.not.mp h)
      rw [List.cons_append, strchr, if_neg (Ne.symm hx)]
      split
      · rfl
      · exact ih hs

/-- The first occurrence of a character in the string is found. -/
theorem strchr_eq_some (hs : '\x00' ∉ s) (h : c ∉ s) (t : List Char) :
  strchr c (s ++ c :: t) = .ok (some (c :: t))
  := by
  induction s with
  | nil => simp [strchr]
  | cons x s ih =>
      obtain ⟨hx, hs'⟩ := not_or.mp (List.mem_cons.not.mp hs)
      obtain ⟨hxc, hc⟩ := not_or.mp (List.mem_cons.not.mp h)
      rw [List.cons_append, strchr, if_neg (Ne.symm hxc), if_neg (Ne.symm hx), ih hs' hc]

end CString
