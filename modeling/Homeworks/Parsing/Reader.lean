import Mathlib.Data.List.Basic

/-!
# Readers

A reader takes tokens from the front of a list and makes a value of them, or fails.  It reads a
word as a value when it does so whatever follows the word; then neither the word nor the value
can be another.
-/

namespace Parsing

abbrev Reader (τ : Type) := StateT (List τ) Option

variable {τ α β : Type}

/-- The next token. -/
def next : Reader τ τ
  | [] => none
  | t :: rest => some (t, rest)

/-- A given token. -/
def token [DecidableEq τ] (t : τ) : Reader τ Unit
  | [] => none
  | s :: rest => if s = t then some ((), rest) else none

/-- The next token decides. -/
def ifNext [DecidableEq τ] (t : τ) (p q : Reader τ α) : Reader τ α :=
  fun ts => if ts.head? = some t then p ts else q ts

/-- A list of values, up to a given token. -/
def readUntil [DecidableEq τ] (stop : τ) (p : Reader τ α) : ℕ → Reader τ (List α)
  | 0 => failure
  | fuel + 1 => ifNext stop (token stop >>= fun _ => pure []) do
    let x ← p
    let xs ← readUntil stop p fuel
    pure (x :: xs)

/-- The reader reads the word as the value. -/
def Reads (p : Reader τ α) (word : List τ) (x : α) : Prop :=
  ∀ rest, p (word ++ rest) = some (x, rest)

/-- A reader never reads one word as two values, nor a word and a part of it. -/
theorem Reads.unique {p : Reader τ α} {word word' rest rest' : List τ} {x x' : α}
    (h : Reads p word x) (h' : Reads p word' x') (heq : word ++ rest = word' ++ rest') :
  x = x' ∧ rest = rest'
  := by
  have hread := h rest
  rw [heq, h' rest'] at hread
  cases hread
  exact ⟨rfl, rfl⟩

theorem Reads.pure (x : α) :
  Reads (pure x : Reader τ α) [] x
  := fun _ => rfl

theorem Reads.bind {p : Reader τ α} {f : α → Reader τ β} {word word' : List τ} {x : α} {y : β}
    (h : Reads p word x) (hf : Reads (f x) word' y) :
  Reads (p >>= f) (word ++ word') y
  := by
  intro rest
  have hbind : (p >>= f) (word ++ word' ++ rest)
      = (p (word ++ word' ++ rest)).bind fun r => f r.1 r.2 := rfl
  rw [hbind, List.append_assoc, h, Option.bind_some, hf]

theorem reads_next (t : τ) :
  Reads next [t] t
  := fun _ => rfl

theorem Reads.congr {p : Reader τ α} {word word' : List τ} {x : α} (h : Reads p word x)
    (heq : word = word') :
  Reads p word' x
  := heq ▸ h

variable [DecidableEq τ]

theorem reads_token (t : τ) :
  Reads (token t) [t] ()
  := fun _ => if_pos rfl

theorem Reads.ifNext_self {t : τ} {p q : Reader τ α} {word : List τ} {x : α}
    (h : Reads p (t :: word) x) :
  Reads (ifNext t p q) (t :: word) x
  := fun rest => (if_pos rfl).trans (h rest)

theorem Reads.ifNext_ne {t s : τ} {p q : Reader τ α} {word : List τ} {x : α}
    (h : Reads q (s :: word) x) (hne : s ≠ t) :
  Reads (ifNext t p q) (s :: word) x
  := by
  intro rest
  have hhead : ¬ (s :: word ++ rest).head? = some t := by
    rw [List.cons_append, List.head?_cons, Option.some_inj]
    exact hne
  exact (if_neg hhead).trans (h rest)

/-- Values are read one after the other when none of them starts with the token at the end. -/
theorem reads_readUntil {stop : τ} {p : Reader τ α} {word : α → List τ} {xs : List α} {fuel : ℕ}
    (hfuel : xs.length < fuel) (hread : ∀ x ∈ xs, Reads p (word x) x)
    (hstart : ∀ x ∈ xs, ∃ t ts, word x = t :: ts ∧ t ≠ stop) :
  Reads (readUntil stop p fuel) (xs.flatMap word ++ [stop]) xs
  := by
  induction xs generalizing fuel with
  | nil =>
      obtain ⟨fuel, rfl⟩ := Nat.exists_eq_succ_of_ne_zero (Nat.ne_of_gt hfuel)
      exact Reads.ifNext_self ((reads_token stop).bind (Reads.pure []))
  | cons x xs ih =>
      obtain ⟨fuel, rfl⟩ := Nat.exists_eq_succ_of_ne_zero (Nat.ne_zero_of_lt hfuel)
      obtain ⟨t, ts, hword, hne⟩ := hstart x List.mem_cons_self
      have hmore := ih (Nat.lt_of_succ_lt_succ hfuel)
        (fun y hy => hread y (List.mem_cons_of_mem x hy))
        (fun y hy => hstart y (List.mem_cons_of_mem x hy))
      have hboth : Reads (p >>= fun x => readUntil stop p fuel >>= fun xs => pure (x :: xs))
          (word x ++ (xs.flatMap word ++ [stop] ++ [])) (x :: xs) :=
        (hread x List.mem_cons_self).bind (hmore.bind (Reads.pure (x :: xs)))
      rw [hword] at hboth
      refine (Reads.ifNext_ne hboth hne).congr ?_
      rw [List.append_nil, List.flatMap_cons, hword, List.append_assoc]
      rfl

end Parsing
