import Mathlib.Data.Set.Basic
import Mathlib.Logic.Function.Basic
import Mathlib.Logic.Relation

/-!
# Locks

Threads that lock and unlock mutexes.  A program is the sequence of these operations; a
thread that has come to the end of its program starts another one.  A thread waits for
another if the mutex that it is about to lock is held by the other, and a deadlock is a cycle
of threads that wait for one another.

Where a mutex is locked while others are held, each of those is followed by it in the order
of locking.  A deadlock is a cycle in this order.
-/

open Relation

namespace Locks

/-- An operation on a mutex. -/
inductive Op (M : Type*) where
  | lock (m : M)
  | unlock (m : M)

/-- The mutexes that a thread holds, and the operations that it has still to perform. -/
structure Thread (M : Type*) where
  held : List M
  rest : List (Op M)

variable {M ι : Type*}

/-- All threads at the end of their programs. -/
def idle : ι → Thread M := fun _ => ⟨[], []⟩

/-! ### Deadlocks -/

variable {s s' : ι → Thread M} {i j : ι} {m m' : M}

/-- The thread is about to lock a mutex. -/
def Thread.Wants (t : Thread M) (m : M) : Prop := ∃ rest, t.rest = .lock m :: rest

/-- A thread waits for another. -/
def WaitsFor (s : ι → Thread M) (i j : ι) : Prop := ∃ m, (s i).Wants m ∧ m ∈ (s j).held

/-- There is a cycle of threads that wait for one another. -/
def Deadlock (s : ι → Thread M) : Prop := ∃ i, TransGen (WaitsFor s) i i

/-- A thread that holds the first mutex is about to lock the second. -/
def Followed (s : ι → Thread M) (m m' : M) : Prop := ∃ i, m ∈ (s i).held ∧ (s i).Wants m'

theorem Thread.Wants.eq {t : Thread M} (h : t.Wants m) (h' : t.Wants m') :
  m = m'
  := by
  obtain ⟨rest, hrest⟩ := h
  obtain ⟨rest', hrest'⟩ := h'
  rw [hrest] at hrest'
  cases hrest'
  rfl

/-- Along a path of threads that wait the mutexes that they want follow one another. -/
theorem followed_of_waitsFor (h : TransGen (WaitsFor s) i j) (hi : (s i).Wants m)
    (hj : (s j).Wants m') :
  TransGen (Followed s) m m'
  := by
  induction h generalizing m' with
  | single hij =>
      obtain ⟨m₁, hm₁, hheld⟩ := hij
      rw [hi.eq hm₁]
      exact .single ⟨_, hheld, hj⟩
  | tail _ hjk ih =>
      obtain ⟨m₁, hm₁, hheld⟩ := hjk
      exact (ih hm₁).tail ⟨_, hheld, hj⟩

/-- A deadlock is a cycle in the order of locking. -/
theorem Deadlock.followed (h : Deadlock s) :
  ∃ m, TransGen (Followed s) m m
  := by
  obtain ⟨i, hi⟩ := h
  obtain ⟨j, ⟨m, hm, -⟩, -⟩ := TransGen.head'_iff.mp hi
  exact ⟨m, followed_of_waitsFor hi hm hm⟩

/-- If the mutexes can be ranked such that those that are held have a lower rank than those
that are wanted, there is no deadlock. -/
theorem not_deadlock_of_rank (rank : M → Nat)
    (h : ∀ m m', Followed s m m' → rank m < rank m') :
  ¬ Deadlock s
  := by
  intro hdead
  obtain ⟨m, hm⟩ := hdead.followed
  have hlt : ∀ m', TransGen (Followed s) m m' → rank m < rank m' := by
    intro m' hm'
    induction hm' with
    | single hmm' => apply h _ _ hmm'
    | tail _ hmm' ih => apply ih.trans (h _ _ hmm')
  apply lt_irrefl _ (hlt m hm)

/-! ### Locks that are needed -/

/-- The second mutex is locked before the first is unlocked. -/
def Within (m m' : M) (p : List (Op M)) : Prop :=
  ∃ before after, p = before ++ .lock m' :: after ∧ .unlock m ∉ before

/-- A thread that holds the first mutex is going to lock the second before it unlocks the
first. -/
def Thread.Needs (t : Thread M) (m m' : M) : Prop := m ∈ t.held ∧ Within m m' t.rest

theorem Followed.needs (hf : Followed s m m') :
  ∃ i, (s i).Needs m m'
  := by
  obtain ⟨i, hheld, rest, hrest⟩ := hf
  exact ⟨i, hheld, [], rest, hrest, List.not_mem_nil⟩

/-- A thread locks the first mutex, and is going to lock the second before it unlocks the
first, only while no thread needs them the other way round. -/
def Apart (a b : M) (s s' : ι → Thread M) : Prop :=
  ∀ i rest, (s i).rest = .lock a :: rest → (s' i).rest = rest → Within a b rest →
    ∀ j, ¬ (s j).Needs b a

/-! ### Steps -/

variable [DecidableEq M]

/-- A step of a thread, where programs are taken from a set. -/
inductive Step [DecidableEq ι] (programs : Set (List (Op M)))
    (s : ι → Thread M) : (ι → Thread M) → Prop where
  | start {i : ι} {program : List (Op M)} (h : (s i).rest = []) (hp : program ∈ programs) :
    Step programs s (Function.update s i ⟨(s i).held, program⟩)
  | lock {i : ι} {m : M} {rest : List (Op M)} (h : (s i).rest = .lock m :: rest)
      (free : ∀ j, m ∉ (s j).held) :
    Step programs s (Function.update s i ⟨m :: (s i).held, rest⟩)
  | unlock {i : ι} {m : M} {rest : List (Op M)} (h : (s i).rest = .unlock m :: rest) :
    Step programs s (Function.update s i ⟨(s i).held.filter (· ≠ m), rest⟩)

/-- One thread takes a step. -/
theorem Step.one [DecidableEq ι] {programs : Set (List (Op M))} (hstep : Step programs s s') :
  ∃ i, ∀ j, j ≠ i → s' j = s j
  := by
  cases hstep with
  | @start i => exact ⟨i, fun j hj => Function.update_of_ne hj ..⟩
  | @lock i => exact ⟨i, fun j hj => Function.update_of_ne hj ..⟩
  | @unlock i => exact ⟨i, fun j hj => Function.update_of_ne hj ..⟩

/-! ### The nesting of locks in programs -/

/-- A program that starts with some mutexes held ends with others held, and where a mutex is
locked it is related to all mutexes that are held. -/
inductive Nested (r : M → M → Prop) : List M → List (Op M) → List M → Prop where
  | nil (held : List M) : Nested r held [] held
  | lock {held held' : List M} {m : M} {rest : List (Op M)} (h : ∀ m' ∈ held, r m' m)
      (hrest : Nested r (m :: held) rest held') :
    Nested r held (.lock m :: rest) held'
  | unlock {held held' : List M} {m : M} {rest : List (Op M)}
      (hrest : Nested r (held.filter (· ≠ m)) rest held') :
    Nested r held (.unlock m :: rest) held'

variable {r : M → M → Prop} {held held' held'' : List M} {p q : List (Op M)}

theorem Nested.append (hp : Nested r held p held') (hq : Nested r held' q held'') :
  Nested r held (p ++ q) held''
  := by
  induction hp with
  | nil => exact hq
  | lock h _ ih => exact .lock h (ih hq)
  | unlock _ ih => exact .unlock (ih hq)

/-- A region between locking and unlocking a mutex. -/
theorem Nested.region (hm : m ∉ held) (h : ∀ m' ∈ held, r m' m)
    (hp : Nested r (m :: held) p (m :: held)) :
  Nested r held (.lock m :: p ++ [.unlock m]) held
  := by
  apply Nested.append (.lock h hp)
  have hfilter : (m :: held).filter (· ≠ m) = held := by
    rw [List.filter_cons_of_neg (by simp), List.filter_eq_self]
    intro m' hm'
    simpa using ne_of_mem_of_not_mem hm' hm
  apply Nested.unlock
  rw [hfilter]
  apply Nested.nil

/-- A program or its part that may be left out. -/
theorem Nested.ite (b : Bool) (hp : Nested r held p held) :
  Nested r held (if b then p else []) held
  := by
  cases b with
  | false => exact .nil held
  | true => exact hp

section

variable [DecidableEq ι] {programs : Set (List (Op M))}
  (hprograms : ∀ p ∈ programs, Nested r [] p [])

include hprograms

/-- Every thread goes on with its program. -/
theorem Step.nested (h : ∀ i, Nested r (s i).held (s i).rest []) (hstep : Step programs s s') :
  ∀ i, Nested r (s' i).held (s' i).rest []
  := by
  intro i
  cases hstep with
  | @start j program hrest hp =>
      rcases eq_or_ne i j with rfl | hne
      · have hheld := h i
        rw [hrest] at hheld
        rw [Function.update_self]
        generalize (s i).held = held at hheld
        cases hheld
        apply hprograms program hp
      · rw [Function.update_of_ne hne]
        apply h
  | @lock j m rest hrest free =>
      rcases eq_or_ne i j with rfl | hne
      · have hlock := h i
        rw [hrest] at hlock
        rw [Function.update_self]
        cases hlock with
        | lock _ hrest => exact hrest
      · rw [Function.update_of_ne hne]
        apply h
  | @unlock j m rest hrest =>
      rcases eq_or_ne i j with rfl | hne
      · have hunlock := h i
        rw [hrest] at hunlock
        rw [Function.update_self]
        cases hunlock with
        | unlock hrest => exact hrest
      · rw [Function.update_of_ne hne]
        apply h

end

/-- A mutex that is about to be locked is related to those that are held. -/
theorem Followed.nested (h : ∀ i, Nested r (s i).held (s i).rest []) (hf : Followed s m m') :
  r m m'
  := by
  obtain ⟨i, hheld, rest, hrest⟩ := hf
  have hlock := h i
  rw [hrest] at hlock
  cases hlock with
  | lock hr _ => apply hr m hheld

variable [DecidableEq ι] {programs : Set (List (Op M))}

/-- A thread comes to need a mutex with another one by locking the latter. -/
theorem Step.needs (h : ∀ i, Nested r (s i).held (s i).rest []) (hstep : Step programs s s')
    (hneeds : (s' i).Needs m m') :
  (s i).Needs m m' ∨ (s i).rest = .lock m :: (s' i).rest
  := by
  obtain ⟨hheld, before, after, hrest', hunlock⟩ := hneeds
  cases hstep with
  | @start j program hrest hp =>
      rcases eq_or_ne i j with rfl | hne
      · have hend := h i
        rw [hrest] at hend
        rw [Function.update_self] at hheld
        generalize (s i).held = held at hend hheld
        cases hend
        cases hheld
      · rw [Function.update_of_ne hne] at hheld hrest'
        exact .inl ⟨hheld, before, after, hrest', hunlock⟩
  | @lock j m₁ rest hrest free =>
      rcases eq_or_ne i j with rfl | hne
      · rw [Function.update_self] at hheld hrest' ⊢
        rcases List.mem_cons.mp hheld with rfl | hheld
        · exact .inr hrest
        · refine .inl ⟨hheld, .lock m₁ :: before, after, ?_, ?_⟩
          · rw [hrest, List.cons_append, ← hrest']
          · simpa using hunlock
      · rw [Function.update_of_ne hne] at hheld hrest'
        exact .inl ⟨hheld, before, after, hrest', hunlock⟩
  | @unlock j m₁ rest hrest =>
      rcases eq_or_ne i j with rfl | hne
      · rw [Function.update_self] at hheld hrest'
        obtain ⟨hheld, hm⟩ := List.mem_filter.mp hheld
        refine .inl ⟨hheld, .unlock m₁ :: before, after, ?_, ?_⟩
        · rw [hrest, List.cons_append, ← hrest']
        · have hm : m ≠ m₁ := by simpa using hm
          simpa [hm] using hunlock
      · rw [Function.update_of_ne hne] at hheld hrest'
        exact .inl ⟨hheld, before, after, hrest', hunlock⟩

/-- Two mutexes that are kept apart are not needed with one another by two threads, the one
this way round and the other that way. -/
theorem Step.apart {a b : M} (hne : a ≠ b) (h : ∀ i, Nested r (s i).held (s i).rest [])
    (hstep : Step programs s s') (hab : Apart a b s s') (hba : Apart b a s s')
    (hs : ∀ i j, (s i).Needs a b → ¬ (s j).Needs b a) :
  ∀ i j, (s' i).Needs a b → ¬ (s' j).Needs b a
  := by
  intro i j hi hj
  obtain hi' | hi' := hstep.needs h hi
  · obtain hj' | hj' := hstep.needs h hj
    · apply hs i j hi' hj'
    · apply hba j _ hj' rfl hj.2 i hi'
  · obtain hj' | hj' := hstep.needs h hj
    · apply hab i _ hi' rfl hi.2 j hj'
    · obtain ⟨k, hk⟩ := hstep.one
      have hmoved : ∀ {l : ι} {m : M}, (s l).rest = .lock m :: (s' l).rest → l = k := by
        intro l m hl
        by_contra hlk
        rw [hk l hlk] at hl
        exact List.cons_ne_self _ _ hl.symm
      obtain rfl := hmoved hi'
      obtain rfl := hmoved hj'
      rw [hi'] at hj'
      cases hj'
      exact hne rfl

end Locks
