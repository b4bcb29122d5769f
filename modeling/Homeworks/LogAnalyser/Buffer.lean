import Homeworks.Concurrency.Ring
import Homeworks.Transition.Runs
import Mathlib.Algebra.BigOperators.Group.Finset.Piecewise
import Mathlib.Data.Fintype.Basic

/-!
# The buffer of the log analyser

The manager puts lines into the buffer and the workers get them.  A step is what a thread does
between locking the mutex and unlocking it or waiting, in any order; a thread that waits may also
wake up by itself.  Of every line it is recorded that it has been put in, and to which worker it
has been handed out.
-/

open Relation

namespace LogAnalyser

structure Buffer (n : ℕ) (α : Type*) where
  lines : Fin n → α
  size : ℕ
  head : Fin n
  tail : Fin n
  eof : Bool

variable {n : ℕ} [NeZero n] {α : Type*}

namespace Buffer

/-- The loop of `buffer_put` waits. -/
def Full (b : Buffer n α) : Prop := b.size = n ∧ b.eof = false

/-- The loop of `buffer_get` waits. -/
def Empty (b : Buffer n α) : Prop := b.size = 0 ∧ b.eof = false

def put (b : Buffer n α) (line : α) : Buffer n α :=
  { b with
    lines := Function.update b.lines b.tail line
    tail := Ring.shift b.tail 1
    size := b.size + 1 }

def get (b : Buffer n α) : α × Buffer n α :=
  (b.lines b.head, { b with head := Ring.shift b.head 1, size := b.size - 1 })

/-- The lines in the buffer, the next one first. -/
def contents (b : Buffer n α) : List α := Ring.contents b.lines b.head b.size

end Buffer

/-- Where the manager is. -/
inductive Manager (α : Type*) where
  /-- between two calls -/
  | ready
  /-- waits for `not_full` in `buffer_put` -/
  | waiting (line : α)
  /-- has been woken up in `buffer_put` -/
  | woken (line : α)
  /-- has called `buffer_set_eof` -/
  | finished

/-- Where a worker is. -/
inductive Worker where
  /-- before a call of `buffer_get` -/
  | ready
  /-- waits for `not_empty` -/
  | waiting
  /-- has been woken up -/
  | woken
  /-- has been handed `NULL` -/
  | finished
  deriving DecidableEq

/-- The manager can go on with a call of `buffer_put`. -/
def Manager.Puts (m : Manager α) (line : α) : Prop := m = .ready ∨ m = .woken line

/-- The worker can go on with a call of `buffer_get`. -/
def Worker.Gets (w : Worker) : Prop := w = .ready ∨ w = .woken

/-- `pthread_cond_signal(&not_full)`. -/
def Manager.signal : Manager α → Manager α
  | waiting line => woken line
  | m => m

/-- `pthread_cond_broadcast(&not_empty)`. -/
def Worker.signal : Worker → Worker
  | waiting => woken
  | w => w

variable {W : Type*} [DecidableEq W]

/-- `pthread_cond_signal(&not_empty)`: one of the workers that wait is woken up, if there is one. -/
inductive Signal (workers : W → Worker) : (W → Worker) → Prop where
  | wake {w : W} (h : workers w = .waiting) :
    Signal workers (Function.update workers w .woken)
  | none (h : ∀ w, workers w ≠ .waiting) : Signal workers workers

structure State (n : ℕ) (α W : Type*) where
  buffer : Buffer n α
  manager : Manager α
  workers : W → Worker
  put : List α
  handed : List (W × α)

namespace State

/-- The buffer after `buffer_init`, with any memory. -/
def initial (lines : Fin n → α) : State n α W :=
  ⟨⟨lines, 0, 0, 0, false⟩, .ready, fun _ => .ready, [], []⟩

/-- A step of one of the threads. -/
inductive Step (s : State n α W) : State n α W → Prop where
  | putWait {line : α} (h : s.manager.Puts line) (hfull : s.buffer.Full) :
    Step s { s with manager := .waiting line }
  | putEof {line : α} (h : s.manager.Puts line) (heof : s.buffer.eof = true) :
    Step s { s with manager := .ready, put := s.put ++ [line] }
  | put {line : α} {workers : W → Worker} (h : s.manager.Puts line) (hfull : ¬ s.buffer.Full)
      (heof : s.buffer.eof = false) (hsignal : Signal s.workers workers) :
    Step s { s with
      buffer := s.buffer.put line
      manager := .ready
      workers := workers
      put := s.put ++ [line] }
  | setEof (h : s.manager = .ready) :
    Step s { s with
      buffer := { s.buffer with eof := true }
      manager := .finished
      workers := fun w => (s.workers w).signal }
  | getWait {w : W} (h : (s.workers w).Gets) (hempty : s.buffer.Empty) :
    Step s { s with workers := Function.update s.workers w .waiting }
  | getNull {w : W} (h : (s.workers w).Gets) (hsize : s.buffer.size = 0)
      (heof : s.buffer.eof = true) :
    Step s { s with workers := Function.update s.workers w .finished }
  | get {w : W} (h : (s.workers w).Gets) (hsize : s.buffer.size ≠ 0) :
    Step s { s with
      buffer := s.buffer.get.2
      manager := s.manager.signal
      workers := Function.update s.workers w .ready
      handed := s.handed ++ [(w, s.buffer.get.1)] }
  | wakeManager {line : α} (h : s.manager = .waiting line) :
    Step s { s with manager := .woken line }
  | wakeWorker {w : W} (h : s.workers w = .waiting) :
    Step s { s with workers := Function.update s.workers w .woken }

/-- The manager and all workers have finished or wait, and no one has been woken up. -/
def Stuck (s : State n α W) : Prop :=
  (s.manager = .finished ∨ ∃ line, s.manager = .waiting line)
    ∧ (∀ w, s.workers w = .finished ∨ s.workers w = .waiting)
    ∧ ¬ (s.manager = .finished ∧ ∀ w, s.workers w = .finished)

end State

/-! ### The invariant -/

variable [Fintype W]

/-- The number of workers that have been woken up. -/
def wokenUp (workers : W → Worker) : ℕ := ∑ w, if workers w = .woken then 1 else 0

theorem wokenUp_update (workers : W → Worker) (w : W) (state : Worker) :
  wokenUp (Function.update workers w state) + (if workers w = .woken then 1 else 0)
    = wokenUp workers + (if state = .woken then 1 else 0)
  := by
  have hcomp : (fun v => if Function.update workers w state v = .woken then 1 else 0)
      = Function.update (fun v => if workers v = .woken then 1 else 0) w
          (if state = .woken then 1 else 0) := by
    funext v
    rcases eq_or_ne v w with rfl | hne
    · rw [Function.update_self, Function.update_self]
    · rw [Function.update_of_ne hne, Function.update_of_ne hne]
  have hsum := Finset.sum_eq_add_sum_sdiff_singleton_of_mem (Finset.mem_univ w)
    fun v => if workers v = .woken then 1 else 0
  rw [wokenUp, wokenUp, hcomp, Finset.sum_update_of_mem (Finset.mem_univ w), hsum]
  omega

/-- Every line is handed out or in the buffer.  While a worker waits, there are no more lines than
workers that have been woken up, and while the manager waits the buffer is full. -/
structure Sound (s : State n α W) : Prop where
  size : s.buffer.size ≤ n
  tail : s.buffer.tail = Ring.shift s.buffer.head s.buffer.size
  order : s.put = s.handed.map Prod.snd ++ s.buffer.contents
  eof : s.buffer.eof = true ↔ s.manager = .finished
  finished : ∀ w, s.workers w = .finished → s.buffer.eof = true ∧ s.buffer.size = 0
  awake : s.buffer.eof = true → ∀ w, s.workers w ≠ .waiting
  woken : (∃ w, s.workers w = .waiting) → s.buffer.size ≤ wokenUp s.workers
  full : ∀ line, s.manager = .waiting line → s.buffer.size = n

omit [DecidableEq W] in
theorem sound_initial (lines : Fin n → α) :
  Sound (State.initial lines : State n α W)
  where
  size := Nat.zero_le n
  tail := (Ring.shift_zero 0).symm
  order := rfl
  eof := ⟨nofun, nofun⟩
  finished _ h := nomatch h
  awake h := nomatch h
  woken _ := Nat.zero_le _
  full _ h := nomatch h

variable {s s' : State n α W} {w : W} {line : α}

theorem Manager.Puts.ne_finished {m : Manager α} (h : m.Puts line) :
  m ≠ .finished
  := by
  rcases h with rfl | rfl
  · exact fun h => nomatch h
  · exact fun h => nomatch h

theorem Worker.Gets.ne {state : Worker} (h : state.Gets) :
  state ≠ .waiting ∧ state ≠ .finished
  := by
  rcases h with rfl | rfl
  · exact ⟨by decide, by decide⟩
  · exact ⟨by decide, by decide⟩

omit [Fintype W] in
/-- A change of one worker. -/
theorem forall_update {P : Worker → Prop} {workers : W → Worker} {state : Worker}
    (h : ∀ v, P (workers v)) (hstate : P state) (v : W) :
  P (Function.update workers w state v)
  := by
  rcases eq_or_ne v w with rfl | hne
  · rw [Function.update_self]
    exact hstate
  · rw [Function.update_of_ne hne]
    exact h v

omit [Fintype W] in
theorem eq_of_update {workers : W → Worker} {state state' : Worker} {v : W}
    (h : Function.update workers w state v = state') (hne : state ≠ state') :
  workers v = state'
  := by
  rcases eq_or_ne v w with rfl | hvw
  · rw [Function.update_self] at h
    exact absurd h hne
  · rwa [Function.update_of_ne hvw] at h

theorem Sound.put (h : Sound s) (hfull : ¬ s.buffer.Full) (heof : s.buffer.eof = false)
    {workers : W → Worker} (hsignal : Signal s.workers workers) :
  Sound { s with
    buffer := s.buffer.put line
    manager := .ready
    workers := workers
    put := s.put ++ [line] }
  := by
  have hlt : s.buffer.size < n := Nat.lt_of_le_of_ne h.size fun heq => hfull ⟨heq, heof⟩
  have hnone : ∀ v, workers v ≠ .finished := by
    have hbefore : ∀ v, s.workers v ≠ .finished := by
      intro v hv
      rw [(h.finished v hv).1] at heof
      cases heof
    cases hsignal with
    | wake hw => exact forall_update (P := fun state => state ≠ .finished) hbefore (by decide)
    | none _ => exact hbefore
  constructor
  · exact hlt
  · rw [Buffer.put, h.tail, Ring.shift_shift]
  · have hpush : (s.buffer.put line).contents = s.buffer.contents ++ [line] := by
      rw [Buffer.contents, Buffer.contents, Buffer.put, h.tail]
      exact Ring.contents_push line hlt
    dsimp only
    rw [hpush, h.order, List.append_assoc]
  · rw [Buffer.put, heof]
    exact ⟨nofun, nofun⟩
  · exact fun v hv => absurd hv (hnone v)
  · intro htrue
    rw [Buffer.put, heof] at htrue
    cases htrue
  · intro hwaiting
    cases hsignal with
    | @wake w hw =>
        have hcount := wokenUp_update s.workers w .woken
        rw [hw, if_neg (by decide), if_pos rfl] at hcount
        have hsize := h.woken ⟨w, hw⟩
        dsimp only [Buffer.put]
        omega
    | none hasleep =>
        obtain ⟨v, hv⟩ := hwaiting
        exact absurd hv (hasleep v)
  · exact fun _ hmanager => nomatch hmanager

theorem Sound.get (h : Sound s) (hsize : s.buffer.size ≠ 0) :
  Sound { s with
    buffer := s.buffer.get.2
    manager := s.manager.signal
    workers := Function.update s.workers w .ready
    handed := s.handed ++ [(w, s.buffer.get.1)] }
  := by
  have hcontents : s.buffer.contents = s.buffer.get.1 :: s.buffer.get.2.contents := by
    obtain ⟨size, hsucc⟩ := Nat.exists_eq_succ_of_ne_zero hsize
    rw [Buffer.contents, Buffer.contents, Buffer.get, hsucc]
    exact Ring.contents_pop _ _ _
  have hmanager : s.manager.signal = .finished ↔ s.manager = .finished := by
    cases s.manager <;> simp [Manager.signal]
  have hcount := wokenUp_update s.workers w .ready
  have hready : ¬ Worker.ready = .woken := by decide
  rw [if_neg hready] at hcount
  constructor
  · exact Nat.le_trans (Nat.sub_le _ _) h.size
  · rw [Buffer.get, h.tail, Ring.shift_shift]
    congr 1
    dsimp only
    omega
  · rw [h.order, hcontents, List.map_append, List.append_assoc]
    rfl
  · rw [hmanager]
    exact h.eof
  · intro v hv
    refine absurd hv (forall_update (P := fun state => state ≠ .finished) ?_ (by decide) v)
    exact fun v hv => hsize (h.finished v hv).2
  · intro heof
    exact forall_update (P := fun state => state ≠ .waiting) (h.awake heof) (by decide)
  · rintro ⟨v, hv⟩
    have hbefore := h.woken ⟨v, eq_of_update hv (by decide)⟩
    dsimp only [Buffer.get]
    split at hcount <;> omega
  · intro line hline
    cases hm : s.manager with
    | ready | waiting | woken | finished =>
        rw [hm] at hline
        cases hline

/-- The other steps leave the lines as they are. -/
theorem Sound.step (h : Sound s) (hstep : State.Step s s') :
  Sound s'
  := by
  cases hstep with
  | putWait hputs hfull =>
      refine { h with eof := ?_, full := fun _ _ => hfull.1 }
      rw [hfull.2]
      exact ⟨nofun, nofun⟩
  | putEof hputs heof => exact absurd (h.eof.mp heof) hputs.ne_finished
  | put _ hfull heof hsignal => exact h.put hfull heof hsignal
  | setEof hready =>
      have hnone : ∀ w, (s.workers w).signal ≠ .waiting := by
        intro w
        cases s.workers w <;> decide
      exact {
        size := h.size
        tail := h.tail
        order := h.order
        eof := ⟨fun _ => rfl, fun _ => rfl⟩
        finished := fun w hw => by
          have hfinished : s.workers w = .finished := by
            cases hstate : s.workers w with
            | finished => rfl
            | ready | waiting | woken =>
                dsimp only at hw
                rw [hstate] at hw
                cases hw
          have heof := h.eof.mp (h.finished w hfinished).1
          rw [hready] at heof
          cases heof
        awake := fun _ => hnone
        woken := fun ⟨w, hw⟩ => absurd hw (hnone w)
        full := fun _ hline => nomatch hline }
  | @getWait w hgets hempty =>
      refine { h with finished := ?_, awake := ?_, woken := fun _ => ?_ }
      · intro v hv
        refine absurd hv (forall_update (P := fun state => state ≠ .finished) ?_ (by decide) v)
        intro v hv
        have heof := (h.finished v hv).1
        rw [hempty.2] at heof
        cases heof
      · intro heof
        rw [hempty.2] at heof
        cases heof
      · rw [hempty.1]
        exact Nat.zero_le _
  | @getNull w hgets hsize heof =>
      refine { h with finished := fun _ _ => ⟨heof, hsize⟩, awake := ?_, woken := fun _ => ?_ }
      · exact fun _ => forall_update (P := fun state => state ≠ .waiting) (h.awake heof) (by decide)
      · rw [hsize]
        exact Nat.zero_le _
  | get _ hsize => exact h.get hsize
  | wakeManager hwaiting =>
      refine { h with eof := ?_, full := fun _ hline => nomatch hline }
      rw [h.eof, hwaiting]
      exact ⟨nofun, nofun⟩
  | @wakeWorker w hwaiting =>
      have hcount := wokenUp_update s.workers w .woken
      rw [hwaiting, if_neg (by decide), if_pos rfl] at hcount
      refine { h with finished := ?_, awake := ?_, woken := fun _ => ?_ }
      · exact fun v hv => h.finished v (eq_of_update hv (by decide))
      · exact fun heof => absurd hwaiting (h.awake heof w)
      · have hbefore := h.woken ⟨w, hwaiting⟩
        dsimp only
        omega

/-- The invariant holds in every reachable state. -/
theorem sound_of_reachable {lines : Fin n → α}
    (h : ReflTransGen State.Step (State.initial lines) s) :
  Sound s
  := Transition.invariant (fun _ _ hs hstep => hs.step hstep) h (sound_initial lines)

/-! ### Every run -/

omit [DecidableEq W] in
/-- Someone has been woken up or can go on. -/
theorem Sound.not_stuck [Nonempty W] (h : Sound s) :
  ¬ s.Stuck
  := by
  rintro ⟨hmanager, hworkers, hunfinished⟩
  rcases hmanager with hfinished | ⟨line, hwaiting⟩
  · refine hunfinished ⟨hfinished, fun w => (hworkers w).resolve_right ?_⟩
    exact h.awake (h.eof.mpr hfinished) w
  · have heof : s.buffer.eof ≠ true := by
      intro heof
      rw [h.eof, hwaiting] at heof
      cases heof
    have hall : ∀ w, s.workers w = .waiting := fun w =>
      (hworkers w).resolve_left fun hw => heof (h.finished w hw).1
    have hnone : wokenUp s.workers = 0 := by
      apply Finset.sum_eq_zero
      intro w _
      rw [hall w]
      rfl
    obtain ⟨w⟩ := ‹Nonempty W›
    have hsize := h.woken ⟨w, hall w⟩
    rw [h.full line hwaiting, hnone] at hsize
    exact NeZero.ne n (Nat.le_zero.mp hsize)

/-- What holds in every reachable state: the ring is well formed, the lines are handed out in the
order in which they were put in, a worker is handed `NULL` only when all lines have been handed
out, and the threads are never stuck. -/
theorem buffer_delivers [Nonempty W] {lines : Fin n → α}
    (h : ReflTransGen State.Step (State.initial lines) s) :
  s.buffer.size ≤ n
    ∧ s.buffer.tail.val = (s.buffer.head.val + s.buffer.size) % n
    ∧ s.handed.map Prod.snd <+: s.put
    ∧ (∀ w, s.workers w = .finished → s.buffer.eof = true ∧ s.handed.map Prod.snd = s.put)
    ∧ ¬ s.Stuck
  := by
  have hs := sound_of_reachable h
  refine ⟨hs.size, ?_, ?_, fun w hw => ?_, hs.not_stuck⟩
  · rw [hs.tail, Ring.shift_val]
  · rw [hs.order]
    exact List.prefix_append _ _
  · obtain ⟨heof, hsize⟩ := hs.finished w hw
    refine ⟨heof, ?_⟩
    rw [hs.order, Buffer.contents, hsize]
    exact (List.append_nil _).symm

/-- Three lines and two workers, with a buffer of capacity 2: the manager waits for the first line
to be handed out before it puts in the third one. -/
theorem buffer_delivers_lines :
  ∃ s : State 2 Char Bool,
    (s.manager = .finished ∧ s.workers true = .finished ∧ s.workers false = .finished)
      ∧ s.put = ['a', 'b', 'c'] ∧ s.handed = [(true, 'a'), (false, 'b'), (true, 'c')]
      ∧ s.handed.map Prod.snd <+: s.put ∧ ¬ s.Stuck
  := by
  have hput : ∀ line : Char, Manager.Puts .ready line := fun _ => .inl rfl
  have hfirst := ReflTransGen.single (State.Step.put (W := Bool)
    (s := State.initial fun _ : Fin 2 => ' ') (hput 'a') (fun h => absurd h.1 (by decide)) rfl
    (.none (by decide)))
  have hfull := (hfirst.tail (.put (hput 'b') (fun h => absurd h.1 (by decide)) rfl
    (.none (by decide)))).tail (.putWait (hput 'c') ⟨rfl, rfl⟩)
  have hget := (hfull.tail (.get (w := true) (.inl rfl) (by decide))).tail
    (.get (w := false) (.inl rfl) (by decide))
  have hthird := (hget.tail (.put (.inr rfl) (fun h => absurd h.1 (by decide)) rfl
    (.none (by decide)))).tail (.get (w := true) (.inl rfl) (by decide))
  have hnull := ((hthird.tail (.setEof rfl)).tail (.getNull (w := true) (.inl rfl) rfl rfl)).tail
    (.getNull (w := false) (.inl rfl) rfl rfl)
  obtain ⟨-, -, horder, -, hstuck⟩ := buffer_delivers hnull
  exact ⟨_, ⟨rfl, rfl, rfl⟩, rfl, rfl, horder, hstuck⟩

end LogAnalyser
