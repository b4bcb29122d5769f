import Homeworks.Concurrency.Locks
import Homeworks.Transition.Runs

/-!
# The mutexes of the chat server

What the functions of the server lock and unlock, in order, their calls included.  A branch
that they take is a parameter.  Almost all mutexes are locked in one order; only
`cleanup_client` locks `rooms_mutex` while it holds `clients_mutex`, and
`broadcast_to_room` the other way round.
-/

open Relation Locks

namespace ChatServer

inductive Mutex where
  | clients
  | rooms
  | log
  | queue
  deriving DecidableEq

namespace Locking

abbrev Program := List (Op Mutex)

/-! ### The functions -/

def logEvent : Program := [.lock .log, .unlock .log]

def findClientByUsername : Program := [.lock .clients, .unlock .clients]

def findClientBySocket : Program := [.lock .clients, .unlock .clients]

/-- `broadcast_to_room`, for a room that is found or not. -/
def broadcastToRoom (found : Bool) : Program :=
  .lock .rooms :: (if found then findClientBySocket else []) ++ [.unlock .rooms]

/-- `leave_room`, with users that are notified or without. -/
def leaveRoom (notified : Bool) : Program :=
  [.lock .rooms, .unlock .rooms] ++ logEvent ++ if notified then logEvent else []

/-- `join_room`: the client leaves the room that it was in, and it joins unless there is no
space for a new room. -/
def joinRoom (wasInRoom left joined notified : Bool) : Program :=
  [.lock .clients, .unlock .clients] ++ (if wasInRoom then leaveRoom left else [])
    ++ [.lock .rooms, .unlock .rooms]
    ++ if joined then logEvent ++ (if notified then logEvent else []) else []

/-- `cleanup_client`, for an active client in a room or in none. -/
def cleanupClient (inRoom notified lost : Bool) : Program :=
  .lock .clients :: ((if inRoom then leaveRoom notified else [])
    ++ if lost then logEvent else []) ++ [.unlock .clients]

/-- `add_to_file_queue`, where the queue is full at first or not, and still full at the end of
the time or not. -/
def addToFileQueue (full stillFull : Bool) : Program :=
  (if full then logEvent else [])
    ++ if full && stillFull then logEvent else .lock .queue :: logEvent ++ [.unlock .queue]

/-- `handle_file_transfer`: a request is rejected before the target is looked for, or when it
is not found, or it is added to the queue. -/
def handleFileTransfer (rejected found full stillFull : Bool) : Program :=
  if rejected then
    logEvent
  else
    findClientByUsername ++ logEvent ++ if found then addToFileQueue full stillFull else []

def processFileTransfer (conflict : Bool) : Program :=
  logEvent ++ logEvent ++ if conflict then logEvent else []

/-- What a thread does without a break. -/
inductive Activity where
  /-- `main` or a handler writes to the log -/
  | log
  /-- `main` accepts a connection, for which there is an entry or not -/
  | accept (full : Bool)
  /-- `client_handler` receives a username -/
  | username (valid : Bool)
  | join (allowed full wasInRoom left joined notified : Bool)
  | leave (inRoom notified : Bool)
  | broadcast (inRoom found : Bool)
  | whisper (toSelf : Bool)
  | sendfile (rejected found full stillFull : Bool)
  | exit
  | cleanup (active inRoom notified lost : Bool)
  /-- a round of `file_queue_processor` -/
  | process (conflict : Bool)
  | shutdown

def Activity.program : Activity → Program
  | .log => logEvent
  | .accept full => [.lock .clients, .unlock .clients] ++ if full then logEvent else []
  | .username valid => (if valid then [.lock .clients, .unlock .clients] else []) ++ logEvent
  | .join allowed full wasInRoom left joined notified =>
      if !allowed then
        logEvent
      else
        [.lock .rooms, .unlock .rooms]
          ++ if full then logEvent else joinRoom wasInRoom left joined notified
  | .leave inRoom notified => if inRoom then leaveRoom notified else logEvent
  | .broadcast inRoom found => (if inRoom then broadcastToRoom found else []) ++ logEvent
  | .whisper toSelf => (if toSelf then [] else findClientByUsername) ++ logEvent
  | .sendfile rejected found full stillFull => handleFileTransfer rejected found full stillFull
  | .exit => logEvent
  | .cleanup active inRoom notified lost =>
      if active then cleanupClient inRoom notified lost else []
  | .process conflict => [.lock .queue, .unlock .queue] ++ processFileTransfer conflict
  | .shutdown => logEvent ++ [.lock .clients, .unlock .clients]

def programs : Set Program := Set.range Activity.program

/-! ### What is locked while another mutex is held -/

/-- The second mutex is locked by a function while the first is held. -/
inductive Nests : Mutex → Mutex → Prop where
  | cleanup : Nests .clients .rooms
  | cleanupLog : Nests .clients .log
  | broadcast : Nests .rooms .clients
  | queueLog : Nests .queue .log

variable {held : List Mutex}

/-- A mutex is locked while nothing is held, and unlocked at once. -/
theorem nested_single (m : Mutex) :
  Nested Nests [] [.lock m, .unlock m] []
  := Nested.region List.not_mem_nil (fun _ h => absurd h List.not_mem_nil) (.nil _)

theorem nested_logEvent (hlog : .log ∉ held) (h : ∀ m ∈ held, Nests m .log) :
  Nested Nests held logEvent held
  := Nested.region hlog h (.nil _)

theorem nested_broadcastToRoom (found : Bool) :
  Nested Nests [] (broadcastToRoom found) []
  := by
  apply Nested.region List.not_mem_nil
  · rintro m ⟨⟩
  · apply Nested.ite
    refine Nested.region (by decide) ?_ (.nil _)
    rintro m hm
    rw [List.mem_singleton.mp hm]
    apply Nests.broadcast

theorem nested_leaveRoom (notified : Bool) (hrooms : .rooms ∉ held) (hlog : .log ∉ held)
    (h : ∀ m ∈ held, Nests m .rooms ∧ Nests m .log) :
  Nested Nests held (leaveRoom notified) held
  := by
  have hl := nested_logEvent hlog fun m hm => (h m hm).2
  apply Nested.append _ (.ite notified hl)
  apply Nested.append _ hl
  exact Nested.region hrooms (fun m hm => (h m hm).1) (.nil _)

theorem nested_joinRoom (wasInRoom left joined notified : Bool) :
  Nested Nests [] (joinRoom wasInRoom left joined notified) []
  := by
  have hl : Nested Nests [] logEvent [] := nested_single .log
  apply Nested.append _ (.ite joined (hl.append (.ite notified hl)))
  apply Nested.append _ (nested_single .rooms)
  apply (nested_single .clients).append
  apply Nested.ite
  apply nested_leaveRoom left List.not_mem_nil List.not_mem_nil
  rintro m ⟨⟩

theorem nested_cleanupClient (inRoom notified lost : Bool) :
  Nested Nests [] (cleanupClient inRoom notified lost) []
  := by
  apply Nested.region List.not_mem_nil
  · rintro m ⟨⟩
  · apply Nested.append
    · apply Nested.ite
      apply nested_leaveRoom notified (by decide) (by decide)
      intro m hm
      rw [List.mem_singleton.mp hm]
      exact ⟨.cleanup, .cleanupLog⟩
    · apply Nested.ite
      apply nested_logEvent (by decide)
      intro m hm
      rw [List.mem_singleton.mp hm]
      apply Nests.cleanupLog

theorem nested_addToFileQueue (full stillFull : Bool) :
  Nested Nests [] (addToFileQueue full stillFull) []
  := by
  have hl : Nested Nests [] logEvent [] := nested_single .log
  apply Nested.append (.ite full hl)
  cases full && stillFull with
  | true => apply hl
  | false =>
      apply Nested.region List.not_mem_nil
      · rintro m ⟨⟩
      · apply nested_logEvent (by decide)
        intro m hm
        rw [List.mem_singleton.mp hm]
        apply Nests.queueLog

/-- Whatever a thread does, mutexes are locked only as they nest, and all are unlocked in the
end. -/
theorem nested_program (activity : Activity) :
  Nested Nests [] activity.program []
  := by
  have hl : Nested Nests [] logEvent [] := nested_single .log
  have hleave : ∀ notified, Nested Nests [] (leaveRoom notified) [] := by
    intro notified
    apply nested_leaveRoom notified List.not_mem_nil List.not_mem_nil
    rintro m ⟨⟩
  cases activity with
  | log => apply hl
  | accept full => apply (nested_single .clients).append (.ite full hl)
  | username valid => apply Nested.append (.ite valid (nested_single .clients)) hl
  | join allowed full wasInRoom left joined notified =>
      cases allowed with
      | false => apply hl
      | true =>
          apply (nested_single .rooms).append
          cases full with
          | true => apply hl
          | false => apply nested_joinRoom
  | leave inRoom notified =>
      cases inRoom with
      | true => apply hleave
      | false => apply hl
  | broadcast inRoom found => apply Nested.append (.ite inRoom (nested_broadcastToRoom found)) hl
  | whisper toSelf =>
      cases toSelf with
      | true => apply hl
      | false => apply (nested_single .clients).append hl
  | sendfile rejected found full stillFull =>
      cases rejected with
      | true => apply hl
      | false =>
          apply ((nested_single .clients).append hl).append
          apply Nested.ite
          apply nested_addToFileQueue
  | exit => apply hl
  | cleanup active inRoom notified lost =>
      apply Nested.ite
      apply nested_cleanupClient
  | process conflict =>
      apply (nested_single .queue).append
      apply (hl.append hl).append (.ite conflict hl)
  | shutdown => apply hl.append (nested_single .clients)

/-! ### Deadlocks -/

variable {ι : Type*} {s s' : ι → Thread Mutex}

/-- A thread locks `rooms_mutex` to broadcast to a room that it finds only while no thread is
cleaning up a client in a room and has not yet locked `rooms_mutex`, and such a thread locks
`clients_mutex` only while no thread is about to look for the sender of a broadcast. -/
def KeptApart (s s' : ι → Thread Mutex) : Prop :=
  Apart .rooms .clients s s' ∧ Apart .clients .rooms s s'

/-- The threads lock mutexes as they nest, and no two need the same two mutexes. -/
structure Orderly (s : ι → Thread Mutex) : Prop where
  nested : ∀ i, Nested Nests (s i).held (s i).rest []
  apart : ∀ i j, (s i).Needs .rooms .clients → ¬ (s j).Needs .clients .rooms

theorem orderly_idle :
  Orderly (idle : ι → Thread Mutex)
  where
  nested := fun _ => .nil []
  apart := by rintro i j ⟨⟨⟩, -⟩

theorem Orderly.step [DecidableEq ι] (h : Orderly s) (hstep : Step programs s s')
    (hapart : KeptApart s s') :
  Orderly s'
  := by
  constructor
  · apply Step.nested _ h.nested hstep
    rintro p ⟨activity, rfl⟩
    apply nested_program
  · apply Step.apart (by decide) h.nested hstep hapart.1 hapart.2 h.apart

/-- The order of locking while no thread broadcasts. -/
def cleanupOrder : Mutex → Nat
  | .clients | .queue => 0
  | .rooms => 1
  | .log => 2

/-- The order of locking while no thread cleans up. -/
def broadcastOrder : Mutex → Nat
  | .rooms | .queue => 0
  | .clients => 1
  | .log => 2

theorem Orderly.not_deadlock (h : Orderly s) :
  ¬ Deadlock s
  := by
  by_cases hbroadcast : ∃ i, (s i).Needs .rooms .clients
  · obtain ⟨i, hi⟩ := hbroadcast
    apply not_deadlock_of_rank broadcastOrder
    intro m m' hf
    cases hf.nested h.nested with
    | cleanup =>
        obtain ⟨j, hj⟩ := hf.needs
        exact absurd hj (h.apart i j hi)
    | _ => decide
  · apply not_deadlock_of_rank cleanupOrder
    intro m m' hf
    cases hf.nested h.nested with
    | broadcast => exact absurd hf.needs hbroadcast
    | _ => decide

/-- In every run in which the broadcasts and the cleanups that lock both `clients_mutex` and
`rooms_mutex` are kept apart, no threads wait for one another in a cycle. -/
theorem no_deadlock [DecidableEq ι] (s : ι → Thread Mutex)
    (h : ReflTransGen (fun s s' => Step programs s s' ∧ KeptApart s s') idle s) :
  ¬ Deadlock s
  := by
  have horderly : Orderly s := by
    apply Transition.invariant (I := Orderly) _ h orderly_idle
    intro s s' hs hstep
    apply hs.step hstep.1 hstep.2
  apply horderly.not_deadlock

/-! ### Two clients -/

/-- Two threads. -/
def pair (t t' : Thread Mutex) : Bool → Thread Mutex
  | true => t
  | false => t'

theorem pair_first (t t' u : Thread Mutex) :
  Function.update (pair t t') true u = pair u t'
  := by
  funext b
  cases b with
  | true => rfl
  | false => rfl

theorem pair_second (t t' u : Thread Mutex) :
  Function.update (pair t t') false u = pair t u
  := by
  funext b
  cases b with
  | true => rfl
  | false => rfl

theorem idle_eq_pair : (idle : Bool → Thread Mutex) = pair ⟨[], []⟩ ⟨[], []⟩
  := by
  funext b
  cases b with
  | true => rfl
  | false => rfl

/-- A client broadcasts to its room, and the broadcast holds `rooms_mutex`. -/
def broadcasting : Thread Mutex := ⟨[.rooms], (Activity.broadcast true true).program.tail⟩

/-- A client in no room is about to join one. -/
def joining : Thread Mutex := ⟨[], (Activity.join true false false false true true).program⟩

/-- A thread that broadcasts holds `rooms_mutex`, and another one, which joins a room, waits for
it. -/
theorem no_deadlock_broadcasting :
  WaitsFor (pair joining broadcasting) true false ∧ ¬ Deadlock (pair joining broadcasting)
  := by
  have hapart : ∀ {s s' : Bool → Thread Mutex}, (∀ i, (s i).held = []) → KeptApart s s' := by
    intro s s' hs
    have hneeds : ∀ {m m' : Mutex} j, ¬ (s j).Needs m m' := by
      intro m m' j hj
      have hheld := hj.1
      rw [hs j] at hheld
      cases hheld
    exact ⟨fun _ _ _ _ _ => hneeds, fun _ _ _ _ _ => hneeds⟩
  have h₁ : Step programs (pair ⟨[], []⟩ ⟨[], []⟩) _ :=
    .start (i := true) rfl ⟨.join true false false false true true, rfl⟩
  rw [pair_first] at h₁
  have h₂ : Step programs (pair joining ⟨[], []⟩) _ :=
    .start (i := false) rfl ⟨.broadcast true true, rfl⟩
  rw [pair_second] at h₂
  have h₃ : Step programs (pair joining ⟨[], (Activity.broadcast true true).program⟩) _ :=
    .lock (i := false) rfl (by rintro (_ | _) ⟨⟩)
  rw [pair_second] at h₃
  have hrun : ReflTransGen (fun s s' => Step programs s s' ∧ KeptApart s s') idle
      (pair joining broadcasting) := by
    rw [idle_eq_pair]
    refine ((ReflTransGen.single ⟨h₁, hapart ?_⟩).tail ⟨h₂, hapart ?_⟩).tail ⟨h₃, hapart ?_⟩
    · rintro (_ | _) <;> rfl
    · rintro (_ | _) <;> rfl
    · rintro (_ | _) <;> rfl
  exact ⟨⟨.rooms, ⟨_, rfl⟩, List.mem_singleton_self _⟩, no_deadlock _ hrun⟩

/-- A client in a room has lost its connection, and the cleanup holds `clients_mutex`. -/
def cleaning : Thread Mutex := ⟨[.clients], (Activity.cleanup true true true true).program.tail⟩

theorem run_colliding :
  ReflTransGen (Step programs) idle (pair cleaning broadcasting)
  := by
  have h₁ : Step programs (pair ⟨[], []⟩ ⟨[], []⟩) _ :=
    .start (i := true) rfl ⟨.cleanup true true true true, rfl⟩
  rw [pair_first] at h₁
  have h₂ : Step programs (pair ⟨[], (Activity.cleanup true true true true).program⟩ ⟨[], []⟩) _ :=
    .start (i := false) rfl ⟨.broadcast true true, rfl⟩
  rw [pair_second] at h₂
  have h₃ : Step programs (pair ⟨[], (Activity.cleanup true true true true).program⟩
      ⟨[], (Activity.broadcast true true).program⟩) _ :=
    .lock (i := true) rfl (by rintro (_ | _) ⟨⟩)
  rw [pair_first] at h₃
  have h₄ : Step programs (pair cleaning ⟨[], (Activity.broadcast true true).program⟩) _ :=
    .lock (i := false) rfl (by decide)
  rw [pair_second] at h₄
  rw [idle_eq_pair]
  exact (((ReflTransGen.single h₁).tail h₂).tail h₃).tail h₄

/-- A cleanup and a broadcast wait for one another. -/
theorem broadcast_and_cleanup_deadlock :
  ¬ ∀ (ι : Type) [DecidableEq ι] (s : ι → Thread Mutex),
    ReflTransGen (Step programs) idle s → ¬ Deadlock s
  := by
  intro hall
  apply hall Bool _ run_colliding
  have hcleaning : WaitsFor (pair cleaning broadcasting) true false :=
    ⟨.rooms, ⟨_, rfl⟩, List.mem_singleton_self _⟩
  have hbroadcasting : WaitsFor (pair cleaning broadcasting) false true :=
    ⟨.clients, ⟨_, rfl⟩, List.mem_singleton_self _⟩
  exact ⟨true, .tail (.single hcleaning) hbroadcasting⟩

end Locking

end ChatServer
