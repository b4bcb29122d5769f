import Homeworks.ChatServer.Server
import Homeworks.Concurrency.Ring
import Homeworks.Table.Entries
import Homeworks.Transition.Runs

/-!
# The queue of file transfers

A ring of five requests, with a count and the indices of its first request and of its first
free entry.  Two semaphores count the free entries and the requests.  Handlers that run
`add_to_file_queue` and the thread that runs `file_queue_processor` take steps in any order;
an operation on a semaphore is a step, and so is what is done while `queue_mutex` is held.
The server is running.
-/

open Relation

namespace ChatServer

structure FileQueue where
  requests : Fin MAX_FILE_QUEUE → FileTransferRequest
  size : Int
  head : Fin MAX_FILE_QUEUE
  tail : Fin MAX_FILE_QUEUE

namespace FileQueue

/-- A request as it is stored in the queue. -/
def stored (request : FileTransferRequest) (time : Int) : FileTransferRequest :=
  { request with
    filename := request.filename.take (BUFFER_SIZE - 1)
    queueTime := time
    active := true }

/-- What `add_to_file_queue` does while it holds `queue_mutex`. -/
def insert (q : FileQueue) (request : FileTransferRequest) (time : Int) : FileQueue where
  requests := Function.update q.requests q.tail (stored request time)
  size := q.size + 1
  head := q.head
  tail := Ring.shift q.tail 1

/-- What the sender is told then. -/
def queued (q : FileQueue) : Message := .fileQueued q.size

/-- What `file_queue_processor` does while it holds `queue_mutex`. -/
def take (q : FileQueue) : FileTransferRequest × FileQueue :=
  let request := q.requests q.head
  (request,
    { requests := Function.update q.requests q.head { request with active := false }
      size := q.size - 1
      head := Ring.shift q.head 1
      tail := q.tail })

end FileQueue

/-- Where a handler is in `add_to_file_queue`. -/
inductive ProducerPc where
  /-- tries to take a free entry -/
  | trying
  /-- waits for a free entry -/
  | waiting
  /-- adds its request -/
  | inserting
  /-- signals that there is a request -/
  | posting
  | done
  deriving DecidableEq

/-- A call of `add_to_file_queue`. -/
structure Producer where
  request : FileTransferRequest
  pc : ProducerPc

/-- Where the thread of `file_queue_processor` is. -/
inductive ProcessorPc where
  /-- waits for a request -/
  | waiting
  /-- takes the first request -/
  | taking
  /-- signals that there is a free entry -/
  | freeing (request : FileTransferRequest)
  /-- processes a request -/
  | processing (request : FileTransferRequest)

/-- The queue with its semaphores and threads, the requests that have been inserted and those
that have been handed to `process_file_transfer`. -/
structure Transfers where
  queue : FileQueue
  emptySlots : Nat
  filledSlots : Nat
  producers : List Producer
  processor : ProcessorPc
  inserted : List FileTransferRequest
  handed : List FileTransferRequest

namespace Transfers

/-- The queue when the server starts, where the entries are not active. -/
def Initial (x : Transfers) : Prop :=
  (∀ i, (x.queue.requests i).active = false) ∧ x.queue.size = 0 ∧ x.queue.head = 0
    ∧ x.queue.tail = 0 ∧ x.emptySlots = MAX_FILE_QUEUE ∧ x.filledSlots = 0 ∧ x.producers = []
    ∧ x.processor = .waiting ∧ x.inserted = [] ∧ x.handed = []

/-- A step of one of the threads.  A producer that waits gives up when its time is over. -/
inductive Step (x : Transfers) : Transfers → Prop where
  | call (request : FileTransferRequest) :
    Step x { x with producers := x.producers ++ [⟨request, .trying⟩] }
  | tryWait {k : Nat} {request : FileTransferRequest}
      (hk : x.producers[k]? = some ⟨request, .trying⟩) (h : x.emptySlots > 0) :
    Step x { x with
      emptySlots := x.emptySlots - 1
      producers := x.producers.set k ⟨request, .inserting⟩ }
  | full {k : Nat} {request : FileTransferRequest}
      (hk : x.producers[k]? = some ⟨request, .trying⟩) (h : x.emptySlots = 0) :
    Step x { x with producers := x.producers.set k ⟨request, .waiting⟩ }
  | timedWait {k : Nat} {request : FileTransferRequest}
      (hk : x.producers[k]? = some ⟨request, .waiting⟩) (h : x.emptySlots > 0) :
    Step x { x with
      emptySlots := x.emptySlots - 1
      producers := x.producers.set k ⟨request, .inserting⟩ }
  | timedOut {k : Nat} {request : FileTransferRequest}
      (hk : x.producers[k]? = some ⟨request, .waiting⟩) :
    Step x { x with producers := x.producers.set k ⟨request, .done⟩ }
  | insert {k : Nat} {request : FileTransferRequest} (time : Int)
      (hk : x.producers[k]? = some ⟨request, .inserting⟩) :
    Step x { x with
      queue := x.queue.insert request time
      producers := x.producers.set k ⟨request, .posting⟩
      inserted := x.inserted ++ [FileQueue.stored request time] }
  | postFilled {k : Nat} {request : FileTransferRequest}
      (hk : x.producers[k]? = some ⟨request, .posting⟩) :
    Step x { x with
      filledSlots := x.filledSlots + 1
      producers := x.producers.set k ⟨request, .done⟩ }
  | waitFilled (hpc : x.processor = .waiting) (h : x.filledSlots > 0) :
    Step x { x with filledSlots := x.filledSlots - 1, processor := .taking }
  | take (hpc : x.processor = .taking) :
    Step x { x with queue := x.queue.take.2, processor := .freeing x.queue.take.1 }
  | postEmpty {request : FileTransferRequest} (hpc : x.processor = .freeing request) :
    Step x { x with
      emptySlots := x.emptySlots + 1
      processor := .processing request
      handed := x.handed ++ [request] }
  | processed {request : FileTransferRequest} (hpc : x.processor = .processing request) :
    Step x { x with processor := .waiting }

/-! ### The invariant -/

/-- The number of producers at a point of `add_to_file_queue`. -/
def producersAt (producers : List Producer) (pc : ProducerPc) : Nat :=
  producers.countP fun producer => producer.pc = pc

end Transfers

/-- The request that has been taken from the queue and not yet been handed over. -/
def ProcessorPc.taken : ProcessorPc → List FileTransferRequest
  | .freeing request => [request]
  | _ => []

/-- The number of requests that the processor is about to take. -/
def ProcessorPc.claims : ProcessorPc → Nat
  | .taking => 1
  | _ => 0

namespace Transfers

/-- The entries of the ring are accounted for: every one is free, about to be filled, filled
or about to be freed, and every request in the ring is announced or about to be. -/
structure Sound (x : Transfers) (size : Nat) : Prop where
  size_eq : x.queue.size = size
  tail : x.queue.tail = Ring.shift x.queue.head size
  active : ∀ i, (x.queue.requests i).active = true ↔ ∃ j, j < size ∧ Ring.shift x.queue.head j = i
  free : x.emptySlots + producersAt x.producers .inserting + size + x.processor.taken.length
    = MAX_FILE_QUEUE
  filled : x.filledSlots + producersAt x.producers .posting + x.processor.claims = size
  order : x.inserted
    = x.handed ++ x.processor.taken ++ Ring.contents x.queue.requests x.queue.head size

variable {x x' : Transfers} {size : Nat}

theorem Initial.sound (h : Initial x) :
  Sound x 0
  := by
  obtain ⟨hactive, hsize, hhead, htail, hempty, hfilled, hproducers, hprocessor, hinserted,
    hhanded⟩ := h
  constructor
  · exact hsize
  · rw [htail, hhead]
    rfl
  · intro i
    simp [hactive]
  · rw [hempty, producersAt, hproducers, hprocessor]
    rfl
  · rw [hfilled, producersAt, hproducers, hprocessor]
    rfl
  · rw [hinserted, hhanded, hprocessor]
    rfl

/-- A request is added behind the others. -/
theorem Sound.insert (h : Sound x size) (hlt : size < MAX_FILE_QUEUE)
    (request : FileTransferRequest) (time : Int) :
  (x.queue.insert request time).tail = Ring.shift x.queue.head (size + 1)
    ∧ (∀ i, ((x.queue.insert request time).requests i).active = true
      ↔ ∃ j, j < size + 1 ∧ Ring.shift x.queue.head j = i)
    ∧ Ring.contents (x.queue.insert request time).requests x.queue.head (size + 1)
      = Ring.contents x.queue.requests x.queue.head size ++ [FileQueue.stored request time]
  := by
  simp only [FileQueue.insert, h.tail]
  refine ⟨Ring.shift_shift _ _ _, ?_, Ring.contents_push _ hlt⟩
  intro i
  rcases eq_or_ne i (Ring.shift x.queue.head size) with rfl | hne
  · rw [Function.update_self]
    simp only [FileQueue.stored, true_iff]
    use size, size.lt_succ_self
  · rw [Function.update_of_ne hne, h.active]
    constructor
    · rintro ⟨j, hj, rfl⟩
      exact ⟨j, hj.trans size.lt_succ_self, rfl⟩
    · rintro ⟨j, hj, rfl⟩
      have hjs : j ≠ size := by
        rintro rfl
        exact hne rfl
      exact ⟨j, by omega, rfl⟩

/-- The first request is taken. -/
theorem Sound.take (h : Sound x (size + 1)) (hle : size + 1 ≤ MAX_FILE_QUEUE) :
  x.queue.take.2.tail = Ring.shift x.queue.take.2.head size
    ∧ (∀ i, (x.queue.take.2.requests i).active = true
      ↔ ∃ j, j < size ∧ Ring.shift x.queue.take.2.head j = i)
    ∧ Ring.contents x.queue.requests x.queue.head (size + 1)
      = x.queue.take.1 :: Ring.contents x.queue.take.2.requests x.queue.take.2.head size
  := by
  have hne : ∀ j, j < size → Ring.shift (Ring.shift x.queue.head 1) j ≠ x.queue.head := by
    intro j hj
    apply Ring.shift_one_ne (by omega)
  simp only [FileQueue.take]
  refine ⟨?_, ?_, ?_⟩
  · rw [h.tail, Ring.shift_shift, Nat.add_comm]
  · intro i
    rcases eq_or_ne i x.queue.head with rfl | hi
    · rw [Function.update_self]
      simp only [Bool.false_eq_true, false_iff, not_exists, not_and]
      apply hne
    · rw [Function.update_of_ne hi, h.active]
      constructor
      · rintro ⟨j, hj, rfl⟩
        cases j with
        | zero => exact absurd (Ring.shift_zero _) hi
        | succ j => exact ⟨j, by omega, by rw [Ring.shift_shift, Nat.add_comm]⟩
      · rintro ⟨j, hj, rfl⟩
        exact ⟨j + 1, by omega, by rw [Ring.shift_shift, Nat.add_comm]⟩
  · rw [Ring.contents_pop, Ring.contents_update _ hne]

/-- A producer goes on. -/
theorem producersAt_set {producers : List Producer} {k : Nat} {request : FileTransferRequest}
    {pc : ProducerPc} (hk : producers[k]? = some ⟨request, pc⟩) (pc' pc₀ : ProducerPc) :
  producersAt (producers.set k ⟨request, pc'⟩) pc₀ + (if pc = pc₀ then 1 else 0)
    = producersAt producers pc₀ + (if pc' = pc₀ then 1 else 0)
  := by
  have h := Table.countP_set (p := fun producer => producer.pc = pc₀) hk ⟨request, pc'⟩
  simp only [Bool.toNat, Bool.cond_decide] at h
  exact h

/-- What is neither in the ring nor on its way out of it does not matter. -/
theorem Sound.same (h : Sound x size) (hqueue : x'.queue = x.queue)
    (htaken : x'.processor.taken = x.processor.taken) (hinserted : x'.inserted = x.inserted)
    (hhanded : x'.handed = x.handed)
    (hfree : x'.emptySlots + producersAt x'.producers .inserting
    = x.emptySlots + producersAt x.producers .inserting)
    (hfilled : x'.filledSlots + producersAt x'.producers .posting + x'.processor.claims
      = x.filledSlots + producersAt x.producers .posting + x.processor.claims) :
  Sound x' size
  := by
  constructor
  · rw [hqueue, h.size_eq]
  · rw [hqueue, h.tail]
  · rw [hqueue]
    apply h.active
  · rw [hfree, htaken, h.free]
  · rw [hfilled, h.filled]
  · rw [hinserted, hhanded, htaken, hqueue, h.order]

theorem Sound.step (h : Sound x size) (hstep : Step x x') :
  ∃ size', Sound x' size'
  := by
  have hfree := h.free
  have hfilled := h.filled
  cases hstep with
  | call request =>
      use size
      refine h.same rfl rfl rfl rfl ?_ ?_
      · simp [producersAt]
      · simp [producersAt]
  | tryWait hk hempty | timedWait hk hempty =>
      have hinserting := producersAt_set hk .inserting .inserting
      have hposting := producersAt_set hk .inserting .posting
      simp only [reduceCtorEq, if_true, if_false] at hinserting hposting
      use size
      refine h.same rfl rfl rfl rfl ?_ ?_
      · dsimp only
        omega
      · dsimp only
        omega
  | full hk hempty =>
      have hinserting := producersAt_set hk .waiting .inserting
      have hposting := producersAt_set hk .waiting .posting
      simp only [reduceCtorEq, if_false] at hinserting hposting
      use size
      refine h.same rfl rfl rfl rfl ?_ ?_
      · dsimp only
        omega
      · dsimp only
        omega
  | timedOut hk =>
      have hinserting := producersAt_set hk .done .inserting
      have hposting := producersAt_set hk .done .posting
      simp only [reduceCtorEq, if_false] at hinserting hposting
      use size
      refine h.same rfl rfl rfl rfl ?_ ?_
      · dsimp only
        omega
      · dsimp only
        omega
  | postFilled hk =>
      have hinserting := producersAt_set hk .done .inserting
      have hposting := producersAt_set hk .done .posting
      simp only [reduceCtorEq, if_true, if_false] at hinserting hposting
      use size
      refine h.same rfl rfl rfl rfl ?_ ?_
      · dsimp only
        omega
      · dsimp only
        omega
  | waitFilled hpc hpos =>
      use size
      refine h.same rfl ?_ rfl rfl rfl ?_
      · rw [hpc]
        rfl
      · simp only [hpc, ProcessorPc.claims]
        omega
  | processed hpc =>
      use size
      refine h.same rfl ?_ rfl rfl rfl ?_
      · rw [hpc]
        rfl
      · rw [hpc]
        rfl
  | @insert k request time hk =>
      have hinserting := producersAt_set hk .posting .inserting
      have hposting := producersAt_set hk .posting .posting
      simp only [reduceCtorEq, if_true, if_false] at hinserting hposting
      obtain ⟨htail, hactive, hcontents⟩ := h.insert (by omega) request time
      use size + 1
      constructor
      · simp [FileQueue.insert, h.size_eq]
      · exact htail
      · exact hactive
      · dsimp only
        omega
      · dsimp only
        omega
      · change x.inserted ++ [FileQueue.stored request time]
          = x.handed ++ x.processor.taken
            ++ Ring.contents (x.queue.insert request time).requests x.queue.head (size + 1)
        rw [hcontents, h.order, List.append_assoc]
  | take hpc =>
      rw [hpc] at hfree hfilled
      simp only [ProcessorPc.claims, ProcessorPc.taken, List.length_nil] at hfree hfilled
      cases size with
      | zero => omega
      | succ size =>
          obtain ⟨htail, hactive, hcontents⟩ := h.take (by omega)
          use size
          constructor
          · simp [FileQueue.take, h.size_eq]
          · exact htail
          · exact hactive
          · simp only [ProcessorPc.taken, List.length_singleton]
            omega
          · simp only [ProcessorPc.claims]
            omega
          · have horder := h.order
            rw [hcontents, hpc] at horder
            simpa [ProcessorPc.taken] using horder
  | @postEmpty request hpc =>
      rw [hpc] at hfree hfilled
      simp only [ProcessorPc.claims, ProcessorPc.taken, List.length_singleton] at hfree hfilled
      use size
      constructor
      · exact h.size_eq
      · exact h.tail
      · exact h.active
      · simp only [ProcessorPc.taken, List.length_nil]
        omega
      · simp only [ProcessorPc.claims]
        omega
      · have horder := h.order
        rw [hpc] at horder
        simpa [ProcessorPc.taken] using horder

/-! ### The calls that add requests -/

/-- A request in the queue is the one that a call was made with, its name cut to the length of the
buffer. -/
structure Carries (argument request : FileTransferRequest) : Prop where
  sender : request.sender = argument.sender
  receiver : request.receiver = argument.receiver
  filename : request.filename = argument.filename.take (BUFFER_SIZE - 1)
  fileSize : request.fileSize = argument.fileSize

/-- The call `k` of `add_to_file_queue` has added the request. -/
def AddedBy (producers : List Producer) (k : Nat) (request : FileTransferRequest) : Prop :=
  ∃ argument pc, producers[k]? = some ⟨argument, pc⟩ ∧ (pc = .posting ∨ pc = .done)
    ∧ Carries argument request

/-- The requests are those of different calls. -/
def Supplied (x : Transfers) : Prop :=
  ∃ calls : List (Nat × FileTransferRequest), calls.map Prod.snd = x.inserted
    ∧ (calls.map Prod.fst).Nodup ∧ ∀ call ∈ calls, AddedBy x.producers call.1 call.2

variable {producers : List Producer} {k j : Nat} {argument request : FileTransferRequest}
  {pc pc' : ProducerPc}

theorem AddedBy.set (h : AddedBy producers j request) (hk : producers[k]? = some ⟨argument, pc⟩)
    (hpc : pc ≠ .done) (hpc' : pc = .posting → pc' = .done) :
  AddedBy (producers.set k ⟨argument, pc'⟩) j request
  := by
  obtain ⟨argument', pc₀, hj, hadded, hcarries⟩ := h
  rcases eq_or_ne k j with rfl | hne
  · cases hk.symm.trans hj
    refine ⟨argument, pc', ?_, .inr (hpc' (hadded.resolve_right hpc)), hcarries⟩
    apply List.getElem?_set_self
    exact (List.getElem?_eq_some_iff.mp hj).1
  · exact ⟨argument', pc₀, (List.getElem?_set_ne hne).trans hj, hadded, hcarries⟩

theorem AddedBy.append (h : AddedBy producers j request) (producer : Producer) :
  AddedBy (producers ++ [producer]) j request
  := by
  obtain ⟨argument, pc, hj, hadded, hcarries⟩ := h
  refine ⟨argument, pc, ?_, hadded, hcarries⟩
  rw [List.getElem?_append_left (List.getElem?_eq_some_iff.mp hj).1, hj]

/-- Nothing is added, and the calls that have added a request go on. -/
theorem Supplied.same (h : Supplied x) (hinserted : x'.inserted = x.inserted)
    (hproducers : ∀ j request, AddedBy x.producers j request → AddedBy x'.producers j request) :
  Supplied x'
  := by
  obtain ⟨calls, hcalls, hnodup, hadded⟩ := h
  exact ⟨calls, hcalls.trans hinserted.symm, hnodup,
    fun call hcall => hproducers _ _ (hadded call hcall)⟩

theorem Supplied.step (h : Supplied x) (hstep : Step x x') :
  Supplied x'
  := by
  cases hstep with
  | call request => exact h.same rfl fun _ _ hadded => hadded.append _
  | tryWait hk | timedWait hk | full hk | timedOut hk =>
      exact h.same rfl fun _ _ hadded => hadded.set hk (by decide) (by decide)
  | postFilled hk => exact h.same rfl fun _ _ hadded => hadded.set hk (by decide) fun _ => rfl
  | waitFilled | take | postEmpty | processed => exact h.same rfl fun _ _ hadded => hadded
  | @insert k request time hk =>
      obtain ⟨calls, hcalls, hnodup, hadded⟩ := h
      have hnew : k ∉ calls.map Prod.fst := by
        intro hmem
        obtain ⟨call, hcall, rfl⟩ := List.mem_map.mp hmem
        obtain ⟨_, pc, hj, hpc, -⟩ := hadded call hcall
        cases hk.symm.trans hj
        rcases hpc with hpc | hpc
        · cases hpc
        · cases hpc
      refine ⟨calls ++ [(k, FileQueue.stored request time)], ?_, ?_, ?_⟩
      · rw [List.map_append, hcalls]
        rfl
      · rw [List.map_append]
        exact List.nodup_append_comm.mp (List.nodup_cons.mpr ⟨hnew, hnodup⟩)
      · intro call hcall
        rcases List.mem_append.mp hcall with hcall | hcall
        · exact (hadded call hcall).set hk (by decide) (by decide)
        · obtain rfl := List.mem_singleton.mp hcall
          refine ⟨request, .posting, ?_, .inl rfl, rfl, rfl, rfl, rfl⟩
          apply List.getElem?_set_self
          exact (List.getElem?_eq_some_iff.mp hk).1

/-- In every order of steps the ring is well formed, a request is added to an entry that is
free, requests are handed over in the order in which they were added, and those that were added
are the arguments of different calls. -/
theorem queue_in_order (x₀ x : Transfers) (h₀ : Initial x₀) (h : ReflTransGen Step x₀ x) :
  (0 ≤ x.queue.size ∧ x.queue.size ≤ MAX_FILE_QUEUE)
    ∧ (x.queue.tail : Int) = (x.queue.head + x.queue.size) % MAX_FILE_QUEUE
    ∧ (∀ i, (x.queue.requests i).active = true
      ↔ ∃ j : Nat, j < x.queue.size ∧ i.val = (x.queue.head + j) % MAX_FILE_QUEUE)
    ∧ (∀ producer ∈ x.producers, producer.pc = .inserting →
      (x.queue.requests x.queue.tail).active = false)
    ∧ x.handed <+: x.inserted
    ∧ ∃ calls : List (Nat × FileTransferRequest), calls.map Prod.snd = x.inserted
      ∧ (calls.map Prod.fst).Nodup ∧ ∀ call ∈ calls, AddedBy x.producers call.1 call.2
  := by
  obtain ⟨size, hs⟩ : ∃ size, Sound x size := by
    apply Transition.invariant (I := fun x => ∃ size, Sound x size) _ h ⟨0, h₀.sound⟩
    rintro x x' ⟨size, hs⟩ hstep
    apply hs.step hstep
  have hsupplied : Supplied x := by
    obtain ⟨-, -, -, -, -, -, -, -, hinserted, -⟩ := h₀
    apply Transition.invariant (I := Supplied) (fun x x' hx hstep => hx.step hstep) h
    exact ⟨[], hinserted.symm, List.nodup_nil, fun call hcall => absurd hcall List.not_mem_nil⟩
  have hfree := hs.free
  refine ⟨⟨?_, ?_⟩, ?_, ?_, ?_, ?_, hsupplied⟩
  · rw [hs.size_eq]
    exact Int.natCast_nonneg size
  · rw [hs.size_eq]
    omega
  · rw [hs.size_eq, hs.tail, Ring.shift_val, Int.natCast_emod, Int.natCast_add]
  · intro i
    rw [hs.active, hs.size_eq]
    simp only [Fin.ext_iff, Ring.shift_val, Int.ofNat_lt, eq_comm]
  · intro producer hmem hpc
    have hpos : 0 < producersAt x.producers .inserting := by
      apply List.countP_pos_iff.mpr
      use producer, hmem
      simp [hpc]
    have hlt : size < MAX_FILE_QUEUE := by omega
    rw [← Bool.not_eq_true, hs.active, hs.tail]
    rintro ⟨j, hj, hshift⟩
    exact hj.ne (Ring.shift_inj (hj.trans hlt) hlt hshift)
  · rw [hs.order, List.append_assoc]
    apply List.prefix_append

/-- The queue when the server starts. -/
def started : Transfers where
  queue := ⟨fun _ => ⟨0, 0, [], 0, 0, false⟩, 0, 0, 0⟩
  emptySlots := MAX_FILE_QUEUE
  filledSlots := 0
  producers := []
  processor := .waiting
  inserted := []
  handed := []

/-- A request from one client to another. -/
def letter : FileTransferRequest := ⟨0, 1, "letter.txt".toList, 100, 0, false⟩

/-- A request is added and handed over. -/
theorem queue_in_order_transferred :
  ∃ x, ReflTransGen Step started x ∧ x.handed = [FileQueue.stored letter 7]
    ∧ x.handed <+: x.inserted
  := by
  have hcall := ReflTransGen.single (Step.call (x := started) letter)
  have hwait := hcall.tail (.tryWait (k := 0) rfl (by decide))
  have hinsert := hwait.tail (.insert (k := 0) 7 rfl)
  have hpost := hinsert.tail (.postFilled (k := 0) rfl)
  have htake := (hpost.tail (.waitFilled rfl (by decide))).tail (.take rfl)
  have hrun := htake.tail (.postEmpty rfl)
  have hinitial : Initial started := by
    refine ⟨?_, rfl, rfl, rfl, rfl, rfl, rfl, rfl, rfl, rfl⟩
    intro i
    rfl
  exact ⟨_, hrun, rfl, (queue_in_order started _ hinitial hrun).2.2.2.2.1⟩

end Transfers

end ChatServer
