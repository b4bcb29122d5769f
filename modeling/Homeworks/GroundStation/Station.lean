import Homeworks.Queue.Places
import Homeworks.Transition.Runs

/-!
# The ground station

Satellites put their requests into a queue, and engineers take them out and handle them.  A step of
a thread is a region of the mutex `engineerMutex`, an operation on a semaphore, or a single access
to shared memory outside of these regions; `pop_from_queue`, which is not in a region, is taken
access by access or as one step.

A request structure is named after the satellite that allocates it.  Where a null pointer is
dereferenced there is no next step.
-/

open Relation

namespace GroundStation

structure SatelliteRequest (S E : ℕ) where
  id : Fin S
  priority : ℕ
  arrivalTime : ℤ
  beingServed : Bool
  /-- `-1` is `none` -/
  engineerId : Option (Fin E)

/-- Where a satellite is. -/
inductive Satellite where
  /-- allocates its request -/
  | create
  | announce
  /-- calls `add_to_queue` -/
  | submit
  | post
  /-- looks whether it is being served -/
  | poll
  /-- looks at the clock -/
  | clock
  /-- removes its request from the queue -/
  | withdraw
  | exited
  deriving DecidableEq

/-- The satellite has put its request into the queue. -/
def Satellite.Submitted (pc : Satellite) : Prop := pc ≠ create ∧ pc ≠ announce ∧ pc ≠ submit

/-- Where an engineer is in `pop_from_queue`. -/
inductive Pop (S : ℕ) where
  /-- `queue_size == 0` -/
  | test
  /-- reads `requestQueue[0]` -/
  | first
  /-- `i < queue_size` -/
  | compare (req : Option (Fin S)) (i : ℕ)
  /-- reads `requestQueue[i]` -/
  | read (req : Option (Fin S)) (i : ℕ)
  /-- writes `requestQueue[i - 1]` -/
  | write (req : Option (Fin S)) (i : ℕ) (next : Option (Fin S))
  /-- reads `queue_size` to decrement it -/
  | readSize (req : Option (Fin S))
  | writeSize (req : Option (Fin S)) (size : ℤ)
  deriving DecidableEq

/-- Where an engineer is. -/
inductive Engineer (S : ℕ) where
  /-- `sem_wait(&newRequest)` -/
  | wait
  /-- `queue_size > 0` -/
  | testQueue
  /-- `availableEngineers > 0` -/
  | testAvailable
  | pop (p : Pop S)
  /-- prints that it handles the request -/
  | handle (req : Option (Fin S))
  | serve (req : Fin S)
  | release (req : Fin S)
  /-- prints that it has finished -/
  | finish (req : Fin S)
  | free (req : Fin S)
  /-- `queue_size == 0` after a request -/
  | testLast
  /-- wakes up the other engineers -/
  | wake
  /-- `queue_size == 0` without a request -/
  | testIdle
  | exited
  deriving DecidableEq

/-- What happens to the request of a satellite. -/
inductive Event (S E : ℕ) where
  /-- an engineer prints that it handles the request -/
  | handled (e : Fin E) (s : Fin S)
  /-- the satellite prints a timeout -/
  | timedOut (s : Fin S)
  /-- the structure is accessed -/
  | used (s : Fin S)
  | freed (s : Fin S)
  deriving DecidableEq

structure State (S E : ℕ) where
  requestQueue : ℕ → Option (Fin S)
  queueSize : ℤ
  availableEngineers : ℤ
  newRequest : ℕ
  requestHandled : ℕ
  heap : Fin S → SatelliteRequest S E
  satellites : Fin S → Satellite
  engineers : Fin E → Engineer S
  log : List (Event S E)

/-- What a satellite gets from `rand()`, from `time(NULL)`, and from comparing the clock with its
timeout. -/
structure Chance where
  rand : ℕ
  time : ℤ
  expired : Bool

inductive Action (S E : ℕ) where
  | satellite (s : Fin S) (chance : Chance)
  | engineer (e : Fin E)

namespace State

variable {S E : ℕ}

/-- The state in which `main` starts the threads, with any memory. -/
def initial (heap : Fin S → SatelliteRequest S E) : State S E where
  requestQueue _ := none
  queueSize := 0
  availableEngineers := E
  newRequest := 0
  requestHandled := 0
  heap := heap
  satellites _ := .create
  engineers _ := .wait
  log := []

def satelliteAt (σ : State S E) (s : Fin S) (pc : Satellite) : State S E :=
  { σ with satellites := Function.update σ.satellites s pc }

def engineerAt (σ : State S E) (e : Fin E) (pc : Engineer S) : State S E :=
  { σ with engineers := Function.update σ.engineers e pc }

def note (σ : State S E) (events : List (Event S E)) : State S E :=
  { σ with log := σ.log ++ events }

/-! ### Satellites -/

def getSatellitePriority (S rand : ℕ) : ℕ := rand % S + 1

/-- The loop of `add_to_queue` breaks at the first request.  The arrival times are converted to
`int`. -/
def breaksAt (σ : State S E) (p req : Fin S) : Bool :=
  let p1 := (σ.heap p).priority
  let p2 := (σ.heap req).priority
  let a1 := (σ.heap p).arrivalTime.bmod (2 ^ 32)
  let a2 := (σ.heap req).arrivalTime.bmod (2 ^ 32)
  p1 < p2 || (p1 = p2 && a1 ≤ a2)

def addToQueue (σ : State S E) (req : Fin S) : Option (State S E) :=
  -- a negative size is an index outside of the array
  if σ.queueSize < 0 then none
  else
    (Places.insertFrom (σ.breaksAt · req) req σ.queueSize.toNat σ.requestQueue).map fun p =>
      { σ with requestQueue := p.1, queueSize := σ.queueSize + 1 }.note
        (.used req :: p.2.map .used)

/-- The loop over the last places of the queue for a request of the satellite that is not being
served. -/
def findRequest (σ : State S E) (id : Fin S) :
    ℕ → ℕ → Option (List (Fin S) × Option (ℕ × Fin S))
  | _, 0 => some ([], none)
  | i, n + 1 => (σ.requestQueue i).bind fun p =>
      if (σ.heap p).id = id && !(σ.heap p).beingServed then some ([p], some (i, p))
      else (findRequest σ id (i + 1) n).map fun r => (p :: r.1, r.2)

/-- The request is freed and those behind it are moved down. -/
def removeAt (σ : State S E) (i : ℕ) (p : Fin S) : State S E :=
  { σ with
    requestQueue := Places.moveDown (Function.update σ.requestQueue i none) i
      (σ.queueSize.toNat - 1 - i)
    queueSize := σ.queueSize - 1 }.note [.freed p]

def withdraw (σ : State S E) (id : Fin S) : Option (State S E) :=
  (σ.findRequest id 0 σ.queueSize.toNat).map fun r =>
    r.2.elim (σ.note (r.1.map .used)) fun found =>
      (σ.note (r.1.map .used)).removeAt found.1 found.2

def satellite (σ : State S E) (s : Fin S) (chance : Chance) : Option (State S E) :=
  match σ.satellites s with
  | .create => some { σ.satelliteAt s .announce with
      heap := Function.update σ.heap s
        { id := s
          priority := getSatellitePriority S chance.rand
          arrivalTime := chance.time
          beingServed := false
          engineerId := none } }
  | .announce => some ((σ.satelliteAt s .submit).note [.used s])
  | .submit => (σ.satelliteAt s .post).addToQueue s
  | .post => some { σ.satelliteAt s .poll with newRequest := σ.newRequest + 1 }
  | .poll => some ((σ.satelliteAt s (if (σ.heap s).beingServed then .exited else .clock)).note
      [.used s])
  | .clock =>
      if chance.expired then some ((σ.satelliteAt s .withdraw).note [.timedOut s])
      else some (σ.satelliteAt s .poll)
  | .withdraw => (σ.satelliteAt s .exited).withdraw s
  | .exited => none

/-! ### Engineers -/

/-- One access of `pop_from_queue`. -/
def popAccess (σ : State S E) (e : Fin E) : Pop S → State S E
  | .test => σ.engineerAt e (if σ.queueSize = 0 then .handle none else .pop .first)
  | .first => σ.engineerAt e (.pop (.compare (σ.requestQueue 0) 1))
  | .compare req i => σ.engineerAt e (.pop (if i < σ.queueSize then .read req i else .readSize req))
  | .read req i => σ.engineerAt e (.pop (.write req i (σ.requestQueue i)))
  | .write req i next => { σ.engineerAt e (.pop (.compare req (i + 1))) with
      requestQueue := Function.update σ.requestQueue (i - 1) next }
  | .readSize req => σ.engineerAt e (.pop (.writeSize req σ.queueSize))
  | .writeSize req size => { σ.engineerAt e (.handle req) with queueSize := size - 1 }

/-- All of `pop_from_queue`. -/
def popFromQueue (σ : State S E) (e : Fin E) : State S E :=
  if σ.queueSize = 0 then σ.engineerAt e (.handle none)
  else { σ.engineerAt e (.handle (σ.requestQueue 0)) with
    requestQueue := Places.moveDown σ.requestQueue 0 (σ.queueSize - 1).toNat
    queueSize := σ.queueSize - 1 }

/-- `pop_from_queue` is one step or not. -/
def engineer (atomicPop : Bool) (σ : State S E) (e : Fin E) : Option (State S E) :=
  match σ.engineers e with
  | .wait =>
      if σ.newRequest = 0 then none
      else some { σ.engineerAt e .testQueue with newRequest := σ.newRequest - 1 }
  | .testQueue => some (σ.engineerAt e (if 0 < σ.queueSize then .testAvailable else .testIdle))
  | .testAvailable =>
      some (σ.engineerAt e (if 0 < σ.availableEngineers then .pop .test else .testIdle))
  | .pop p => some (if atomicPop then σ.popFromQueue e else σ.popAccess e p)
  | .handle req => req.map fun r => (σ.engineerAt e (.serve r)).note [.used r, .handled e r]
  | .serve r => some ({ σ.engineerAt e (.release r) with
      availableEngineers := σ.availableEngineers - 1
      heap := Function.update σ.heap r { σ.heap r with beingServed := true, engineerId := some e }
      requestHandled := σ.requestHandled + 1 }.note [.used r])
  | .release r => some { σ.engineerAt e (.finish r) with
      availableEngineers := σ.availableEngineers + 1 }
  | .finish r => some ((σ.engineerAt e (.free r)).note [.used r])
  | .free r => some ((σ.engineerAt e .testLast).note [.freed r])
  | .testLast => some (σ.engineerAt e (if σ.queueSize = 0 then .wake else .wait))
  | .wake => some { σ.engineerAt e .exited with newRequest := σ.newRequest + (E - 1) }
  | .testIdle => some (σ.engineerAt e (if σ.queueSize = 0 then .exited else .wait))
  | .exited => none

/-! ### Runs -/

def step (atomicPop : Bool) (σ : State S E) : Action S E → Option (State S E)
  | .satellite s chance => σ.satellite s chance
  | .engineer e => σ.engineer atomicPop e

/-- A step before which a condition holds. -/
def Next (atomicPop : Bool) (Cond : State S E → Action S E → Prop) (σ σ' : State S E) : Prop :=
  ∃ a, Cond σ a ∧ σ.step atomicPop a = some σ'

/-- A state of a run all of whose steps meet a condition. -/
def Reachable (atomicPop : Bool) (Cond : State S E → Action S E → Prop) (σ : State S E) : Prop :=
  ∃ heap, ReflTransGen (Next atomicPop Cond) (initial heap) σ

theorem Reachable.invariant {atomicPop : Bool} {Cond : State S E → Action S E → Prop}
    {I : State S E → Prop} {σ : State S E} (h : Reachable atomicPop Cond σ)
    (h₀ : ∀ heap, I (initial heap))
    (step : ∀ σ a σ', I σ → Cond σ a → σ.step atomicPop a = some σ' → I σ') :
  I σ
  := by
  obtain ⟨heap, hrun⟩ := h
  apply Transition.invariant _ hrun (h₀ heap)
  rintro σ σ' hσ ⟨a, hcond, hstep⟩
  exact step σ a σ' hσ hcond hstep

/-- The state after a sequence of steps before each of which a condition holds. -/
def run (atomicPop : Bool) (Cond : State S E → Action S E → Prop) [∀ σ a, Decidable (Cond σ a)]
    (σ : State S E) (actions : List (Action S E)) : Option (State S E) :=
  actions.foldlM (fun σ a => if Cond σ a then σ.step atomicPop a else none) σ

theorem Reachable.of_run {atomicPop : Bool} {Cond : State S E → Action S E → Prop}
    [∀ σ a, Decidable (Cond σ a)] {heap : Fin S → SatelliteRequest S E}
    {actions : List (Action S E)} {σ : State S E}
    (h : run atomicPop Cond (initial heap) actions = some σ) :
  Reachable atomicPop Cond σ
  := by
  use heap
  generalize initial heap = σ₀ at h
  induction actions generalizing σ₀ with
  | nil =>
      cases h
      exact .refl
  | cons a actions ih =>
      obtain ⟨σ₁, hstep, hrest⟩ := Option.bind_eq_some_iff.mp h
      obtain ⟨hcond, hstep⟩ := Option.ite_none_right_eq_some.mp hstep
      exact .head ⟨a, hcond, hstep⟩ (ih σ₁ hrest)

/-- Any memory. -/
def blank (s : Fin S) : SatelliteRequest S E := ⟨s, 0, 0, false, none⟩

/-- A step of a satellite whose time is not over. -/
def early (s : Fin S) : Action S E := .satellite s ⟨0, 0, false⟩

end State

end GroundStation
