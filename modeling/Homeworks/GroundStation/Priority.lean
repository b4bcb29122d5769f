import Homeworks.GroundStation.Outcomes
import Homeworks.Queue.Stable
import Mathlib.Data.Fintype.Card
import Mathlib.Data.Prod.Lex

/-!
# The queue as a priority queue

Requests are added, popped and removed one after another.  The queue is a stable priority queue as
long as the conversion of the arrival times to `int` keeps their order.
-/

namespace GroundStation

open StableQueue

variable {S E : ℕ}

/-- The order of the requests. -/
def State.key (σ : State S E) (s : Fin S) : ℕ ×ₗ ℤ :=
  toLex ((σ.heap s).priority, (σ.heap s).arrivalTime)

/-- The memory of a new request. -/
def State.request (σ : State S E) (s : Fin S) (priority : ℕ) (arrivalTime : ℤ) : State S E :=
  { σ with
    heap := Function.update σ.heap s
      { id := s
        priority := priority
        arrivalTime := arrivalTime
        beingServed := false
        engineerId := none } }

inductive Operation (S E : ℕ) where
  /-- `add_to_queue` with a new request -/
  | add (s : Fin S) (priority : ℕ) (arrivalTime : ℤ)
  /-- `pop_from_queue` -/
  | pop (e : Fin E)
  /-- the loop after a timeout -/
  | timeout (s : Fin S)

/-- The request that an engineer has got from `pop_from_queue`. -/
def Engineer.received : Engineer S → Option (Fin S)
  | .handle req => req
  | _ => none

/-- A state with the requests that have been added and neither popped nor removed, in the order in
which they were added. -/
structure Queueing (S E : ℕ) where
  state : State S E
  pending : List (Fin S)

namespace Queueing

def start (heap : Fin S → SatelliteRequest S E) : Queueing S E := ⟨.initial heap, []⟩

def operate (w : Queueing S E) : Operation S E → Option (Queueing S E)
  | .add s priority arrivalTime =>
      ((w.state.request s priority arrivalTime).addToQueue s).map fun σ' => ⟨σ', w.pending ++ [s]⟩
  | .pop e =>
      let σ' := w.state.popFromQueue e
      some ⟨σ', (σ'.engineers e).received.elim w.pending w.pending.erase⟩
  | .timeout s => (w.state.withdraw s).map fun σ' => ⟨σ', w.pending.erase s⟩

/-- A request that is added is not in the queue, and it does not arrive before one that is. -/
def InOrder (w : Queueing S E) : Operation S E → Prop
  | .add s _ arrivalTime =>
      s ∉ w.pending ∧ ∀ p ∈ w.pending, (w.state.heap p).arrivalTime ≤ arrivalTime
  | .pop _ => True
  | .timeout _ => True

/-- Converted to `int`, the arrival time of a request that is added is not less than that of one of
its priority in the queue. -/
def Converts (w : Queueing S E) : Operation S E → Prop
  | .add _ priority arrivalTime => ∀ p ∈ w.pending, (w.state.heap p).priority = priority →
      (w.state.heap p).arrivalTime.bmod (2 ^ 32) ≤ arrivalTime.bmod (2 ^ 32)
  | .pop _ => True
  | .timeout _ => True

/-- A condition holds before each of the operations. -/
def Along (Cond : Queueing S E → Operation S E → Prop) : Queueing S E → List (Operation S E) → Prop
  | _, [] => True
  | w, op :: ops => Cond w op ∧ ∀ w' ∈ w.operate op, Along Cond w' ops

instance (w : Queueing S E) : DecidablePred w.InOrder
  | .add _ _ _ => inferInstanceAs (Decidable (_ ∧ _))
  | .pop _ => inferInstanceAs (Decidable True)
  | .timeout _ => inferInstanceAs (Decidable True)

instance (w : Queueing S E) : DecidablePred w.Converts
  | .add _ _ _ => inferInstanceAs (Decidable (∀ p ∈ w.pending, _))
  | .pop _ => inferInstanceAs (Decidable True)
  | .timeout _ => inferInstanceAs (Decidable True)

instance decidableAlong (Cond : Queueing S E → Operation S E → Prop)
    [∀ w, DecidablePred (Cond w)] : ∀ w ops, Decidable (Along Cond w ops)
  | _, [] => inferInstanceAs (Decidable True)
  | w, op :: ops =>
      have := fun w' => decidableAlong Cond w' ops
      inferInstanceAs (Decidable (_ ∧ ∀ w' ∈ w.operate op, Along Cond w' ops))

/-- The queue is in the first places of the array, and the next request to be popped is a least
one. -/
def Correct (w : Queueing S E) : Prop :=
  (∃ queue, Places.Holds w.state.requestQueue queue ∧ w.state.queueSize = queue.length
    ∧ queue.length ≤ S ∧ Queues w.state.key w.pending queue)
  ∧ ∀ e, w.pending = [] ∧ (w.state.popFromQueue e).engineers e = .handle none
    ∨ ∃ s ∈ w.pending, (w.state.popFromQueue e).engineers e = .handle (some s)
      ∧ ∀ p ∈ w.pending, w.state.key s ≤ w.state.key p

/-! ### The operations -/

/-- What the queue and the requests are between operations. -/
structure Sound (w : Queueing S E) (queue : List (Fin S)) : Prop where
  holds : Places.Holds w.state.requestQueue queue
  size : w.state.queueSize = queue.length
  queues : Queues w.state.key w.pending queue
  nodup : w.pending.Nodup
  waiting : ∀ p ∈ w.pending, (w.state.heap p).id = p ∧ (w.state.heap p).beingServed = false

variable {w w' : Queueing S E} {queue : List (Fin S)} {s : Fin S} {e : Fin E}

theorem Sound.start (heap : Fin S → SatelliteRequest S E) : Sound (start heap) []
  := ⟨Places.holds_nil _, rfl, .nil, .nil, by simp [Queueing.start]⟩

theorem Sound.nodup_queue (h : Sound w queue) : queue.Nodup
  := h.queues.perm.nodup_iff.mpr h.nodup

/-- A request is popped. -/
theorem Sound.popFromQueue_cons {rest : List (Fin S)} (h : Sound w (s :: rest)) (e : Fin E) :
  (w.state.popFromQueue e).engineers e = .handle (some s)
    ∧ Places.Holds (w.state.popFromQueue e).requestQueue rest
    ∧ (w.state.popFromQueue e).queueSize = rest.length
    ∧ (w.state.popFromQueue e).heap = w.state.heap
  := by
  have hsize : w.state.queueSize = rest.length + 1 := h.size
  have hfirst : w.state.requestQueue 0 = some s := (Places.holds_cons.mp h.holds).1
  have hlength : (w.state.queueSize - 1).toNat = rest.length := by omega
  rw [State.popFromQueue, if_neg (by omega)]
  refine ⟨?_, ?_, ?_, rfl⟩
  · rw [← hfirst]
    exact Function.update_self ..
  · change Places.Holds (Places.moveDown _ _ _) rest
    rw [hlength]
    exact h.holds.slides.moveDown (Nat.zero_add _)
  · change w.state.queueSize - 1 = _
    omega

theorem Sound.popFromQueue_nil (h : Sound w []) (e : Fin E) :
  w.state.popFromQueue e = w.state.engineerAt e (.handle none)
  := if_pos h.size

theorem Sound.correct (h : Sound w queue) : w.Correct
  := by
  have hfits : queue.length ≤ S := by
    have hcard := h.nodup_queue.length_le_card
    rwa [Fintype.card_fin] at hcard
  refine ⟨⟨queue, h.holds, h.size, hfits, h.queues⟩, fun e => ?_⟩
  cases queue with
  | nil =>
      left
      use List.nil_perm.mp h.queues.perm
      rw [h.popFromQueue_nil]
      exact Function.update_self ..
  | cons s rest =>
      obtain ⟨hmem, hleast⟩ := h.queues.head_le
      exact .inr ⟨s, hmem, (h.popFromQueue_cons e).1, hleast⟩

theorem Sound.pop (h : Sound w queue) (e : Fin E) :
  ∃ w' queue', w.operate (.pop e) = some w' ∧ Sound w' queue'
  := by
  refine ⟨_, queue.tail, rfl, ?_⟩
  cases queue with
  | nil =>
      have hreceived : ((w.state.popFromQueue e).engineers e).received = none := by
        have hpc : (w.state.engineerAt e (.handle none)).engineers e = .handle none :=
          Function.update_self ..
        rw [h.popFromQueue_nil, hpc]
        rfl
      rw [hreceived, h.popFromQueue_nil]
      exact ⟨h.holds, h.size, h.queues, h.nodup, h.waiting⟩
  | cons s rest =>
      obtain ⟨hreceived, hholds, hsize, hheap⟩ := h.popFromQueue_cons e
      have hqueues := h.queues.erase h.nodup s
      rw [List.erase_cons_head] at hqueues
      rw [hreceived]
      refine ⟨hholds, hsize, ?_, h.nodup.erase s, ?_⟩
      · apply hqueues.congr
        intro p _
        rw [State.key, hheap]
        rfl
      · intro p hp
        change ((w.state.popFromQueue e).heap p).id = p ∧ _
        rw [hheap]
        exact h.waiting p (List.mem_of_mem_erase hp)

/-- `add_to_queue` where the loop moves the last part of the queue. -/
theorem addToQueue_append {σ : State S E} {l r : List (Fin S)}
    (hholds : Places.Holds σ.requestQueue (l ++ r)) (hsize : σ.queueSize = (l ++ r).length)
    (hl : ∀ p ∈ l, σ.breaksAt p s = true) (hr : ∀ p ∈ r, σ.breaksAt p s = false) :
  ∃ q' events, σ.addToQueue s
      = some ({ σ with requestQueue := q', queueSize := σ.queueSize + 1 }.note events)
    ∧ Places.Holds q' (l ++ s :: r)
  := by
  obtain ⟨q', seen, hinsert, hq'⟩ := Places.insertFrom_split (σ.breaksAt · s) (a := s) hholds
    (Places.holds_nil _) hl hr
  rw [List.append_nil] at hq'
  have hlength : σ.queueSize.toNat = (l ++ r).length := by omega
  refine ⟨q', .used s :: seen.map .used, ?_, hq'⟩
  rw [State.addToQueue, if_neg (by omega), hlength, hinsert]
  rfl

/-- Among the requests in the queue, the loop breaks at those that go before the new one. -/
theorem breaksAt_iff {σ : State S E} {p s : Fin S}
    (harrival : (σ.heap p).arrivalTime ≤ (σ.heap s).arrivalTime)
    (hconverts : (σ.heap p).priority = (σ.heap s).priority →
      (σ.heap p).arrivalTime.bmod (2 ^ 32) ≤ (σ.heap s).arrivalTime.bmod (2 ^ 32)) :
  σ.breaksAt p s = true ↔ σ.key p ≤ σ.key s
  := by
  simp only [State.breaksAt, State.key, Prod.Lex.toLex_le_toLex, Bool.or_eq_true,
    Bool.and_eq_true, decide_eq_true_eq]
  apply or_congr_right
  constructor
  · rintro ⟨hpriority, -⟩
    exact ⟨hpriority, harrival⟩
  · rintro ⟨hpriority, -⟩
    exact ⟨hpriority, hconverts hpriority⟩

/-- A request is inserted behind all that go before it. -/
theorem Sound.add (h : Sound w queue) {priority : ℕ} {arrivalTime : ℤ}
    (horder : w.InOrder (.add s priority arrivalTime))
    (hconverts : w.Converts (.add s priority arrivalTime)) :
  ∃ w' queue', w.operate (.add s priority arrivalTime) = some w' ∧ Sound w' queue'
  := by
  obtain ⟨hnew, harrival⟩ := horder
  let σ := w.state.request s priority arrivalTime
  have hs : σ.heap s = ⟨s, priority, arrivalTime, false, none⟩ := Function.update_self ..
  have hother : ∀ p ∈ w.pending, σ.heap p = w.state.heap p := by
    intro p hp
    apply Function.update_of_ne
    rintro rfl
    exact hnew hp
  have hqueues : Queues σ.key w.pending queue := by
    apply h.queues.congr
    intro p hp
    rw [State.key, hother p hp]
    rfl
  obtain ⟨l, r, rfl, hl, hr⟩ := exists_append hqueues.sorted (σ.key s)
  have hbreaks : ∀ p ∈ l ++ r, σ.breaksAt p s = true ↔ σ.key p ≤ σ.key s := by
    intro p hp
    have hp := h.queues.perm.mem_iff.mp hp
    apply breaksAt_iff
    · rw [hother p hp, hs]
      exact harrival p hp
    · rw [hother p hp, hs]
      exact hconverts p hp
  obtain ⟨q', events, hadd, hq'⟩ := addToQueue_append (σ := σ) (s := s) h.holds h.size
    (fun p hp => (hbreaks p (List.mem_append_left r hp)).mpr (hl p hp))
    fun p hp => Bool.eq_false_iff.mpr fun htrue =>
      (hr p hp).not_ge ((hbreaks p (List.mem_append_right l hp)).mp htrue)
  let σ' := { σ with requestQueue := q', queueSize := σ.queueSize + 1 }.note events
  refine ⟨⟨σ', w.pending ++ [s]⟩, l ++ s :: r, ?_, hq', ?_, hqueues.insert hl hr, ?_, ?_⟩
  · change (σ.addToQueue s).map (Queueing.mk · (w.pending ++ [s])) = some (.mk σ' _)
    rw [hadd]
    rfl
  · change w.state.queueSize + 1 = _
    rw [h.size, List.length_append, List.length_append, List.length_cons]
    omega
  · exact List.nodup_append.mpr ⟨h.nodup, List.nodup_singleton s, by
      rintro p hp _ hs rfl
      exact hnew (List.mem_singleton.mp hs ▸ hp)⟩
  · intro p hp
    change (σ.heap p).id = p ∧ (σ.heap p).beingServed = false
    rcases List.mem_append.mp hp with hp | hp
    · rw [hother p hp]
      exact h.waiting p hp
    · rw [List.mem_singleton.mp hp, hs]
      exact ⟨rfl, rfl⟩

/-- Without a request of the satellite in the queue the loop comes to its end. -/
theorem findRequest_none {σ : State S E} {i n : ℕ} (hholds : Places.Holds σ.requestQueue queue)
    (hids : ∀ p ∈ queue, (σ.heap p).id = p) (hs : s ∉ queue) (hn : i + n = queue.length) :
  ∃ seen, σ.findRequest s i n = some (seen, none)
  := by
  induction n generalizing i with
  | zero => exact ⟨[], rfl⟩
  | succ n ih =>
      obtain ⟨p, hp, hqi⟩ := hholds.mem (i := i) (by omega)
      obtain ⟨seen, hseen⟩ := ih (i := i + 1) (by omega)
      have hne : p ≠ s := by
        rintro rfl
        exact hs hp
      use p :: seen
      rw [State.findRequest, hqi, Option.bind_some, hids p hp, if_neg (by simp [hne]), hseen]
      rfl

/-- A request is removed, if it is in the queue. -/
theorem Sound.timeout (h : Sound w queue) (s : Fin S) :
  ∃ w' queue', w.operate (.timeout s) = some w' ∧ Sound w' queue'
  := by
  have hwaiting : ∀ p ∈ queue, (w.state.heap p).id = p ∧ (w.state.heap p).beingServed = false :=
    fun p hp => h.waiting p (h.queues.perm.mem_iff.mp hp)
  have hlength : w.state.queueSize.toNat = queue.length := by
    rw [h.size]
    exact Int.toNat_natCast _
  by_cases hs : s ∈ queue
  · obtain ⟨k, hk⟩ := List.mem_iff_getElem?.mp hs
    obtain ⟨hlt, hget⟩ := List.getElem?_eq_some_iff.mp hk
    obtain ⟨seen, hfind, -⟩ := State.findRequest_eq h.holds h.nodup_queue hwaiting
      (Nat.zero_add _) (Nat.zero_le k) hk
    have herase : queue.erase s = queue.eraseIdx k := by
      rw [← hget]
      exact h.nodup_queue.erase_getElem k hlt
    refine ⟨⟨(w.state.note (seen.map .used)).removeAt k s, w.pending.erase s⟩, queue.erase s, ?_,
      ?_⟩
    · rw [operate, State.withdraw, hlength, hfind]
      rfl
    · refine ⟨?_, ?_, h.queues.erase h.nodup s, h.nodup.erase s, ?_⟩
      · rw [herase]
        change Places.Holds (Places.moveDown _ k (w.state.queueSize.toNat - 1 - k)) _
        rw [hlength]
        exact h.holds.erase hlt
      · change w.state.queueSize - 1 = _
        rw [h.size, List.length_erase_of_mem hs]
        have := List.length_pos_of_mem hs
        omega
      · exact fun p hp => h.waiting p (List.mem_of_mem_erase hp)
  · obtain ⟨seen, hfind⟩ := findRequest_none h.holds (fun p hp => (hwaiting p hp).1) hs
      (Nat.zero_add _)
    refine ⟨⟨w.state.note (seen.map .used), w.pending.erase s⟩, queue, ?_, ?_⟩
    · rw [operate, State.withdraw, hlength, hfind]
      rfl
    · have hpending : w.pending.erase s = w.pending :=
        List.erase_of_not_mem fun hmem => hs (h.queues.perm.mem_iff.mpr hmem)
      rw [hpending]
      exact ⟨h.holds, h.size, h.queues, h.nodup, h.waiting⟩

/-! ### Sequences of operations -/

theorem Sound.operate (h : Sound w queue) {op : Operation S E} (horder : w.InOrder op)
    (hconverts : w.Converts op) :
  ∃ w' queue', w.operate op = some w' ∧ Sound w' queue'
  := by
  cases op with
  | add s priority arrivalTime => exact h.add horder hconverts
  | pop e => exact h.pop e
  | timeout s => exact h.timeout s

theorem Sound.foldlM (h : Sound w queue) {ops : List (Operation S E)} (horder : Along InOrder w ops)
    (hconverts : Along Converts w ops) :
  ∃ w' queue', ops.foldlM Queueing.operate w = some w' ∧ Sound w' queue'
  := by
  induction ops generalizing w queue with
  | nil => exact ⟨w, queue, rfl, h⟩
  | cons op ops ih =>
      obtain ⟨w', queue', hop, h'⟩ := h.operate horder.1 hconverts.1
      rw [List.foldlM_cons, hop]
      exact ih h' (horder.2 w' hop) (hconverts.2 w' hop)

/-- After every sequence of operations, the requests that are added in the order of their arrival,
the queue is a stable priority queue, if before every operation the condition about the conversion
of the arrival times holds. -/
theorem correct_of_converts (heap : Fin S → SatelliteRequest S E) (ops : List (Operation S E))
    (horder : Along InOrder (start heap) ops) (hconverts : Along Converts (start heap) ops) :
  ∃ w, ops.foldlM Queueing.operate (start heap) = some w ∧ w.Correct
  := by
  obtain ⟨w, queue, hops, h⟩ := (Sound.start heap).foldlM horder hconverts
  exact ⟨w, hops, h.correct⟩

/-- The more urgent request overtakes, one request is popped, and one is removed. -/
theorem correct_overtaken :
  ∃ w : Queueing 3 1, [.add 0 2 100, .add 1 1 100, .add 2 2 101, .pop 0, .timeout 0].foldlM
      Queueing.operate (start State.blank) = some w ∧ w.Correct
  := correct_of_converts State.blank _ (by decide) (by decide)

/-- At 2 to the power of 31 seconds the converted arrival time is negative. -/
theorem wrapped_arrival :
  ¬ ∀ (S E : ℕ) (heap : Fin S → SatelliteRequest S E) (ops : List (Operation S E)),
    Along InOrder (start heap) ops →
      ∃ w, ops.foldlM Queueing.operate (start heap) = some w ∧ w.Correct
  := by
  intro h
  obtain ⟨w, hops, -, hpops⟩ := h 2 1 State.blank [.add 0 1 (2 ^ 31 - 1), .add 1 1 (2 ^ 31)]
    (by decide)
  have hrun : ([.add 0 1 (2 ^ 31 - 1), .add 1 1 (2 ^ 31)].foldlM Queueing.operate
      (start State.blank)).map (fun w : Queueing 2 1 => (w.pending,
        (w.state.popFromQueue 0).engineers 0, decide (w.state.key 1 ≤ w.state.key 0)))
      = some ([0, 1], .handle (some 1), false) := by decide
  rw [hops] at hrun
  obtain ⟨hpending, hrest⟩ := Prod.mk.inj (Option.some.inj hrun)
  obtain ⟨hpopped, hkeys⟩ := Prod.mk.inj hrest
  rcases hpops 0 with ⟨hnil, -⟩ | ⟨s, -, hs, hleast⟩
  · rw [hpending] at hnil
    cases hnil
  · rw [hpopped] at hs
    cases hs
    exact of_decide_eq_false hkeys (hleast 0 (by rw [hpending]; exact List.mem_cons_self))

end Queueing

end GroundStation
