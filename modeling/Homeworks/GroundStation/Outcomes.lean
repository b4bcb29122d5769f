import Homeworks.GroundStation.Station

/-!
# Outcomes of requests

An engineer pops a request outside of the mutex, and whether its satellite is still waiting for it
is not looked at.  As long as no one else changes the queue in the meantime, no time runs out
between popping and serving a request, and a request is freed only after its satellite has seen
that it is served, every request has one outcome.
-/

namespace GroundStation

variable {S E : ℕ}

/-- The second event must not happen after the first. -/
def Event.Excludes : Event S E → Event S E → Prop
  | .handled _ s, .handled _ t => s = t
  | .handled _ s, .timedOut t => s = t
  | .timedOut s, .handled _ t => s = t
  | .freed s, .used t => s = t
  | .freed s, .freed t => s = t
  | _, _ => False

/-- No request is handled twice, or both handled and timed out, and none is used or freed after it
has been freed. -/
def OneOutcome (log : List (Event S E)) : Prop := log.Pairwise fun x y => ¬ x.Excludes y

def Pop.request : Pop S → Option (Fin S)
  | .test | .first => none
  | .compare req _ | .read req _ | .write req _ _ | .readSize req | .writeSize req _ => req

/-- The request that an engineer has popped, and whether it has printed that it handles it. -/
def Engineer.hand : Engineer S → Option (Bool × Fin S)
  | .pop p => p.request.map (false, ·)
  | .handle req => req.map (false, ·)
  | .serve r | .release r | .finish r | .free r => some (true, r)
  | _ => none

/-- The engineer has found the queue not to be empty in `pop_from_queue`, and is still in it. -/
def Engineer.pops : Engineer S → Option (Pop S)
  | .pop .test => none
  | .pop p => some p
  | _ => none

namespace State

/-- An engineer goes on in `pop_from_queue` after the first test, and a satellite changes the queue,
only while no engineer is in the middle of it. -/
def Alone (σ : State S E) : Action S E → Prop
  | .satellite s _ => σ.satellites s = .submit ∨ σ.satellites s = .withdraw →
      ∀ e, (σ.engineers e).pops = none
  | .engineer e => σ.engineers e = .pop .test → ∀ e', (σ.engineers e').pops = none

/-- The time of a satellite is over only while no engineer has popped its request, and no engineer
pops it then. -/
def InTime (σ : State S E) : Action S E → Prop
  | .satellite s chance => σ.satellites s = .clock → chance.expired = true →
      ∀ e b, (σ.engineers e).hand ≠ some (b, s)
  | .engineer e => σ.engineers e = .pop .first →
      ∀ s, σ.requestQueue 0 = some s → σ.satellites s ≠ .withdraw

/-- A request is freed by an engineer only after its satellite has exited. -/
def Kept (σ : State S E) : Action S E → Prop
  | .satellite _ _ => True
  | .engineer e => ∀ s, σ.engineers e = .free s → σ.satellites s = .exited

def Careful (σ : State S E) (a : Action S E) : Prop := σ.Alone a ∧ σ.InTime a ∧ σ.Kept a

instance (σ : State S E) : DecidablePred σ.Alone
  | .satellite s _ => inferInstanceAs
    (Decidable (σ.satellites s = .submit ∨ σ.satellites s = .withdraw →
      ∀ e, (σ.engineers e).pops = none))
  | .engineer e => inferInstanceAs (Decidable (σ.engineers e = .pop .test →
      ∀ e', (σ.engineers e').pops = none))

instance (σ : State S E) : DecidablePred σ.InTime
  | .satellite s chance => inferInstanceAs
    (Decidable (σ.satellites s = .clock → chance.expired = true →
      ∀ e b, (σ.engineers e).hand ≠ some (b, s)))
  | .engineer e => inferInstanceAs (Decidable (σ.engineers e = .pop .first →
      ∀ s, σ.requestQueue 0 = some s → σ.satellites s ≠ .withdraw))

instance (σ : State S E) : DecidablePred σ.Kept
  | .satellite _ _ => inferInstanceAs (Decidable True)
  | .engineer e => inferInstanceAs
    (Decidable (∀ s, σ.engineers e = .free s → σ.satellites s = .exited))

instance (σ : State S E) : DecidablePred σ.Careful := fun _ => inferInstanceAs (Decidable (_ ∧ _))

end State

/-! ### Phases of a request -/

inductive Phase (E : ℕ) where
  /-- not submitted -/
  | fresh
  | queued
  /-- in the queue, and its time is over -/
  | expired
  /-- popped by an engineer, which has printed that it handles it or not -/
  | held (printed : Bool) (e : Fin E)
  | freed
  deriving DecidableEq

/-- The event can have happened to the request. -/
def Event.Possible (phase : Fin S → Phase E) : Event S E → Prop
  | .handled _ s => (∃ e, phase s = .held true e) ∨ phase s = .freed
  | .timedOut s => phase s = .expired ∨ phase s = .freed
  | .used _ => True
  | .freed s => phase s = .freed

/-- The event may happen next to the request. -/
def Event.Ready (phase : Fin S → Phase E) : Event S E → Prop
  | .handled _ s => ∃ e, phase s = .held false e
  | .timedOut s => phase s = .queued
  | .used s | .freed s => phase s ≠ .freed

/-- Nothing has happened to the request that must not be followed by something else. -/
def Phase.Silent : Phase E → Prop
  | .fresh | .queued | .held false _ => True
  | _ => False

variable {phase : Fin S → Phase E} {event event' : Event S E} {s : Fin S} {x : Phase E}

theorem Event.Possible.update (h : event.Possible phase) (hs : (phase s).Silent ∨ x = .freed) :
  event.Possible (Function.update phase s x)
  := by
  have hupdate : ∀ t, Function.update phase s x t = .freed ∨ Function.update phase s x t = phase t
      ∨ (phase t).Silent := by
    intro t
    rcases eq_or_ne t s with rfl | hne
    · rw [Function.update_self]
      exact hs.elim (fun h => .inr (.inr h)) .inl
    · exact .inr (.inl (Function.update_of_ne hne ..))
  cases event with
  | used t => trivial
  | handled e t =>
      rcases hupdate t with hfreed | heq | hsilent
      · exact .inr hfreed
      · simpa [Event.Possible, heq] using h
      · rcases h with ⟨e, h⟩ | h <;> simp [h, Phase.Silent] at hsilent
  | timedOut t =>
      rcases hupdate t with hfreed | heq | hsilent
      · exact .inr hfreed
      · simpa [Event.Possible, heq] using h
      · rcases h with h | h <;> simp [h, Phase.Silent] at hsilent
  | freed t =>
      rcases hupdate t with hfreed | heq | hsilent
      · exact hfreed
      · exact heq.trans h
      · simp [show phase t = .freed from h, Phase.Silent] at hsilent

theorem Event.Ready.not_excludes (hready : event'.Ready phase) (h : event.Possible phase) :
  ¬ event.Excludes event'
  := by
  intro hexcl
  cases event' with
  | handled e' t =>
      obtain ⟨e₀, hready⟩ := hready
      cases event with
      | handled e s =>
          obtain rfl : s = t := hexcl
          rcases h with ⟨e, h⟩ | h <;> cases hready.symm.trans h
      | timedOut s =>
          obtain rfl : s = t := hexcl
          rcases h with h | h <;> cases hready.symm.trans h
      | used s | freed s => exact hexcl
  | timedOut t =>
      cases event with
      | handled e s =>
          obtain rfl : s = t := hexcl
          rcases h with ⟨e, h⟩ | h <;> cases (show phase s = _ from hready).symm.trans h
      | timedOut s | used s | freed s => exact hexcl
  | used t | freed t =>
      cases event with
      | freed s =>
          obtain rfl : s = t := hexcl
          exact hready h
      | handled e s | timedOut s | used s => exact hexcl

/-- Every request has had one outcome at most, and its phase admits what has happened. -/
structure Ledger (log : List (Event S E)) (phase : Fin S → Phase E) : Prop where
  outcome : OneOutcome log
  possible : ∀ event ∈ log, event.Possible phase

namespace Ledger

variable {log : List (Event S E)}

theorem update (h : Ledger log phase) (hs : (phase s).Silent ∨ x = .freed) :
  Ledger log (Function.update phase s x)
  := ⟨h.outcome, fun event hevent => (h.possible event hevent).update hs⟩

/-- The next event, before which the phases are the first and after which they are the second. -/
theorem note {phase' : Fin S → Phase E} (h : Ledger log phase) (h' : Ledger log phase')
    (hready : event.Ready phase) (hpossible : event.Possible phase') :
  Ledger (log ++ [event]) phase'
  := by
  constructor
  · apply List.pairwise_append.mpr ⟨h.outcome, List.pairwise_singleton .., _⟩
    intro x hx y hy
    rw [List.mem_singleton.mp hy]
    exact hready.not_excludes (h.possible x hx)
  · intro x hx
    rcases List.mem_append.mp hx with hx | hx
    · exact h'.possible x hx
    · rwa [List.mem_singleton.mp hx]

theorem used (h : Ledger log phase) {l : List (Fin S)} (hl : ∀ s ∈ l, phase s ≠ .freed) :
  Ledger (log ++ l.map .used) phase
  := by
  induction l generalizing log with
  | nil => rwa [List.map_nil, List.append_nil]
  | cons s l ih =>
      rw [List.map_cons, List.append_cons]
      exact ih (h.note h (hl s List.mem_cons_self) trivial)
        fun t ht => hl t (List.mem_cons_of_mem _ ht)

end Ledger

/-! ### The queue -/

/-- What an engineer in the middle of `pop_from_queue` finds: the queue before it has read a
request, and afterwards the queue without it. -/
def Pop.Finds (q : ℕ → Option (Fin S)) (size : ℤ) (queue : List (Fin S)) : Pop S → Prop
  | .test => True
  | .first => size = queue.length ∧ Places.Holds q queue ∧ queue ≠ []
  | .compare _ i => size = queue.length + 1 ∧ 1 ≤ i ∧ i ≤ queue.length + 1
      ∧ Places.Slides q (i - 1) queue
  | .read _ i => size = queue.length + 1 ∧ 1 ≤ i ∧ i ≤ queue.length ∧ Places.Slides q (i - 1) queue
  | .write _ i next => size = queue.length + 1 ∧ 1 ≤ i ∧ i ≤ queue.length
      ∧ Places.Slides q (i - 1) queue ∧ next = q i
  | .readSize _ => size = queue.length + 1 ∧ Places.Holds q queue
  | .writeSize _ n => size = queue.length + 1 ∧ Places.Holds q queue ∧ n = size

/-- At most one engineer is in the middle of `pop_from_queue`, and while no one is, the array holds
the queue. -/
structure Standing (engineers : Fin E → Engineer S) (q : ℕ → Option (Fin S)) (size : ℤ)
    (queue : List (Fin S)) : Prop where
  alone : ∀ e e', (engineers e).pops.isSome = true → (engineers e').pops.isSome = true → e = e'
  busy : ∀ e p, (engineers e).pops = some p → p.Finds q size queue
  quiet : (∀ e, (engineers e).pops = none) → size = queue.length ∧ Places.Holds q queue

namespace Standing

variable {engineers : Fin E → Engineer S} {q : ℕ → Option (Fin S)} {size : ℤ}
  {queue : List (Fin S)} {e : Fin E} {p : Pop S} {pc : Engineer S}

theorem others (h : Standing engineers q size queue) (hp : (engineers e).pops = some p) :
  ∀ e', e' ≠ e → (engineers e').pops = none
  := by
  intro e' hne
  by_contra hsome
  exact hne (h.alone e' e (Option.ne_none_iff_isSome.mp hsome) (by rw [hp]; rfl))

/-- No engineer is in the middle of `pop_from_queue`. -/
theorem of_quiet (hpops : ∀ e, (engineers e).pops = none) (hsize : size = queue.length)
    (hq : Places.Holds q queue) :
  Standing engineers q size queue
  where
  alone e _ he := by
    rw [hpops] at he
    cases he
  busy e p he := by
    rw [hpops] at he
    cases he
  quiet _ := ⟨hsize, hq⟩

/-- An engineer goes on in `pop_from_queue`. -/
theorem of_busy (hothers : ∀ e', e' ≠ e → (engineers e').pops = none) (hpc : pc.pops = some p)
    (hp : p.Finds q size queue) :
  Standing (Function.update engineers e pc) q size queue
  := by
  have hupdate : ∀ e' p', (Function.update engineers e pc e').pops = some p' → e' = e ∧ p' = p := by
    intro e' p' he'
    rcases eq_or_ne e' e with rfl | hne
    · rw [Function.update_self, hpc] at he'
      exact ⟨rfl, (Option.some.inj he').symm⟩
    · rw [Function.update_of_ne hne, hothers e' hne] at he'
      cases he'
  constructor
  · intro e₁ e₂ h₁ h₂
    obtain ⟨p₁, h₁⟩ := Option.isSome_iff_exists.mp h₁
    obtain ⟨p₂, h₂⟩ := Option.isSome_iff_exists.mp h₂
    rw [(hupdate e₁ p₁ h₁).1, (hupdate e₂ p₂ h₂).1]
  · intro e' p' he'
    rwa [(hupdate e' p' he').2]
  · intro hnone
    have he := hnone e
    rw [Function.update_self, hpc] at he
    cases he

/-- An engineer that is not in the middle of `pop_from_queue` goes on. -/
theorem go (h : Standing engineers q size queue) (hpc : pc.pops = none)
    (he : (engineers e).pops = none) :
  Standing (Function.update engineers e pc) q size queue
  := by
  have hupdate : ∀ e', (Function.update engineers e pc e').pops = (engineers e').pops := by
    intro e'
    rcases eq_or_ne e' e with rfl | hne
    · rw [Function.update_self, hpc, he]
    · rw [Function.update_of_ne hne]
  constructor
  · intro e₁ e₂ h₁ h₂
    rw [hupdate] at h₁ h₂
    exact h.alone e₁ e₂ h₁ h₂
  · intro e' p' he'
    rw [hupdate] at he'
    exact h.busy e' p' he'
  · intro hnone
    exact h.quiet fun e' => (hupdate e').symm.trans (hnone e')

end Standing

/-! ### Engineers and satellites -/

/-- The engineers hold the requests whose phases say so. -/
def HeldBy (engineers : Fin E → Engineer S) (phase : Fin S → Phase E) : Prop :=
  ∀ e b s, (engineers e).hand = some (b, s) ↔ phase s = .held b e

namespace HeldBy

variable {engineers : Fin E → Engineer S} {e : Fin E} {pc : Engineer S} {b b' : Bool}

theorem go (h : HeldBy engineers phase) (hpc : pc.hand = (engineers e).hand) :
  HeldBy (Function.update engineers e pc) phase
  := by
  intro e' b s
  rw [← h e' b s]
  rcases eq_or_ne e' e with rfl | hne
  · rw [Function.update_self, hpc]
  · rw [Function.update_of_ne hne]

/-- A request that no engineer holds changes its phase. -/
theorem update (h : HeldBy engineers phase) (hs : ∀ b e, phase s ≠ .held b e)
    (hx : ∀ b e, x ≠ .held b e) :
  HeldBy engineers (Function.update phase s x)
  := by
  intro e b t
  rcases eq_or_ne t s with rfl | hne
  · rw [Function.update_self, h e b t]
    exact iff_of_false (hs b e) (hx b e)
  · rw [Function.update_of_ne hne, h e b t]

/-- An engineer that holds no other request takes one that no other engineer holds. -/
theorem take (h : HeldBy engineers phase) (hpc : pc.hand = some (b, s))
    (hhand : ∀ b' t, (engineers e).hand = some (b', t) → t = s)
    (hs : ∀ b' e', phase s = .held b' e' → e' = e) :
  HeldBy (Function.update engineers e pc) (Function.update phase s (.held b e))
  := by
  intro e' b' t
  rcases eq_or_ne e' e with rfl | hne
  · rw [Function.update_self, hpc]
    rcases eq_or_ne t s with rfl | hts
    · rw [Function.update_self]
      simp
    · rw [Function.update_of_ne hts]
      refine iff_of_false (fun heq => hts ?_) fun heq => hts (hhand b' t ((h e' b' t).mpr heq))
      exact (Prod.mk.inj (Option.some.inj heq)).2.symm
  · rw [Function.update_of_ne hne, h e' b' t]
    rcases eq_or_ne t s with rfl | hts
    · rw [Function.update_self]
      exact iff_of_false (fun heq => hne (hs b' e' heq)) fun heq => hne (Phase.held.inj heq).2.symm
    · rw [Function.update_of_ne hts]

/-- An engineer gives its request away. -/
theorem drop (h : HeldBy engineers phase) (hpc : pc.hand = none)
    (hhand : (engineers e).hand = some (b, s)) (hx : ∀ b e, x ≠ .held b e) :
  HeldBy (Function.update engineers e pc) (Function.update phase s x)
  := by
  have hs := (h e b s).mp hhand
  intro e' b' t
  rcases eq_or_ne t s with rfl | hts
  · rw [Function.update_self]
    refine iff_of_false (fun heq => ?_) (hx b' e')
    rcases eq_or_ne e' e with rfl | hne
    · rw [Function.update_self, hpc] at heq
      cases heq
    · rw [Function.update_of_ne hne, h e' b' t, hs] at heq
      exact hne (Phase.held.inj heq).2.symm
  · rw [Function.update_of_ne hts]
    rcases eq_or_ne e' e with rfl | hne
    · rw [Function.update_self, hpc, ← h e' b' t, hhand]
      refine iff_of_false nofun fun heq => hts ?_
      exact (Prod.mk.inj (Option.some.inj heq)).2.symm
    · rw [Function.update_of_ne hne, h e' b' t]

end HeldBy

/-- A satellite is where the phase of its request says. -/
structure Agrees (pc : Satellite) (x : Phase E) : Prop where
  fresh : x = .fresh ↔ ¬ pc.Submitted
  expired : x = .expired ↔ pc = .withdraw
  freed : x = .freed → pc = .exited

/-- A request that has been submitted is taken or held. -/
theorem Agrees.held {pc : Satellite} {b : Bool} {e : Fin E} (h : Agrees pc x) (hfresh : x ≠ .fresh)
    (hexpired : x ≠ .expired) :
  Agrees pc (.held b e)
  := ⟨iff_of_false nofun fun hpc => hfresh (h.fresh.mpr hpc),
    iff_of_false nofun fun hpc => hexpired (h.expired.mpr hpc), nofun⟩

/-- A satellite goes on after it has submitted its request. -/
theorem Agrees.go {pc pc' : Satellite} (h : Agrees pc x)
    (hpc : pc = .post ∨ pc = .poll ∨ pc = .clock)
    (hpc' : pc' = .poll ∨ pc' = .clock ∨ pc' = .exited) :
  Agrees pc' x
  := by
  have hfresh : x ≠ .fresh := by
    rw [ne_eq, h.fresh]
    rcases hpc with rfl | rfl | rfl <;> simp [Satellite.Submitted]
  have hexpired : x ≠ .expired := by
    rw [ne_eq, h.expired]
    rcases hpc with rfl | rfl | rfl <;> simp
  have hfreed : x ≠ .freed := by
    intro hx
    have hexited := h.freed hx
    rcases hpc with rfl | rfl | rfl <;> cases hexited
  rcases hpc' with rfl | rfl | rfl
  all_goals exact ⟨iff_of_false hfresh (by simp [Satellite.Submitted]),
    iff_of_false hexpired nofun, fun hx => absurd hx hfreed⟩

/-- The queue, the phases and the memory of a state agree. -/
structure Sound (σ : State S E) (queue : List (Fin S)) (phase : Fin S → Phase E) : Prop where
  ledger : Ledger σ.log phase
  standing : Standing σ.engineers σ.requestQueue σ.queueSize queue
  nodup : queue.Nodup
  queued : ∀ s, s ∈ queue ↔ phase s = .queued ∨ phase s = .expired
  held : HeldBy σ.engineers phase
  satellites : ∀ s, Agrees (σ.satellites s) (phase s)
  ids : ∀ s, σ.satellites s ≠ .create → (σ.heap s).id = s
  served : ∀ s, σ.satellites s ≠ .create → (σ.heap s).beingServed = true →
    (∃ e, phase s = .held true e) ∨ phase s = .freed

/-- The loop of a satellite finds its request in the queue. -/
theorem State.findRequest_eq {σ : State S E} {queue : List (Fin S)} {i n k : ℕ}
    (hq : Places.Holds σ.requestQueue queue) (hnodup : queue.Nodup)
    (hwaiting : ∀ p ∈ queue, (σ.heap p).id = p ∧ (σ.heap p).beingServed = false)
    (hn : i + n = queue.length) (hi : i ≤ k) (hk : queue[k]? = some s) :
  ∃ seen, σ.findRequest s i n = some (seen, some (k, s)) ∧ ∀ t ∈ seen, t ∈ queue
  := by
  have hlt : k < queue.length := (List.getElem?_eq_some_iff.mp hk).1
  induction n generalizing i with
  | zero => omega
  | succ n ih =>
      have hilt : i < queue.length := by omega
      obtain ⟨p, hp, hqi⟩ := hq.mem hilt
      obtain ⟨hid, hserved⟩ := hwaiting p hp
      rw [State.findRequest, hqi, Option.bind_some, hid, hserved]
      have hqueue : queue[i]? = some p := (hq i hilt).symm.trans hqi
      rcases eq_or_ne i k with rfl | hne
      · obtain rfl : p = s := Option.some.inj (hqueue.symm.trans hk)
        exact ⟨[p], by simp, by simpa using hp⟩
      · have hps : p ≠ s := by
          rintro rfl
          exact hne ((List.getElem?_inj hilt hnodup).mp (hqueue.trans hk.symm))
        obtain ⟨seen, hfind, hseen⟩ := ih (i := i + 1) (by omega) (by omega)
        exact ⟨p :: seen, by simp [hps, hfind], by simpa using ⟨hp, hseen⟩⟩

namespace Sound

variable {σ σ' : State S E} {queue : List (Fin S)} {e : Fin E} {pc : Engineer S}

theorem initial (heap : Fin S → SatelliteRequest S E) :
  Sound (State.initial heap) [] fun _ => .fresh
  where
  ledger := ⟨.nil, nofun⟩
  standing := .of_quiet (fun _ => rfl) rfl (Places.holds_nil _)
  nodup := .nil
  queued := by simp
  held _ _ _ := ⟨nofun, nofun⟩
  satellites _ := ⟨iff_of_true rfl (by simp [State.initial, Satellite.Submitted]),
    ⟨nofun, nofun⟩, nofun⟩
  ids s hs := absurd rfl hs
  served s hs := absurd rfl hs

/-- An engineer goes on without taking or leaving anything. -/
theorem engineerAt (h : Sound σ queue phase) (pc : Engineer S)
    (hhand : pc.hand = (σ.engineers e).hand)
    (hpc : pc.pops = none) (he : (σ.engineers e).pops = none) :
  Sound (σ.engineerAt e pc) queue phase
  := { h with
    standing := h.standing.go hpc he
    held := h.held.go hhand }

/-- An engineer goes on in `pop_from_queue` without reading a request. -/
theorem popAt {p : Pop S} (h : Sound σ queue phase) (hhand : pc.hand = (σ.engineers e).hand)
    (hothers : ∀ e', e' ≠ e → (σ.engineers e').pops = none) (hpc : pc.pops = some p)
    (hp : p.Finds σ.requestQueue σ.queueSize queue) :
  Sound (σ.engineerAt e pc) queue phase
  := { h with
    standing := .of_busy hothers hpc hp
    held := h.held.go hhand }

/-- An engineer reads the first request, whose time is not over. -/
theorem popFirst (h : Sound σ queue phase) (hpc : σ.engineers e = .pop .first)
    (hintime : σ.InTime (.engineer e)) :
  ∃ queue phase, Sound (σ.engineerAt e (.pop (.compare (σ.requestQueue 0) 1))) queue phase
  := by
  have hpops : (σ.engineers e).pops = some .first := by rw [hpc]; rfl
  obtain ⟨hsize, hq, hne⟩ := h.standing.busy e _ hpops
  obtain ⟨s, t, rfl⟩ := List.exists_cons_of_ne_nil hne
  have hfirst : σ.requestQueue 0 = some s := (Places.holds_cons.mp hq).1
  obtain ⟨hs, hnodup⟩ := List.nodup_cons.mp h.nodup
  have hphase : phase s = .queued := by
    apply ((h.queued s).mp List.mem_cons_self).resolve_right
    exact fun hexpired => hintime hpc s hfirst ((h.satellites s).expired.mp hexpired)
  rw [hfirst]
  refine ⟨t, Function.update phase s (.held false e), ?_⟩
  have hagrees := h.satellites s
  rw [hphase] at hagrees
  exact {
    ledger := h.ledger.update (.inl (by rw [hphase]; trivial))
    standing := by
      apply Standing.of_busy (h.standing.others hpops) rfl
      simp only [List.length_cons] at hsize
      exact ⟨by change σ.queueSize = _; omega, le_rfl, by omega, hq.slides⟩
    nodup := hnodup
    queued := (Function.forall_update_iff phase fun x y => x ∈ t ↔ y = .queued ∨ y = .expired).mpr
      ⟨iff_of_false hs (by simp), fun x hx => by
        rw [← h.queued x, List.mem_cons, or_iff_right hx]⟩
    held := by
      apply h.held.take rfl
      · intro b t hhand
        rw [hpc] at hhand
        cases hhand
      · intro b e' hheld
        rw [hphase] at hheld
        cases hheld
    satellites := (Function.forall_update_iff phase fun x y => Agrees (σ.satellites x) y).mpr
      ⟨hagrees.held nofun nofun, fun x _ => h.satellites x⟩
    ids := h.ids
    served := (Function.forall_update_iff phase fun x y => σ.satellites x ≠ .create →
        (σ.heap x).beingServed = true → (∃ e, y = .held true e) ∨ y = .freed).mpr
      ⟨fun hcreate hserved => by
        have hold := h.served s hcreate hserved
        simp [hphase] at hold, fun x _ => h.served x⟩ }

theorem popAccess (h : Sound σ queue phase) {p : Pop S} (hpc : σ.engineers e = .pop p)
    (halone : σ.Alone (.engineer e)) (hintime : σ.InTime (.engineer e)) :
  ∃ queue phase, Sound (σ.popAccess e p) queue phase
  := by
  cases p with
  | test =>
      obtain ⟨hsize, hq⟩ := h.standing.quiet (halone hpc)
      rw [State.popAccess]
      split_ifs with hempty
      · exact ⟨queue, phase, h.engineerAt _ (by rw [hpc]; rfl) rfl (by rw [hpc]; rfl)⟩
      · refine ⟨queue, phase, h.popAt (by rw [hpc]; rfl) (fun e' _ => halone hpc e') rfl
          ⟨hsize, hq, ?_⟩⟩
        rintro rfl
        exact hempty hsize
  | first => exact h.popFirst hpc hintime
  | compare req i =>
      have hpops : (σ.engineers e).pops = some (.compare req i) := by rw [hpc]; rfl
      obtain ⟨hsize, hpos, hle, hslides⟩ := h.standing.busy e _ hpops
      have hothers := h.standing.others hpops
      refine ⟨queue, phase, ?_⟩
      rw [State.popAccess]
      split_ifs with hi
      · exact h.popAt (by rw [hpc]; rfl) hothers rfl ⟨hsize, hpos, by omega, hslides⟩
      · exact h.popAt (by rw [hpc]; rfl) hothers rfl ⟨hsize, hslides.holds (by omega)⟩
  | read req i =>
      have hpops : (σ.engineers e).pops = some (.read req i) := by rw [hpc]; rfl
      obtain ⟨hsize, hpos, hle, hslides⟩ := h.standing.busy e _ hpops
      exact ⟨queue, phase, h.popAt (by rw [hpc]; rfl) (h.standing.others hpops) rfl
        ⟨hsize, hpos, hle, hslides, rfl⟩⟩
  | write req i next =>
      have hpops : (σ.engineers e).pops = some (.write req i next) := by rw [hpc]; rfl
      obtain ⟨hsize, hpos, hle, hslides, rfl⟩ := h.standing.busy e _ hpops
      have hstep := hslides.step (by omega)
      rw [Nat.sub_add_cancel hpos] at hstep
      exact ⟨queue, phase, { h with
        standing := .of_busy (h.standing.others hpops) rfl ⟨hsize, by omega, by omega, hstep⟩
        held := h.held.go (by rw [hpc]; rfl) }⟩
  | readSize req =>
      have hpops : (σ.engineers e).pops = some (.readSize req) := by rw [hpc]; rfl
      obtain ⟨hsize, hq⟩ := h.standing.busy e _ hpops
      exact ⟨queue, phase, h.popAt (by rw [hpc]; rfl) (h.standing.others hpops) rfl
        ⟨hsize, hq, rfl⟩⟩
  | writeSize req n =>
      have hpops : (σ.engineers e).pops = some (.writeSize req n) := by rw [hpc]; rfl
      obtain ⟨hsize, hq, rfl⟩ := h.standing.busy e _ hpops
      have hquiet : ∀ e', (Function.update σ.engineers e (.handle req) e').pops = none := by
        intro e'
        rcases eq_or_ne e' e with rfl | hne
        · rw [Function.update_self]
          rfl
        · rw [Function.update_of_ne hne]
          exact h.standing.others hpops e' hne
      exact ⟨queue, phase, { h with
        standing := .of_quiet hquiet (by change σ.queueSize - 1 = _; omega) hq
        held := h.held.go (by rw [hpc]; rfl) }⟩

/-- An engineer prints that it handles its request. -/
theorem handle (h : Sound σ queue phase) (hpc : σ.engineers e = .handle (some s)) :
  Sound ((σ.engineerAt e (.serve s)).note [.used s, .handled e s]) queue
    (Function.update phase s (.held true e))
  := by
  have hphase : phase s = .held false e := (h.held e false s).mp (by rw [hpc]; rfl)
  have hagrees := h.satellites s
  rw [hphase] at hagrees
  have hready : (Event.handled e s).Ready phase := ⟨e, hphase⟩
  exact {
    ledger := by
      have hused := (h.ledger.used (l := [s]) (by simp [hphase]))
      have hsilent := hused.update (x := .held true e) (.inl (by rw [hphase]; trivial))
      have hnote := hused.note hsilent hready (.inl ⟨e, Function.update_self ..⟩)
      rwa [List.append_assoc] at hnote
    standing := h.standing.go rfl (by rw [hpc]; rfl)
    nodup := h.nodup
    queued := (Function.forall_update_iff phase
      fun x y => x ∈ queue ↔ y = .queued ∨ y = .expired).mpr
      ⟨by rw [h.queued s, hphase]; simp, fun x _ => h.queued x⟩
    held := by
      apply h.held.take rfl
      · intro b t hhand
        rw [hpc] at hhand
        exact (Prod.mk.inj (Option.some.inj hhand)).2.symm
      · intro b e' hheld
        rw [hphase] at hheld
        exact (Phase.held.inj hheld).2.symm
    satellites := (Function.forall_update_iff phase fun x y => Agrees (σ.satellites x) y).mpr
      ⟨hagrees.held nofun nofun, fun x _ => h.satellites x⟩
    ids := h.ids
    served := (Function.forall_update_iff phase fun x y => σ.satellites x ≠ .create →
        (σ.heap x).beingServed = true → (∃ e, y = .held true e) ∨ y = .freed).mpr
      ⟨fun _ _ => .inl ⟨e, rfl⟩, fun x _ => h.served x⟩ }

/-- An engineer frees its request, whose satellite has exited. -/
theorem free (h : Sound σ queue phase) (hpc : σ.engineers e = .free s)
    (hexited : σ.satellites s = .exited) :
  Sound ((σ.engineerAt e .testLast).note [.freed s]) queue (Function.update phase s .freed)
  := by
  have hphase : phase s = .held true e := (h.held e true s).mp (by rw [hpc]; rfl)
  have hready : (Event.freed s).Ready phase := by
    change phase s ≠ .freed
    rw [hphase]
    nofun
  exact {
    ledger := h.ledger.note (h.ledger.update (.inr rfl)) hready (Function.update_self ..)
    standing := h.standing.go rfl (by rw [hpc]; rfl)
    nodup := h.nodup
    queued := (Function.forall_update_iff phase
      fun x y => x ∈ queue ↔ y = .queued ∨ y = .expired).mpr
      ⟨by rw [h.queued s, hphase]; simp, fun x _ => h.queued x⟩
    held := h.held.drop rfl (by rw [hpc]; rfl) nofun
    satellites := (Function.forall_update_iff phase fun x y => Agrees (σ.satellites x) y).mpr
      ⟨⟨iff_of_false nofun (by simp [hexited, Satellite.Submitted]),
        iff_of_false nofun (by simp [hexited]), fun _ => hexited⟩, fun x _ => h.satellites x⟩
    ids := h.ids
    served := (Function.forall_update_iff phase fun x y => σ.satellites x ≠ .create →
        (σ.heap x).beingServed = true → (∃ e, y = .held true e) ∨ y = .freed).mpr
      ⟨fun _ _ => .inr rfl, fun x _ => h.served x⟩ }

theorem engineer (h : Sound σ queue phase) (hcareful : σ.Careful (.engineer e))
    (hstep : σ.engineer false e = some σ') :
  ∃ queue phase, Sound σ' queue phase
  := by
  obtain ⟨halone, hintime, hkept⟩ := hcareful
  rw [State.engineer] at hstep
  cases hpc : σ.engineers e with
  | wait =>
      rw [hpc] at hstep
      obtain ⟨-, hstep⟩ := Option.ite_none_left_eq_some.mp hstep
      cases hstep
      have hgo := h.engineerAt .testQueue (by rw [hpc]; rfl) rfl (by rw [hpc]; rfl)
      exact ⟨queue, phase, { hgo with }⟩
  | testQueue =>
      rw [hpc] at hstep
      cases hstep
      refine ⟨queue, phase, ?_⟩
      split
      all_goals exact h.engineerAt _ (by rw [hpc]; rfl) rfl (by rw [hpc]; rfl)
  | testAvailable | testLast | testIdle =>
      rw [hpc] at hstep
      cases hstep
      refine ⟨queue, phase, ?_⟩
      split
      all_goals exact h.engineerAt _ (by rw [hpc]; rfl) rfl (by rw [hpc]; rfl)
  | pop p =>
      rw [hpc] at hstep
      cases hstep
      exact h.popAccess hpc halone hintime
  | handle req =>
      rw [hpc] at hstep
      obtain ⟨r, rfl, rfl⟩ := Option.map_eq_some_iff.mp hstep
      exact ⟨_, _, h.handle hpc⟩
  | serve r =>
      rw [hpc] at hstep
      cases hstep
      have hphase : phase r = .held true e := (h.held e true r).mp (by rw [hpc]; rfl)
      have hused := h.ledger.used (l := [r]) (by simp [hphase])
      exact ⟨queue, phase, { h.engineerAt (.release r) (by rw [hpc]; rfl) rfl
        (by rw [hpc]; rfl) with
        ledger := hused
        ids := (Function.forall_update_iff σ.heap
          fun x m => σ.satellites x ≠ .create → m.id = x).mpr
          ⟨h.ids r, fun x _ => h.ids x⟩
        served := (Function.forall_update_iff σ.heap fun x m => σ.satellites x ≠ .create →
            m.beingServed = true → (∃ e, phase x = .held true e) ∨ phase x = .freed).mpr
          ⟨fun _ _ => .inl ⟨e, hphase⟩, fun x _ => h.served x⟩ }⟩
  | release r =>
      rw [hpc] at hstep
      cases hstep
      have hgo := h.engineerAt (.finish r) (by rw [hpc]; rfl) rfl (by rw [hpc]; rfl)
      exact ⟨queue, phase, { hgo with }⟩
  | finish r =>
      rw [hpc] at hstep
      cases hstep
      have hphase : phase r = .held true e := (h.held e true r).mp (by rw [hpc]; rfl)
      have hused := h.ledger.used (l := [r]) (by simp [hphase])
      have hgo := h.engineerAt (.free r) (by rw [hpc]; rfl) rfl (by rw [hpc]; rfl)
      exact ⟨queue, phase, { hgo with ledger := hused }⟩
  | free r =>
      rw [hpc] at hstep
      cases hstep
      exact ⟨_, _, h.free hpc (hkept r hpc)⟩
  | wake =>
      rw [hpc] at hstep
      cases hstep
      have hgo := h.engineerAt .exited (by rw [hpc]; rfl) rfl (by rw [hpc]; rfl)
      exact ⟨queue, phase, { hgo with }⟩
  | exited =>
      rw [hpc] at hstep
      cases hstep

variable {chance : Chance} {pc' : Satellite}

/-- A satellite goes on while nothing happens to its request. -/
theorem satelliteAt (h : Sound σ queue phase) (hcreate : σ.satellites s ≠ .create)
    (hpc : Agrees pc' (phase s)) :
  Sound (σ.satelliteAt s pc') queue phase
  := by
  have hold : ∀ x, Function.update σ.satellites s pc' x ≠ .create → σ.satellites x ≠ .create := by
    intro x hx
    rcases eq_or_ne x s with rfl | hne
    · exact hcreate
    · rwa [Function.update_of_ne hne] at hx
  exact { h with
    satellites := (Function.forall_update_iff σ.satellites fun x y => Agrees y (phase x)).mpr
      ⟨hpc, fun x _ => h.satellites x⟩
    ids := fun x hx => h.ids x (hold x hx)
    served := fun x hx => h.served x (hold x hx) }

theorem create (h : Sound σ queue phase) (hpc : σ.satellites s = .create)
    (m : SatelliteRequest S E) (hid : m.id = s) (hserved : m.beingServed = false) :
  Sound { σ.satelliteAt s .announce with heap := Function.update σ.heap s m } queue phase
  := by
  have hphase : phase s = .fresh := (h.satellites s).fresh.mpr (by simp [hpc, Satellite.Submitted])
  have hother : ∀ {x}, x ≠ s → Function.update σ.satellites s .announce x ≠ .create →
      σ.satellites x ≠ .create := by
    intro x hne hx
    rwa [Function.update_of_ne hne] at hx
  exact { h with
    satellites := (Function.forall_update_iff σ.satellites fun x y => Agrees y (phase x)).mpr
      ⟨by rw [hphase]; exact ⟨iff_of_true rfl (by simp [Satellite.Submitted]), ⟨nofun, nofun⟩,
        nofun⟩,
        fun x _ => h.satellites x⟩
    ids := (Function.forall_update_iff σ.heap fun x m =>
        Function.update σ.satellites s .announce x ≠ .create → m.id = x).mpr
      ⟨fun _ => hid, fun x hx hx' => h.ids x (hother hx hx')⟩
    served := (Function.forall_update_iff σ.heap fun x m =>
        Function.update σ.satellites s .announce x ≠ .create → m.beingServed = true →
          (∃ e, phase x = .held true e) ∨ phase x = .freed).mpr
      ⟨fun _ hm => absurd (hserved.symm.trans hm) nofun,
        fun x hx hx' => h.served x (hother hx hx')⟩ }

/-- A satellite goes on while its request, which no engineer holds, changes its phase. -/
theorem phaseAt {queue' : List (Fin S)} (h : Sound σ queue phase)
    (hcreate : σ.satellites s ≠ .create)
    (hs : ∀ b e, phase s ≠ .held b e) (hx : ∀ b e, x ≠ .held b e) (hpc : Agrees pc' x)
    (hserved : (σ.heap s).beingServed = true → x = .freed)
    (hsatellites : σ'.satellites = Function.update σ.satellites s pc')
    (hengineers : σ'.engineers = σ.engineers) (hheap : σ'.heap = σ.heap)
    (hledger : Ledger σ'.log (Function.update phase s x))
    (hstanding : Standing σ.engineers σ'.requestQueue σ'.queueSize queue') (hnodup : queue'.Nodup)
    (hqueue : s ∈ queue' ↔ x = .queued ∨ x = .expired)
    (hothers : ∀ t, t ≠ s → (t ∈ queue' ↔ t ∈ queue)) :
  Sound σ' queue' (Function.update phase s x)
  := by
  have hold : ∀ t, σ'.satellites t ≠ .create → σ.satellites t ≠ .create := by
    intro t ht
    rcases eq_or_ne t s with rfl | hne
    · exact hcreate
    · rwa [hsatellites, Function.update_of_ne hne] at ht
  exact {
    ledger := hledger
    standing := hengineers ▸ hstanding
    nodup := hnodup
    queued := (Function.forall_update_iff phase
      fun t y => t ∈ queue' ↔ y = .queued ∨ y = .expired).mpr
      ⟨hqueue, fun t ht => (hothers t ht).trans (h.queued t)⟩
    held := hengineers ▸ h.held.update hs hx
    satellites := by
      intro t
      rw [hsatellites]
      rcases eq_or_ne t s with rfl | hne
      · rwa [Function.update_self, Function.update_self]
      · rw [Function.update_of_ne hne, Function.update_of_ne hne]
        exact h.satellites t
    ids := fun t ht => hheap ▸ h.ids t (hold t ht)
    served := (Function.forall_update_iff phase fun t y => σ'.satellites t ≠ .create →
        (σ'.heap t).beingServed = true → (∃ e, y = .held true e) ∨ y = .freed).mpr
      ⟨fun _ ht => .inr (hserved (hheap ▸ ht)), fun t _ ht => hheap ▸ h.served t (hold t ht)⟩ }

/-- A satellite puts its request into the queue. -/
theorem submit (h : Sound σ queue phase) (hpc : σ.satellites s = .submit)
    (hquiet : ∀ e, (σ.engineers e).pops = none)
    (hstep : (σ.satelliteAt s .post).addToQueue s = some σ') :
  ∃ queue phase, Sound σ' queue phase
  := by
  have hphase : phase s = .fresh := (h.satellites s).fresh.mpr (by simp [hpc, Satellite.Submitted])
  obtain ⟨hsize, hq⟩ := h.standing.quiet hquiet
  obtain ⟨q', seen, queue', hinsert, hperm, hq', hseen⟩ :=
    hq.insertFrom ((σ.satelliteAt s .post).breaksAt · s) s
  obtain ⟨-, hstep⟩ := Option.ite_none_left_eq_some.mp hstep
  obtain ⟨⟨q₁, seen₁⟩, hinsert₁, rfl⟩ := Option.map_eq_some_iff.mp hstep
  have hn : (σ.satelliteAt s .post).queueSize.toNat = queue.length := by
    change σ.queueSize.toNat = _
    omega
  rw [hn] at hinsert₁
  obtain ⟨rfl, rfl⟩ := Prod.mk.inj (Option.some.inj (hinsert₁.symm.trans hinsert))
  have hs : s ∉ queue := by
    rw [h.queued s, hphase]
    simp
  have hlength : queue'.length = queue.length + 1 := hperm.length_eq
  have hused : ∀ t ∈ s :: seen₁, phase t ≠ .freed := by
    intro t ht
    rcases List.mem_cons.mp ht with rfl | ht
    · simp [hphase]
    · rcases (h.queued t).mp (hseen t ht) with hphase | hphase <;> simp [hphase]
  have hledger := (h.ledger.used hused).update (x := .queued) (.inl (by rw [hphase]; trivial))
  have hcreate : σ.satellites s ≠ .create := by simp [hpc]
  have hagrees : Agrees .post (.queued : Phase E) :=
    ⟨iff_of_false nofun (by simp [Satellite.Submitted]), iff_of_false nofun nofun, nofun⟩
  have hserved : (σ.heap s).beingServed = true → Phase.queued = (.freed : Phase E) := by
    intro htrue
    have hold := h.served s hcreate htrue
    simp [hphase] at hold
  refine ⟨queue', _, h.phaseAt (x := .queued) hcreate (by simp [hphase]) nofun hagrees hserved rfl
    rfl rfl hledger
    (.of_quiet hquiet ?_ hq') (hperm.nodup_iff.mpr (List.nodup_cons.mpr ⟨hs, h.nodup⟩))
    (iff_of_true (hperm.mem_iff.mpr List.mem_cons_self) (.inl rfl)) ?_⟩
  · change σ.queueSize + 1 = _
    omega
  · intro t ht
    rw [hperm.mem_iff, List.mem_cons, or_iff_right ht]

/-- The time of a satellite is over. -/
theorem expire (h : Sound σ queue phase) (hpc : σ.satellites s = .clock)
    (hintime : ∀ e b, (σ.engineers e).hand ≠ some (b, s)) :
  ∃ queue phase, Sound ((σ.satelliteAt s .withdraw).note [.timedOut s]) queue phase
  := by
  have hagrees := h.satellites s
  have hphase : phase s = .queued := by
    cases hx : phase s with
    | queued => rfl
    | fresh => exact absurd (hagrees.fresh.mp hx) (by simp [hpc, Satellite.Submitted])
    | expired => exact absurd (hagrees.expired.mp hx) (by simp [hpc])
    | freed => exact absurd (hagrees.freed hx) (by simp [hpc])
    | held b e => exact absurd ((h.held e b s).mpr hx) (hintime e b)
  have hready : (Event.timedOut s : Event S E).Ready phase := hphase
  have hledger := h.ledger.note (h.ledger.update (x := .expired) (.inl (by rw [hphase]; trivial)))
    hready (.inl (Function.update_self ..))
  have hcreate : σ.satellites s ≠ .create := by simp [hpc]
  have hserved : (σ.heap s).beingServed = true → Phase.expired = (.freed : Phase E) := by
    intro htrue
    have hold := h.served s hcreate htrue
    simp [hphase] at hold
  exact ⟨queue, _, h.phaseAt (x := .expired) hcreate (by simp [hphase]) nofun
    ⟨iff_of_false nofun (by simp [Satellite.Submitted]), iff_of_true rfl rfl, nofun⟩ hserved
    rfl rfl rfl
    hledger h.standing h.nodup (iff_of_true ((h.queued s).mpr (.inl hphase)) (.inr rfl))
    fun _ _ => Iff.rfl⟩

/-- The requests in the queue are not being served. -/
theorem waiting (h : Sound σ queue phase) :
  ∀ p ∈ queue, (σ.heap p).id = p ∧ (σ.heap p).beingServed = false
  := by
  intro p hp
  have hphase := (h.queued p).mp hp
  have hcreate : σ.satellites p ≠ .create := by
    intro hcreate
    have hfresh := (h.satellites p).fresh.mpr (by simp [hcreate, Satellite.Submitted])
    simp [hfresh] at hphase
  use h.ids p hcreate
  by_contra htrue
  have hold := h.served p hcreate (by simpa using htrue)
  rcases hphase with hphase | hphase <;> simp [hphase] at hold

/-- A satellite whose time is over removes its request. -/
theorem withdraw (h : Sound σ queue phase) (hpc : σ.satellites s = .withdraw)
    (hquiet : ∀ e, (σ.engineers e).pops = none)
    (hstep : (σ.satelliteAt s .exited).withdraw s = some σ') :
  ∃ queue phase, Sound σ' queue phase
  := by
  have hphase : phase s = .expired := (h.satellites s).expired.mpr hpc
  obtain ⟨hsize, hq⟩ := h.standing.quiet hquiet
  obtain ⟨k, hk⟩ := List.mem_iff_getElem?.mp ((h.queued s).mpr (.inr hphase))
  have hlt : k < queue.length := (List.getElem?_eq_some_iff.mp hk).1
  have hn : (σ.satelliteAt s .exited).queueSize.toNat = queue.length := by
    change σ.queueSize.toNat = _
    omega
  obtain ⟨seen, hfind, hseen⟩ := State.findRequest_eq (σ := σ.satelliteAt s .exited) hq h.nodup
    h.waiting (Nat.zero_add _) (Nat.zero_le k) hk
  rw [State.withdraw, hn, hfind] at hstep
  cases hstep
  have hused : ∀ t ∈ seen, phase t ≠ .freed := by
    intro t ht
    rcases (h.queued t).mp (hseen t ht) with hphase | hphase <;> simp [hphase]
  have hready : (Event.freed s : Event S E).Ready phase := by
    change phase s ≠ .freed
    simp [hphase]
  have hledger := (h.ledger.used hused).note
    ((h.ledger.used hused).update (s := s) (.inr rfl)) hready (Function.update_self ..)
  have hqueue : ∀ t, t ∈ queue.eraseIdx k ↔ t ≠ s ∧ t ∈ queue := by
    intro t
    rw [List.mem_eraseIdx_iff_getElem?]
    constructor
    · rintro ⟨i, hne, hi⟩
      refine ⟨?_, List.mem_of_getElem? hi⟩
      rintro rfl
      exact hne ((List.getElem?_inj (List.getElem?_eq_some_iff.mp hi).1 h.nodup).mp
        (hi.trans hk.symm))
    · rintro ⟨hne, ht⟩
      obtain ⟨i, hi⟩ := List.mem_iff_getElem?.mp ht
      refine ⟨i, ?_, hi⟩
      rintro rfl
      exact hne (Option.some.inj (hi.symm.trans hk))
  have hlength := List.length_eraseIdx_of_lt hlt
  have hagrees : Agrees .exited (.freed : Phase E) :=
    ⟨iff_of_false nofun (by simp [Satellite.Submitted]), iff_of_false nofun nofun, fun _ => rfl⟩
  refine ⟨queue.eraseIdx k, _,
    h.phaseAt (x := .freed) (by simp [hpc]) (by simp [hphase]) nofun hagrees
    (fun _ => rfl) rfl rfl rfl hledger (.of_quiet hquiet ?_ ?_) (h.nodup.eraseIdx k) ?_ ?_⟩
  · change σ.queueSize - 1 = _
    omega
  · change Places.Holds (Places.moveDown (Function.update σ.requestQueue k none) k
      (σ.queueSize.toNat - 1 - k)) _
    rw [show σ.queueSize.toNat = queue.length from hn]
    exact hq.erase hlt
  · simp [hqueue]
  · intro t ht
    rw [hqueue, and_iff_right ht]

theorem satellite (h : Sound σ queue phase) (hcareful : σ.Careful (.satellite s chance))
    (hstep : σ.satellite s chance = some σ') :
  ∃ queue phase, Sound σ' queue phase
  := by
  obtain ⟨halone, hintime, -⟩ := hcareful
  have hagrees := h.satellites s
  rw [State.satellite] at hstep
  cases hpc : σ.satellites s with
  | create =>
      rw [hpc] at hstep
      cases hstep
      exact ⟨queue, phase, h.create hpc _ rfl rfl⟩
  | announce =>
      rw [hpc] at hstep
      cases hstep
      have hphase : phase s = .fresh := hagrees.fresh.mpr (by simp [hpc, Satellite.Submitted])
      have hsubmit : Agrees .submit (phase s) := by
        rw [hphase]
        exact ⟨iff_of_true rfl (by simp [Satellite.Submitted]), ⟨nofun, nofun⟩, nofun⟩
      have hused := h.ledger.used (l := [s]) (by simp [hphase])
      exact ⟨queue, phase, { h.satelliteAt (by simp [hpc]) hsubmit with ledger := hused }⟩
  | submit =>
      rw [hpc] at hstep
      exact h.submit hpc (halone (.inl hpc)) hstep
  | post =>
      rw [hpc] at hstep hagrees
      cases hstep
      have hgo := h.satelliteAt (by simp [hpc]) (hagrees.go (.inl rfl) (.inl rfl))
      exact ⟨queue, phase, { hgo with }⟩
  | poll =>
      rw [hpc] at hstep hagrees
      cases hstep
      have hused := h.ledger.used (l := [s]) fun t ht hfreed => by
        rw [List.mem_singleton.mp ht] at hfreed
        cases hagrees.freed hfreed
      refine ⟨queue, phase, { h.satelliteAt (by simp [hpc]) (hagrees.go (.inr (.inl rfl)) ?_) with
        ledger := hused }⟩
      split <;> simp
  | clock =>
      rw [hpc] at hstep hagrees
      dsimp only at hstep
      split_ifs at hstep with hexpired
      · cases hstep
        exact h.expire hpc (hintime hpc hexpired)
      · cases hstep
        exact ⟨queue, phase, h.satelliteAt (by simp [hpc])
          (hagrees.go (.inr (.inr rfl)) (.inl rfl))⟩
  | withdraw =>
      rw [hpc] at hstep
      exact h.withdraw hpc (halone (.inr hpc)) hstep
  | exited =>
      rw [hpc] at hstep
      cases hstep

end Sound

namespace State

variable {σ : State S E}

/-- As long as the steps are careful, every request has one outcome. -/
theorem oneOutcome (h : Reachable false Careful σ) :
  OneOutcome σ.log
  := by
  have hsound : ∃ queue phase, Sound σ queue phase := by
    apply h.invariant fun heap => ⟨_, _, Sound.initial heap⟩
    rintro σ a σ' ⟨queue, phase, hσ⟩ hcareful hstep
    cases a with
    | satellite s chance => exact hσ.satellite hcareful hstep
    | engineer e => exact hσ.engineer hcareful hstep
  obtain ⟨queue, phase, hσ⟩ := hsound
  exact hσ.ledger.outcome

/-- One satellite is served, and another one's time is over. -/
theorem oneOutcome_served :
  ∃ σ : State 2 1, Reachable false Careful σ ∧ .handled 0 0 ∈ σ.log ∧ .timedOut 1 ∈ σ.log
    ∧ OneOutcome σ.log
  := by
  have hrun : ((run false Careful (initial blank) (List.replicate 4 (early 0)
      ++ List.replicate 10 (.engineer 0) ++ [early 0] ++ List.replicate 4 (.engineer 0)
      ++ List.replicate 5 (early 1) ++ List.replicate 2 (.satellite 1 ⟨0, 0, true⟩))).map
        fun σ : State 2 1 => decide (.handled 0 0 ∈ σ.log ∧ .timedOut 1 ∈ σ.log)) = some true := by
    decide
  obtain ⟨σ, hσ, hlog⟩ := Option.map_eq_some_iff.mp hrun
  obtain ⟨hhandled, htimedOut⟩ := of_decide_eq_true hlog
  exact ⟨σ, .of_run hσ, hhandled, htimedOut, oneOutcome (.of_run hσ)⟩

/-- Two engineers read the first request before one of them has removed it. -/
theorem popped_twice :
  ∃ σ : State 2 2, Reachable false (fun _ _ => True) σ ∧ .handled 0 0 ∈ σ.log ∧ .handled 1 0 ∈ σ.log
    ∧ ¬ OneOutcome σ.log
  := by
  have hrun : ((run false (fun _ _ => True) (initial blank) (List.replicate 4 (early 0)
      ++ List.replicate 4 (early 1) ++ List.replicate 5 (.engineer 0)
      ++ List.replicate 5 (.engineer 1) ++ List.replicate 7 (.engineer 0)
      ++ List.replicate 7 (.engineer 1))).map
        fun σ : State 2 2 => σ.log.filter fun event => ∃ e s, event = .handled e s) =
          some [.handled 0 0, .handled 1 0] := by
    decide
  obtain ⟨σ, hσ, hlog⟩ := Option.map_eq_some_iff.mp hrun
  have hmem : ∀ event ∈ [.handled 0 0, .handled 1 0], event ∈ σ.log := fun event hevent =>
    List.mem_of_mem_filter (hlog ▸ hevent)
  refine ⟨σ, .of_run hσ, hmem _ (by simp), hmem _ (by simp), fun hone => ?_⟩
  have hpair := hone.sublist (List.filter_sublist (p := fun event => ∃ e s, event = .handled e s))
  rw [hlog] at hpair
  exact (List.pairwise_pair.mp hpair) rfl

end State

end GroundStation
