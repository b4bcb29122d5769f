import Homeworks.GroundStation.Station

/-!
# Engineers that leave

An engineer that finds the queue empty leaves, and one that has handled a request before wakes up
the others, which then leave in the same way.
-/

namespace GroundStation

variable {S E : ℕ} {atomicPop : Bool}

/-- The engineer has found the queue empty and is not going to test it any more. -/
def Engineer.Leaves (pc : Engineer S) : Prop := pc = wake ∨ pc = exited

namespace State

/-- The request of the satellite is in the queue. -/
def InQueue (σ : State S E) (s : Fin S) : Prop :=
  ∃ i : ℕ, i < σ.queueSize ∧ σ.requestQueue i = some s

/-- All engineers have exited, and there is a request in the queue or one that has still to be
submitted. -/
def WorkLeft (σ : State S E) : Prop :=
  (∀ e, σ.engineers e = .exited) ∧ ∃ s, σ.InQueue s ∨ ¬ (σ.satellites s).Submitted

/-- The engineer is about to test whether the queue is empty, in order to leave. -/
def AtLastTest (σ : State S E) (e : Fin E) : Prop :=
  σ.engineers e = .testLast ∨ σ.engineers e = .testIdle

/-- If all others leave, an engineer finds the queue empty only when all requests have been
submitted. -/
def LastStays (σ : State S E) : Action S E → Prop
  | .satellite _ _ => True
  | .engineer e => σ.AtLastTest e → σ.queueSize = 0 →
      (∀ e', e' ≠ e → (σ.engineers e').Leaves) → ∀ s, (σ.satellites s).Submitted

instance (σ : State S E) : DecidablePred σ.LastStays
  | .satellite _ _ => inferInstanceAs (Decidable True)
  | .engineer e => inferInstanceAs
    (Decidable ((σ.engineers e = .testLast ∨ σ.engineers e = .testIdle) →
      σ.queueSize = 0 → (∀ e', e' ≠ e → σ.engineers e' = .wake ∨ σ.engineers e' = .exited) →
      ∀ s, σ.satellites s ≠ .create ∧ σ.satellites s ≠ .announce ∧ σ.satellites s ≠ .submit))

/-! ### Steps -/

variable {σ σ' : State S E} {e : Fin E} {s : Fin S} {chance : Chance}

/-- An engineer leaves only by finding the queue empty. -/
theorem leaves_of_popAccess (p : Pop S) :
  ∃ pc, (σ.popAccess e p).engineers = Function.update σ.engineers e pc ∧ ¬ pc.Leaves
    ∧ (σ.popAccess e p).satellites = σ.satellites
  := by
  cases p with
  | test =>
      refine ⟨_, rfl, ?_, rfl⟩
      split <;> simp [Engineer.Leaves]
  | _ => exact ⟨_, rfl, by simp [Engineer.Leaves], rfl⟩

theorem leaves_of_popFromQueue :
  ∃ pc, (σ.popFromQueue e).engineers = Function.update σ.engineers e pc ∧ ¬ pc.Leaves
    ∧ (σ.popFromQueue e).satellites = σ.satellites
  := by
  rw [popFromQueue]
  split
  all_goals exact ⟨_, rfl, by simp [Engineer.Leaves], rfl⟩

/-- A step of an engineer leaves the others and the satellites alone.  If the engineer leaves after
it, it has found the queue empty before or finds it empty now. -/
theorem leaves_of_engineer (h : σ.engineer atomicPop e = some σ') :
  ∃ pc, σ'.engineers = Function.update σ.engineers e pc ∧ σ'.satellites = σ.satellites
    ∧ (pc.Leaves → σ'.queueSize = σ.queueSize
      ∧ ((σ.engineers e).Leaves ∨ σ.AtLastTest e ∧ σ.queueSize = 0))
  := by
  rw [engineer] at h
  cases hpc : σ.engineers e with
  | wait =>
      rw [hpc] at h
      obtain ⟨-, h⟩ := Option.ite_none_left_eq_some.mp h
      cases h
      exact ⟨_, rfl, rfl, by simp [Engineer.Leaves]⟩
  | testQueue | testAvailable =>
      rw [hpc] at h
      cases h
      refine ⟨_, rfl, rfl, ?_⟩
      split <;> simp [Engineer.Leaves]
  | pop p =>
      rw [hpc] at h
      cases h
      split
      · obtain ⟨pc, hengineers, hpc, hsatellites⟩ := leaves_of_popFromQueue (σ := σ) (e := e)
        exact ⟨pc, hengineers, hsatellites, fun hleaves => absurd hleaves hpc⟩
      · obtain ⟨pc, hengineers, hpc, hsatellites⟩ := leaves_of_popAccess (σ := σ) (e := e) p
        exact ⟨pc, hengineers, hsatellites, fun hleaves => absurd hleaves hpc⟩
  | handle req =>
      rw [hpc] at h
      obtain ⟨r, -, rfl⟩ := Option.map_eq_some_iff.mp h
      exact ⟨_, rfl, rfl, by simp [Engineer.Leaves]⟩
  | serve r | release r | finish r | free r =>
      rw [hpc] at h
      cases h
      exact ⟨_, rfl, rfl, by simp [Engineer.Leaves]⟩
  | testLast =>
      rw [hpc] at h
      cases h
      refine ⟨_, rfl, rfl, fun hleaves => ⟨rfl, .inr ⟨.inl hpc, ?_⟩⟩⟩
      by_contra hne
      simp [Engineer.Leaves, hne] at hleaves
  | testIdle =>
      rw [hpc] at h
      cases h
      refine ⟨_, rfl, rfl, fun hleaves => ⟨rfl, .inr ⟨.inr hpc, ?_⟩⟩⟩
      by_contra hne
      simp [Engineer.Leaves, hne] at hleaves
  | wake =>
      rw [hpc] at h
      cases h
      exact ⟨_, rfl, rfl, fun _ => ⟨rfl, .inl (.inl rfl)⟩⟩
  | exited =>
      rw [hpc] at h
      cases h

theorem engineers_of_satellite (h : σ.satellite s chance = some σ') :
  σ'.engineers = σ.engineers
  := by
  rw [satellite] at h
  cases hpc : σ.satellites s with
  | create | announce | post | poll =>
      rw [hpc] at h
      cases h
      rfl
  | submit =>
      rw [hpc] at h
      obtain ⟨-, h⟩ := Option.ite_none_left_eq_some.mp h
      obtain ⟨p, -, rfl⟩ := Option.map_eq_some_iff.mp h
      rfl
  | clock =>
      rw [hpc] at h
      dsimp only at h
      split at h
      all_goals
        cases h
        rfl
  | withdraw =>
      rw [hpc] at h
      obtain ⟨⟨seen, found⟩, -, rfl⟩ := Option.map_eq_some_iff.mp h
      cases found with
      | none => rfl
      | some found => rfl
  | exited =>
      rw [hpc] at h
      cases h

theorem withdraw_of_empty (h : σ.queueSize ≤ 0) :
  σ.withdraw s = some (σ.note [])
  := by
  rw [withdraw, Int.toNat_eq_zero.mpr h]
  rfl

/-- Where all have submitted their requests and the queue is empty, a step of a satellite changes
nothing of this. -/
theorem submitted_of_satellite (h : σ.satellite s chance = some σ')
    (hsubmitted : ∀ s, (σ.satellites s).Submitted) (hsize : σ.queueSize ≤ 0) :
  σ'.queueSize = σ.queueSize ∧ ∀ s, (σ'.satellites s).Submitted
  := by
  have hupdate : ∀ {pc : Satellite}, pc.Submitted →
      ∀ s', (Function.update σ.satellites s pc s').Submitted := by
    intro pc hpc s'
    rcases eq_or_ne s' s with rfl | hne
    · rwa [Function.update_self]
    · rw [Function.update_of_ne hne]
      exact hsubmitted s'
  have hs := hsubmitted s
  rw [satellite] at h
  cases hpc : σ.satellites s with
  | create => exact absurd hpc hs.1
  | announce => exact absurd hpc hs.2.1
  | submit => exact absurd hpc hs.2.2
  | post =>
      rw [hpc] at h
      cases h
      exact ⟨rfl, hupdate (by simp [Satellite.Submitted])⟩
  | poll =>
      rw [hpc] at h
      cases h
      refine ⟨rfl, hupdate ?_⟩
      split <;> simp [Satellite.Submitted]
  | clock =>
      rw [hpc] at h
      dsimp only at h
      split at h
      all_goals
        cases h
        exact ⟨rfl, hupdate (by simp [Satellite.Submitted])⟩
  | withdraw =>
      rw [hpc] at h
      dsimp only at h
      rw [withdraw_of_empty (by exact hsize)] at h
      cases h
      exact ⟨rfl, hupdate (by simp [Satellite.Submitted])⟩
  | exited =>
      rw [hpc] at h
      cases h

/-! ### Runs -/

/-- Where all engineers leave, the queue is empty and will be so. -/
def Settled (σ : State S E) : Prop :=
  (∀ e, (σ.engineers e).Leaves) → σ.queueSize ≤ 0 ∧ ∀ s, (σ.satellites s).Submitted

theorem settled_of_step {a : Action S E} (hσ : σ.Settled) (hlast : σ.LastStays a)
    (h : σ.step atomicPop a = some σ') :
  σ'.Settled
  := by
  intro hleaves
  cases a with
  | satellite s chance =>
      rw [engineers_of_satellite h] at hleaves
      obtain ⟨hsize, hsubmitted⟩ := hσ hleaves
      obtain ⟨hsize', hsubmitted'⟩ := submitted_of_satellite h hsubmitted hsize
      exact ⟨hsize'.trans_le hsize, hsubmitted'⟩
  | engineer e =>
      obtain ⟨pc, hengineers, hsatellites, hpc⟩ := leaves_of_engineer h
      have hothers : ∀ e', e' ≠ e → (σ.engineers e').Leaves := by
        intro e' hne
        have he' := hleaves e'
        rwa [hengineers, Function.update_of_ne hne] at he'
      have he := hleaves e
      rw [hengineers, Function.update_self] at he
      obtain ⟨hsize, hall | ⟨htest, hempty⟩⟩ := hpc he
      · rw [hsize, hsatellites]
        apply hσ
        intro e'
        rcases eq_or_ne e' e with rfl | hne
        · exact hall
        · exact hothers e' hne
      · rw [hsize, hsatellites]
        exact ⟨hempty.le, hlast htest hempty hothers⟩

/-- As long as the last engineer stays until all requests have been submitted, no work is left. -/
theorem not_workLeft (hE : 0 < E) (h : Reachable atomicPop LastStays σ) :
  ¬ σ.WorkLeft
  := by
  have hsettled : σ.Settled := by
    apply h.invariant _ fun σ a σ' hσ hlast hstep => settled_of_step hσ hlast hstep
    intro heap hleaves
    have hfirst := hleaves ⟨0, hE⟩
    simp [initial, Engineer.Leaves] at hfirst
  rintro ⟨hexited, s, hs⟩
  obtain ⟨hsize, hsubmitted⟩ := hsettled fun e => .inr (hexited e)
  rcases hs with ⟨i, hi, -⟩ | hs
  · omega
  · exact hs (hsubmitted s)

/-- A satellite is handled by an engineer and finds out, and the engineer tests the queue. -/
def oneServed (s : Fin S) (e : Fin E) : List (Action S E) :=
  List.replicate 4 (early s) ++ List.replicate 6 (.engineer e) ++ [early s]
    ++ List.replicate 4 (.engineer e)

/-- The only satellite is handled, and all engineers leave. -/
theorem not_workLeft_oneServed :
  ∃ σ : State 1 3, Reachable true LastStays σ ∧ (∀ e, σ.engineers e = .exited) ∧ ¬ σ.WorkLeft
  := by
  have hrun : ((run true LastStays (initial blank) (oneServed 0 0 ++ .engineer 0 ::
      (List.replicate 3 (.engineer 1) ++ List.replicate 3 (.engineer 2)))).map fun σ : State 1 3 =>
        decide (∀ e, σ.engineers e = .exited)) = some true := by decide
  obtain ⟨σ, hσ, hpcs⟩ := Option.map_eq_some_iff.mp hrun
  exact ⟨σ, .of_run hσ, of_decide_eq_true hpcs, not_workLeft (by decide) (.of_run hσ)⟩

/-- All engineers leave after the first request, and the second one is still to be submitted. -/
theorem workLeft_oneServed :
  ∃ σ : State 2 3, Reachable true (fun _ _ => True) σ ∧ σ.WorkLeft
  := by
  have hrun : ((run true (fun _ _ => True) (initial blank) (oneServed 0 0 ++ .engineer 0 ::
      (List.replicate 3 (.engineer 1) ++ List.replicate 3 (.engineer 2)))).map fun σ : State 2 3 =>
        (decide (∀ e, σ.engineers e = .exited), σ.satellites 1)) = some (true, .create) := by decide
  obtain ⟨σ, hσ, hpcs⟩ := Option.map_eq_some_iff.mp hrun
  obtain ⟨hexited, hcreate⟩ := Prod.mk.inj hpcs
  exact ⟨σ, .of_run hσ, of_decide_eq_true hexited, 1, .inr fun hs => hs.1 hcreate⟩

end State

end GroundStation
