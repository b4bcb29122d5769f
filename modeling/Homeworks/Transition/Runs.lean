import Mathlib.Computability.StateTransition
import Mathlib.Data.List.Infix
import Mathlib.Logic.Relation

/-!
# Runs

A system is a relation between a state and the next, and a run is a sequence of steps.

A deterministic system is a partial step function `f : σ → Option σ`, and
`StateTransition.Reaches f` is its reachability relation.  `Leads f R P s` says that the run
from `s` arrives after finitely many steps at a state satisfying `P`, every step on the way
being related by `R`.  `Leads` composes, is monotone, and is carried along a simulation.  An
invariant that holds at checkpoints only, with a `Leads` from each checkpoint to the next, gives a
property of all reachable states.

A partial step function may have a log, to which every step appends the events observed in it.  On
the other side stands a relation whose steps are labelled with events, and which is functional.  If
the runs of a system are observed as steps of the relation, the logs of any two such systems that
start alike are prefixes of one another.
-/

open StateTransition Relation

namespace Transition

variable {σ : Type*} {r : σ → σ → Prop} {I : σ → Prop} {s t : σ}

/-- What every step preserves holds after every run from a state where it holds. -/
theorem invariant (step : ∀ s t, I s → r s t → I t) (h : ReflTransGen r s t) (hs : I s) :
  I t
  := by
  induction h with
  | refl => exact hs
  | tail _ hst ih => apply step _ _ ih hst

end Transition

/-! ### Deterministic systems -/

namespace Transition

variable {σ τ : Type*} {f : σ → Option σ} {g : τ → Option τ}

/-- The run from a state arrives at a state satisfying `P` after finitely many steps,
each of them related by `R`. -/
inductive Leads (f : σ → Option σ) (R : σ → σ → Prop) (P : σ → Prop) : σ → Prop where
  | here {s : σ} : P s → Leads f R P s
  | next {s t : σ} : f s = some t → R s t → Leads f R P t → Leads f R P s

theorem Reaches.head {s t u : σ} (hst : f s = some t) (h : Reaches f t u) :
  Reaches f s u
  := ReflTransGen.head hst h

/-- A run whose steps satisfy more is a run. -/
theorem Reaches.of_path {r : σ → σ → Prop} {s t : σ} (hr : ∀ s t, r s t → f s = some t)
    (h : ReflTransGen r s t) :
  Reaches f s t
  := by
  induction h with
  | refl => apply ReflTransGen.refl
  | tail _ hst ih => apply ReflTransGen.tail ih (hr _ _ hst)

namespace Leads

variable {R R' : σ → σ → Prop} {P P' : σ → Prop} {s t : σ}

/-- If every arrival at `P` continues to an arrival at `P'`, so does the whole run. -/
theorem trans (h : Leads f R P s) (k : ∀ t, P t → Leads f R P' t) :
  Leads f R P' s
  := by
  induction h with
  | here hP => apply k _ hP
  | next hf hR _ ih => apply next hf hR ih

theorem mono (h : Leads f R P s) (hR : ∀ s t, R s t → R' s t) (hP : ∀ s, P s → P' s) :
  Leads f R' P' s
  := by
  induction h with
  | here hs => apply here (hP _ hs)
  | next hf hst _ ih => apply next hf (hR _ _ hst) ih

/-- What the steps on the way preserve holds all the way, and on arrival. -/
theorem stable {I : σ → Prop} (step : ∀ s t, I s → f s = some t → R s t → I t)
    (h : Leads f R P s) (hs : I s) :
  Leads f (fun s t => R s t ∧ I s) (fun t => P t ∧ I t) s
  := by
  induction h with
  | here hP => apply here ⟨hP, hs⟩
  | next hf hR _ ih => apply next hf ⟨hR, hs⟩ (ih (step _ _ hs hf hR))

/-- The run itself. -/
theorem path (h : Leads f R P s) :
  ∃ t, ReflTransGen (fun s t => f s = some t ∧ R s t) s t ∧ P t
  := by
  induction h with
  | here hP => exact ⟨_, ReflTransGen.refl, hP⟩
  | next hf hR _ ih =>
      obtain ⟨t, ht, hP⟩ := ih
      use t, ReflTransGen.head ⟨hf, hR⟩ ht

theorem reaches (h : Leads f R P s) :
  ∃ t, Reaches f s t ∧ P t
  := by
  obtain ⟨t, ht, hP⟩ := h.path
  use t, Reaches.of_path (fun _ _ hst => hst.1) ht

/-- A path from the start of a run ends before the run has arrived, or goes on from where it
does. -/
theorem split {Q : σ → Prop} (h : Leads f R P s)
    (hpath : ReflTransGen (fun a b => f a = some b ∧ Q a) s t) :
  (∃ u, R t u)
    ∨ Leads f R (fun u => P u ∧ ReflTransGen (fun a b => f a = some b ∧ Q a) u t) s
  := by
  induction h with
  | here hP => exact .inr (.here ⟨hP, hpath⟩)
  | next hf hR _ ih =>
      rcases ReflTransGen.cases_head hpath with rfl | ⟨v, ⟨hv, -⟩, hpath⟩
      · exact .inl ⟨_, hR⟩
      · cases hf.symm.trans hv
        exact (ih hpath).imp_right (.next hf hR)

/-- Along a simulation of `g` by `f`, an arrival of `g` is an arrival of `f`. -/
theorem simulate {rel : σ → τ → Prop} {S : τ → τ → Prop} {Q : τ → Prop} {b : τ}
    (step : ∀ s b b', rel s b → g b = some b' → S b b' →
      ∃ t, f s = some t ∧ R s t ∧ rel t b')
    (h : Leads g S Q b) (hs : rel s b) :
  Leads f R (fun t => ∃ b', rel t b' ∧ Q b') s
  := by
  induction h generalizing s with
  | here hQ => exact here ⟨_, hs, hQ⟩
  | next hg hS _ ih =>
      obtain ⟨t, hf, hR, ht⟩ := step _ _ _ hs hg hS
      apply next hf hR (ih ht)

end Leads

/-- A property preserved by every step holds in every state reachable from one where it
holds. -/
theorem Reaches.invariant {I : σ → Prop} (step : ∀ s t, I s → f s = some t → I t)
    {s t : σ} (h : Reaches f s t) (hs : I s) :
  I t
  := by
  induction h with
  | refl => exact hs
  | tail _ hst ih => apply step _ _ ih hst

section

variable {R : σ → σ → Prop} {C : σ → Prop}
  (hC : ∀ s t, C s → f s = some t → R s t ∧ Leads f R C t) {s t u : σ} (hs : C s)

include hC hs

/-- If every checkpoint `C` leads to a checkpoint after its first step, so does every state
reachable from a checkpoint. -/
theorem Reaches.leads (h : Reaches f s t) :
  Leads f R C t
  := by
  apply Reaches.invariant (I := Leads f R C) _ h (Leads.here hs)
  intro s t h hst
  cases h with
  | here hs => exact (hC s t hs hst).2
  | next hf _ h =>
      cases hf.symm.trans hst
      apply h

/-- If moreover the first steps are related by `R`, so is every step out of a state
reachable from a checkpoint. -/
theorem Reaches.checkpoint (h : Reaches f s t) (htu : f t = some u) :
  R t u
  := by
  cases Reaches.leads hC hs h with
  | here ht => exact (hC t u ht htu).1
  | next hf hR _ =>
      cases hf.symm.trans htu
      apply hR

end

end Transition

/-! ### Traces -/

namespace Transition

variable {σ τ ε : Type*}

/-- The step function that appends the events of each step to a log. -/
def logged (f : σ → Option σ) (event : σ → σ → List ε) (x : σ × List ε) : Option (σ × List ε) :=
  (f x.1).map fun t => (t, x.2 ++ event x.1 t)

/-- A run whose steps have no events leaves the log as it is. -/
theorem Leads.logged {f : σ → Option σ} {R : σ → σ → Prop} {P : σ → Prop} {s : σ}
    (h : Leads f R P s) :
  ∃ t, P t ∧ ∀ event : σ → σ → List ε, (∀ a b, R a b → event a b = []) →
    ∀ l, Reaches (logged f event) (s, l) (t, l)
  := by
  obtain ⟨t, hpath, hP⟩ := h.path
  use t, hP
  clear hP
  intro event hsilent l
  induction hpath with
  | refl => exact ReflTransGen.refl
  | tail _ hstep ih =>
      apply ih.tail
      change (f _).map _ = _
      rw [hstep.1, Option.map_some, hsilent _ _ hstep.2, List.append_nil]

/-- A step with its events. -/
theorem Reaches.logged_head {f : σ → Option σ} {event : σ → σ → List ε} {s t : σ} {l : List ε}
    {x : σ × List ε} (hst : f s = some t) (h : Reaches (logged f event) (t, l ++ event s t) x) :
  Reaches (logged f event) (s, l) x
  := by
  apply Reaches.head _ h
  change (f s).map _ = _
  rw [hst, Option.map_some]

/-- If a run with the log `l` has come to where nothing more happens, all logs are prefixes of
`l`. -/
theorem Reaches.logged_prefix {f : σ → Option σ} {event : σ → σ → List ε} {I : σ → Prop}
    (step : ∀ s t, I s → f s = some t → I t ∧ event s t = []) {x y z : σ × List ε}
    (hy : Reaches (logged f event) x y) (hI : I y.1) (hz : Reaches (logged f event) x z) :
  z.2 <+: y.2
  := by
  obtain h | h := reaches_total hy hz
  · have hend : I z.1 ∧ z.2 = y.2 := by
      apply Reaches.invariant (I := fun z : σ × List ε => I z.1 ∧ z.2 = y.2) _ h ⟨hI, rfl⟩
      rintro ⟨s, l⟩ u ⟨hs, hl⟩ hstep
      obtain ⟨t, hf, rfl⟩ := Option.map_eq_some_iff.mp hstep
      obtain ⟨ht, hevent⟩ := step s t hs hf
      use ht
      dsimp only at hl ⊢
      rw [hevent, List.append_nil, hl]
    rw [hend.2]
  · apply Reaches.invariant (I := fun u : σ × List ε => z.2 <+: u.2) _ h (List.prefix_refl _)
    rintro ⟨s, l⟩ u hs hstep
    obtain ⟨t, hf, rfl⟩ := Option.map_eq_some_iff.mp hstep
    apply hs.trans (List.prefix_append _ _)

/-- A sequence of labelled steps, with all its labels. -/
inductive Trace (r : τ → List ε → τ → Prop) : τ → List ε → τ → Prop where
  | nil (a : τ) : Trace r a [] a
  | cons {a b c : τ} {l l' : List ε} (step : r a l b) (rest : Trace r b l' c) :
    Trace r a (l ++ l') c

/-- The labels and the result of a step are determined. -/
def Functional (r : τ → List ε → τ → Prop) : Prop :=
  ∀ a l b l' b', r a l b → r a l' b' → l = l' ∧ b = b'

namespace Trace

variable {r : τ → List ε → τ → Prop} {a b b' c : τ} {l l' : List ε}

theorem single (h : r a l b) :
  Trace r a l b
  := by
  have h' := cons h (nil b)
  rw [List.append_nil] at h'
  exact h'

theorem trans (h : Trace r a l b) (h' : Trace r b l' c) :
  Trace r a (l ++ l') c
  := by
  induction h with
  | nil => exact h'
  | cons step _ ih =>
      rw [List.append_assoc]
      apply cons step (ih h')

/-- What every step preserves of the state and of all labels so far holds after every
sequence of steps. -/
theorem invariant {I : τ → List ε → Prop} (step : ∀ b l l' c, I b l → r b l' c → I c (l ++ l'))
    (h : Trace r a l b) (h₀ : I a []) :
  I b l
  := by
  have hall : ∀ l₀, I a l₀ → I b (l₀ ++ l) := by
    clear h₀
    induction h with
    | nil =>
        intro l₀ h
        rw [List.append_nil]
        exact h
    | cons hstep _ ih =>
        intro l₀ h
        rw [← List.append_assoc]
        apply ih _ (step _ _ _ _ h hstep)
  apply hall [] h₀

/-- Two sequences from the same start: the labels of one continue those of the other. -/
theorem comparable (hr : Functional r) (h : Trace r a l b) (h' : Trace r a l' b') :
  l <+: l' ∨ l' <+: l
  := by
  induction h generalizing l' with
  | nil => exact .inl l'.nil_prefix
  | cons step _ ih =>
      cases h' with
      | nil => exact .inr (List.nil_prefix)
      | cons step' rest' =>
          obtain ⟨rfl, rfl⟩ := hr _ _ _ _ _ step step'
          simp only [List.prefix_append_right_inj]
          apply ih rest'

end Trace

section

variable {f : σ → Option σ} {event : σ → σ → List ε} {r : τ → List ε → τ → Prop}
  {V : σ → τ → Prop} {s₀ : σ} {a₀ : τ}

/-- If from every state viewed as `a` the run leads, after a step and silently, to a state
viewed as what `a` becomes by the events of the step, then every log is that of a sequence
of labelled steps. -/
theorem Trace.of_logged
    (hV : ∀ s t a, Reaches f s₀ s → V s a → f s = some t →
      Leads f (fun s t => event s t = []) (fun u => ∃ b, V u b ∧ Trace r a (event s t) b) t)
    (h₀ : V s₀ a₀) {x : σ × List ε} (h : Reaches (logged f event) (s₀, []) x) :
  ∃ b, Trace r a₀ x.2 b
  := by
  have hlead : Reaches f s₀ x.1 ∧ Leads f (fun s t => event s t = [])
      (fun u => ∃ b, V u b ∧ Trace r a₀ x.2 b) x.1 := by
    apply Reaches.invariant (I := fun x : σ × List ε => Reaches f s₀ x.1 ∧
      Leads f (fun s t => event s t = []) (fun u => ∃ b, V u b ∧ Trace r a₀ x.2 b) x.1) _ h
    · exact ⟨Relation.ReflTransGen.refl, .here ⟨a₀, h₀, .nil a₀⟩⟩
    · rintro ⟨s, l⟩ y ⟨hreach, hlead⟩ hstep
      obtain ⟨t, hf, rfl⟩ := Option.map_eq_some_iff.mp hstep
      use hreach.tail hf
      cases hlead with
      | here hs =>
          obtain ⟨a, hs, htrace⟩ := hs
          apply (hV s t a hreach hs hf).mono fun _ _ h => h
          rintro u ⟨b, hu, hb⟩
          use b, hu, htrace.trans hb
      | next hf' hsilent hlead =>
          cases hf.symm.trans hf'
          dsimp only at hlead ⊢
          rw [hsilent, List.append_nil]
          exact hlead
  obtain ⟨-, -, b, -, hb⟩ := hlead.2.reaches
  use b

end

end Transition
