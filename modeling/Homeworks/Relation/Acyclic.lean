import Mathlib.Data.Fintype.Card
import Mathlib.Data.Set.Finite.List
import Mathlib.Logic.Relation

/-!
# Acyclic relations and loops

A relation without cycles that leads to finitely many elements is well founded.

A loop goes on while a condition holds of its state; then it takes the next state, if there is one.
-/

namespace Relation

variable {α : Type*} {R : α → α → Prop}

theorem acc_of_acyclic {nodes : List α} (hnodes : ∀ a b, R a b → b ∈ nodes)
    (hacyclic : ∀ a, ¬ TransGen R a a) {a : α} (ha : a ∈ nodes) :
  Acc (fun b a => R a b) a
  := by
  have hfinite : Finite {a // a ∈ nodes} := nodes.finite_toSet
  have : IsTrans {a // a ∈ nodes} fun b a => TransGen R a.1 b.1 := ⟨fun _ _ _ h h' => h'.trans h⟩
  have : Std.Irrefl fun b a : {a // a ∈ nodes} => TransGen R a.1 b.1 := ⟨fun a h => hacyclic a.1 h⟩
  have hwf := Finite.wellFounded_of_trans_of_irrefl fun b a : {a // a ∈ nodes} =>
    TransGen R a.1 b.1
  induction h : (⟨a, ha⟩ : {a // a ∈ nodes}) using hwf.induction generalizing a with
  | h node ih =>
      refine ⟨a, fun b hb => ?_⟩
      exact ih ⟨b, hnodes a b hb⟩ (h ▸ .single hb) (hnodes a b hb) rfl

theorem wellFounded_of_acyclic (nodes : List α) (hnodes : ∀ a b, R a b → b ∈ nodes)
    (hacyclic : ∀ a, ¬ TransGen R a a) :
  WellFounded fun b a => R a b
  := ⟨fun a => ⟨a, fun b hb => acc_of_acyclic hnodes hacyclic (hnodes a b hb)⟩⟩

end Relation

/-! ### Loops -/

namespace Relation

universe u

variable {α : Type u} {goes goes' : α → Prop} {next next' : α → Option α} {a : α} {states : List α}

/-- The states for which the body of the loop runs, from the first one on. -/
inductive Visits (goes : α → Prop) (next : α → Option α) : α → List α → Prop where
  | stop {a : α} (h : ¬ goes a) : Visits goes next a []
  | body {a b : α} {states : List α} (h : goes a) (hnext : next a = some b)
      (hrest : Visits goes next b states) : Visits goes next a (a :: states)

namespace Visits

theorem forall_goes (h : Visits goes next a states) :
  ∀ b ∈ states, goes b
  := by
  induction h with
  | stop h => exact fun b hb => absurd hb List.not_mem_nil
  | body h _ _ ih => exact List.forall_mem_cons.mpr ⟨h, ih⟩

theorem mono (hgoes : ∀ a, goes a ↔ goes' a) (hnext : ∀ a b, next a = some b → next' a = some b)
    (h : Visits goes next a states) :
  Visits goes' next' a states
  := by
  induction h with
  | stop h => exact .stop (mt (hgoes _).mpr h)
  | body h hb _ ih => exact .body ((hgoes _).mp h) (hnext _ _ hb) ih

theorem nil_iff :
  Visits goes next a [] ↔ ¬ goes a
  := by
  constructor
  · rintro ⟨h⟩
    exact h
  · exact .stop

theorem eq_nil (h : Visits goes next a states) (hgoes : ¬ goes a) :
  states = []
  := by
  cases h with
  | stop h => rfl
  | body h _ _ => exact absurd h hgoes

/-- A loop whose condition goes on holding does not end. -/
theorem not_goes (hstep : ∀ a b, goes a → next a = some b → goes b)
    (h : Visits goes next a states) :
  ¬ goes a
  := by
  induction h with
  | stop h => exact h
  | body h hnext _ ih => exact fun _ => ih (hstep _ _ h hnext)

/-- A loop runs for a state that it cannot pass. -/
theorem mem_of_step {P : α → Prop} {b : α} (hgoes : ∀ a, P a → goes a)
    (hstep : ∀ a c, P a → a ≠ b → next a = some c → P c) (h : Visits goes next a states)
    (ha : P a) :
  b ∈ states
  := by
  induction h with
  | stop h => exact absurd (hgoes _ ha) h
  | @body a c states h hnext _ ih =>
      by_cases heq : a = b
      · exact heq ▸ List.mem_cons_self
      · exact List.mem_cons_of_mem _ (ih (hstep _ _ ha heq hnext))

end Visits

end Relation
