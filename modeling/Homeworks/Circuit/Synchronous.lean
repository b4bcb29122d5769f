import Homeworks.Relation.Acyclic

/-!
# Synchronous circuits

The nodes of a circuit are inputs, gates and flip-flops.  In a cycle every flip-flop takes the
exclusive or of its stored value and its input, and delivers it.

A walk evaluates a node from its sources, the second source of a conjunction or a disjunction only
when the first does not decide.  It visits every flip-flop that the node depends on exactly once if
there is none behind a second source.
-/

open Relation

namespace Circuit

/-- A node with its sources. -/
inductive Node (α : Type) where
  | input
  | wire (a : α)
  | and (a b : α)
  | or (a b : α)
  | not (a : α)
  | flipflop (a : α)
  deriving DecidableEq, Repr

variable {α : Type}

def Node.sources : Node α → List α
  | input => []
  | wire a | not a | flipflop a => [a]
  | and a b | or a b => [a, b]

/-- The value of a node, from its bit if it is an input, its stored value, and the values of its
sources. -/
def Node.value (bit stored : Bool) (val : α → Bool) : Node α → Bool
  | input => bit
  | wire a => val a
  | and a b => val a && val b
  | or a b => val a || val b
  | not a => !val a
  | flipflop a => xor stored (val a)

theorem Node.value_congr {bit stored : Bool} {val val' : α → Bool} {node : Node α}
    (h : ∀ a ∈ node.sources, val a = val' a) :
  node.value bit stored val = node.value bit stored val'
  := by
  cases node with
  | input => rfl
  | wire a => exact h a List.mem_cons_self
  | not a => rw [value, value, h a List.mem_cons_self]
  | flipflop a => rw [value, value, h a List.mem_cons_self]
  | and a b | or a b =>
      rw [value, value, h a List.mem_cons_self, h b (List.mem_cons_of_mem _ List.mem_cons_self)]

/-- The nodes of a circuit by their names. -/
abbrev Netlist (α : Type) := α → Option (Node α)

/-- The second node is a source of the first. -/
def Feeds (c : Netlist α) (a b : α) : Prop := ∃ node, c a = some node ∧ b ∈ node.sources

/-- The values of all nodes in a cycle. -/
def IsSynchronous (c : Netlist α) (bit stored val : α → Bool) : Prop :=
  ∀ a node, c a = some node → val a = node.value (bit a) (stored a) val

/-- The nodes that are visited in the evaluation of a node, in this order. -/
inductive Walk (c : Netlist α) (val : α → Bool) : α → List α → Prop where
  | input {a} : c a = some .input → Walk c val a [a]
  | wire {a b l} : c a = some (.wire b) → Walk c val b l → Walk c val a (a :: l)
  | not {a b l} : c a = some (.not b) → Walk c val b l → Walk c val a (a :: l)
  | flipflop {a b l} : c a = some (.flipflop b) → Walk c val b l → Walk c val a (a :: l)
  | and_false {a b d l} : c a = some (.and b d) → val b = false → Walk c val b l →
    Walk c val a (a :: l)
  | and_true {a b d l l'} : c a = some (.and b d) → val b = true → Walk c val b l →
    Walk c val d l' → Walk c val a (a :: (l ++ l'))
  | or_true {a b d l} : c a = some (.or b d) → val b = true → Walk c val b l →
    Walk c val a (a :: l)
  | or_false {a b d l l'} : c a = some (.or b d) → val b = false → Walk c val b l →
    Walk c val d l' → Walk c val a (a :: (l ++ l'))

variable {c : Netlist α} {bit stored val : α → Bool} {a b : α} {l : List α}

/-- In a circuit without cycles the values exist. -/
theorem exists_synchronous (h : WellFounded fun b a => Feeds c a b) (bit stored : α → Bool) :
  ∃ val, IsSynchronous c bit stored val
  := by
  classical
  let step (a : α) (rec : ∀ b, Feeds c a b → Bool) : Bool :=
    (c a).elim false fun node =>
      node.value (bit a) (stored a) fun b => if hb : Feeds c a b then rec b hb else false
  use h.fix step
  intro a node hnode
  rw [h.fix_eq]
  change (c a).elim false _ = _
  rw [hnode, Option.elim_some]
  exact Node.value_congr fun b hb => dif_pos ⟨node, hnode, hb⟩

/-- In a circuit without cycles every node can be evaluated. -/
theorem exists_walk (h : WellFounded fun b a => Feeds c a b)
    (hclosed : ∀ a b, Feeds c a b → (c b).isSome = true) (val : α → Bool)
    (ha : (c a).isSome = true) :
  ∃ l, Walk c val a l
  := by
  induction a using h.induction with
  | h a ih =>
      obtain ⟨node, hnode⟩ := Option.isSome_iff_exists.mp ha
      have hsource : ∀ b ∈ node.sources, ∃ l, Walk c val b l := fun b hb =>
        ih b ⟨node, hnode, hb⟩ (hclosed a b ⟨node, hnode, hb⟩)
      cases node with
      | input => exact ⟨_, .input hnode⟩
      | wire b =>
          obtain ⟨l, hl⟩ := hsource b List.mem_cons_self
          exact ⟨_, .wire hnode hl⟩
      | not b =>
          obtain ⟨l, hl⟩ := hsource b List.mem_cons_self
          exact ⟨_, .not hnode hl⟩
      | flipflop b =>
          obtain ⟨l, hl⟩ := hsource b List.mem_cons_self
          exact ⟨_, .flipflop hnode hl⟩
      | and b d =>
          obtain ⟨l, hl⟩ := hsource b List.mem_cons_self
          obtain ⟨l', hl'⟩ := hsource d (List.mem_cons_of_mem _ List.mem_cons_self)
          cases hb : val b with
          | false => exact ⟨_, .and_false hnode hb hl⟩
          | true => exact ⟨_, .and_true hnode hb hl hl'⟩
      | or b d =>
          obtain ⟨l, hl⟩ := hsource b List.mem_cons_self
          obtain ⟨l', hl'⟩ := hsource d (List.mem_cons_of_mem _ List.mem_cons_self)
          cases hb : val b with
          | false => exact ⟨_, .or_false hnode hb hl hl'⟩
          | true => exact ⟨_, .or_true hnode hb hl⟩

/-- A walk visits nodes that its start depends on. -/
theorem Walk.reachable (h : Walk c val a l) :
  ∀ b ∈ l, ReflTransGen (Feeds c) a b
  := by
  induction h with
  | input hnode =>
      intro b hb
      rw [List.mem_singleton.mp hb]
  | wire hnode _ ih | not hnode _ ih | flipflop hnode _ ih | and_false hnode _ _ ih
    | or_true hnode _ _ ih =>
      intro b hb
      rcases List.mem_cons.mp hb with rfl | hb
      · exact .refl
      · exact .head ⟨_, hnode, List.mem_cons_self⟩ (ih b hb)
  | and_true hnode _ _ _ ih ih' | or_false hnode _ _ _ ih ih' =>
      intro b hb
      rcases List.mem_cons.mp hb with rfl | hb
      · exact .refl
      · rcases List.mem_append.mp hb with hb | hb
        · exact .head ⟨_, hnode, List.mem_cons_self⟩ (ih b hb)
        · exact .head ⟨_, hnode, List.mem_cons_of_mem _ List.mem_cons_self⟩ (ih' b hb)

/-! ### Cycle after cycle -/

/-- The values in successive cycles, each cycle with the values that the last one has left. -/
inductive Run (c : Netlist α) : (α → Bool) → List (α → Bool) → List (α → Bool) → Prop where
  | nil (stored : α → Bool) : Run c stored [] []
  | cons {stored bit val : α → Bool} {bits vals : List (α → Bool)}
    (cycle : IsSynchronous c bit stored val) (rest : Run c val bits vals) :
    Run c stored (bit :: bits) (val :: vals)

theorem exists_run (h : WellFounded fun b a => Feeds c a b) (stored : α → Bool)
    (bits : List (α → Bool)) :
  ∃ vals, Run c stored bits vals
  := by
  induction bits generalizing stored with
  | nil => exact ⟨[], .nil stored⟩
  | cons bit bits ih =>
      obtain ⟨val, hval⟩ := exists_synchronous h bit stored
      obtain ⟨vals, hvals⟩ := ih val
      exact ⟨val :: vals, .cons hval hvals⟩

theorem Run.synchronous {bits vals : List (α → Bool)} (h : Run c stored bits vals) :
  ∀ val ∈ vals, ∃ bit stored, IsSynchronous c bit stored val
  := by
  induction h with
  | nil _ => exact fun val hval => absurd hval List.not_mem_nil
  | cons cycle _ ih => exact List.forall_mem_cons.mpr ⟨⟨_, _, cycle⟩, ih⟩

/-- The node depends on the flip-flop. -/
def Depends (c : Netlist α) (a f : α) : Prop :=
  (∃ b, c f = some (.flipflop b)) ∧ ReflTransGen (Feeds c) a f

section

variable [DecidableEq α]

/-- The walk from a node visits every flip-flop that the node depends on exactly once. -/
def VisitsOnce (c : Netlist α) (val : α → Bool) (a : α) : Prop :=
  ∃ l, Walk c val a l ∧ ∀ f, Depends c a f → l.count f = 1

variable {f : α}

omit [DecidableEq α] in
theorem Depends.source {node : Node α} (h : Depends c a f) (hnode : c a = some node)
    (hne : ∀ b, node ≠ .flipflop b) :
  a ≠ f ∧ ∃ b ∈ node.sources, Depends c b f
  := by
  obtain ⟨⟨b, hb⟩, hpath⟩ := h
  rcases ReflTransGen.cases_head hpath with rfl | ⟨d, ⟨node', hnode', hd⟩, hpath⟩
  · rw [hnode] at hb
    exact absurd (Option.some_inj.mp hb) (hne b)
  · cases hnode.symm.trans hnode'
    refine ⟨?_, d, hd, ⟨b, hb⟩, hpath⟩
    rintro rfl
    rw [hnode] at hb
    exact hne b (Option.some_inj.mp hb)

theorem VisitsOnce.wire (h : VisitsOnce c val a) (hnode : c a = some (.wire b)) :
  VisitsOnce c val b
  := by
  obtain ⟨l, hwalk, honce⟩ := h
  cases hwalk with
  | wire hnode' hl =>
      cases hnode.symm.trans hnode'
      refine ⟨_, hl, ?_⟩
      intro f hf
      obtain ⟨⟨d, hd⟩, hpath⟩ := hf
      have hne : a ≠ f := by
        rintro rfl
        cases hnode.symm.trans hd
      have hcount := honce f ⟨⟨d, hd⟩, .head ⟨_, hnode, List.mem_cons_self⟩ hpath⟩
      rwa [List.count_cons_of_ne hne] at hcount
  | _ => simp_all

/-- A walk does not visit the flip-flops that its start does not depend on. -/
theorem Walk.count_eq_zero {b : α} (h : Walk c val a l) (hf : c f = some (.flipflop b))
    (hdepends : ¬ Depends c a f) :
  l.count f = 0
  := by
  apply List.count_eq_zero_of_not_mem
  intro hmem
  exact hdepends ⟨⟨b, hf⟩, h.reachable f hmem⟩

/-- If there is no flip-flop behind a second source, every walk visits each flip-flop once. -/
theorem Walk.visitsOnce (hacyclic : ∀ a, ¬ TransGen (Feeds c) a a)
    (hsecond : ∀ a b d f, c a = some (.and b d) ∨ c a = some (.or b d) → ¬ Depends c d f)
    (h : Walk c val a l) (hf : Depends c a f) :
  l.count f = 1
  := by
  obtain ⟨g, hg⟩ := hf.1
  induction h with
  | input hnode =>
      obtain ⟨-, b, hb, -⟩ := hf.source hnode nofun
      cases hb
  | wire hnode _ ih | not hnode _ ih =>
      obtain ⟨hne, b, hb, hbf⟩ := hf.source hnode nofun
      rw [List.mem_singleton.mp hb] at hbf
      rw [List.count_cons_of_ne hne, ih hbf]
  | flipflop hnode hl ih =>
      rename_i a b l
      by_cases hne : a = f
      · rw [hne, List.count_cons_self, List.count_eq_zero_of_not_mem]
        intro hmem
        rw [hne] at hnode
        exact hacyclic f (TransGen.head' ⟨_, hnode, List.mem_cons_self⟩ (hl.reachable f hmem))
      · rw [List.count_cons_of_ne hne, ih]
        rcases ReflTransGen.cases_head hf.2 with heq | ⟨d, ⟨node, hnode', hd⟩, hpath⟩
        · exact absurd heq hne
        · cases hnode.symm.trans hnode'
          rw [List.mem_singleton.mp hd] at hpath
          exact ⟨⟨g, hg⟩, hpath⟩
  | and_false hnode _ _ ih | or_true hnode _ _ ih =>
      obtain ⟨hne, b, hb, hbf⟩ := hf.source hnode nofun
      rw [List.count_cons_of_ne hne, ih]
      rcases List.mem_cons.mp hb with rfl | hb
      · exact hbf
      · rw [List.mem_singleton.mp hb] at hbf
        exact absurd hbf (hsecond _ _ _ f (by first | exact .inl hnode | exact .inr hnode))
  | and_true hnode _ _ hl' ih _ | or_false hnode _ _ hl' ih _ =>
      obtain ⟨hne, b, hb, hbf⟩ := hf.source hnode nofun
      have hd := hsecond _ _ _ f (by first | exact .inl hnode | exact .inr hnode)
      rw [List.count_cons_of_ne hne, List.count_append, hl'.count_eq_zero hg hd, ih]
      rcases List.mem_cons.mp hb with rfl | hb
      · exact hbf
      · rw [List.mem_singleton.mp hb] at hbf
        exact absurd hbf hd

end

end Circuit
