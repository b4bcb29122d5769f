import Homeworks.Circuit.Synchronous
import Homeworks.LogicCircuit.Evaluation
import Mathlib.Data.Nat.Count

/-!
# The simulator and synchronous circuits

The gates of a circuit file are the nodes of a circuit.  `evaluate` follows the walk from a gate:
it returns the value of the gate in the cycle, and updates the flip-flops that it visits.  In the
next line the flip-flops show the values of the cycle if each of them has been visited once.
-/

namespace LogicCircuit

open Circuit Relation

/-! ### The circuit of an array of gates -/

/-- The node that a gate is, when its inputs are connected. -/
def Gate.node (gate : Gate) : Option (Node ℕ) :=
  match gate.type, gate.inp1, gate.inp2 with
  | some .INPUT, _, _ => some .input
  | some .OUTPUT, some a, _ => some (.wire a)
  | some .AND, some a, some b => some (.and a b)
  | some .OR, some a, some b => some (.or a b)
  | some .NOT, some a, _ => some (.not a)
  | some .FLIPFLOP, some a, _ => some (.flipflop a)
  | _, _, _ => none

def netlist (gateArr : List Gate) : Netlist ℕ := fun i => gateArr[i]?.bind Gate.node

/-- A bit as an `int`. -/
def value (b : Bool) : ℤ := if b then 1 else 0

variable {c : Netlist ℕ} {bit stored s s' val : ℕ → Bool} {gateArr : List Gate} {gate : Gate}
  {a b d f i : ℕ} {l : List ℕ}

theorem exists_gate {node : Node ℕ} (h : netlist gateArr i = some node) :
  ∃ gate, gateArr[i]? = some gate ∧ gate.node = some node
  := Option.bind_eq_some_iff.mp h

/-- What the node of a gate tells about the gate. -/
theorem Gate.node_eq_some {node : Node ℕ} (h : gate.node = some node) :
  match node with
  | .input => gate.type = some .INPUT
  | .wire a => gate.type = some .OUTPUT ∧ gate.inp1 = some a
  | .and a b => gate.type = some .AND ∧ gate.inp1 = some a ∧ gate.inp2 = some b
  | .or a b => gate.type = some .OR ∧ gate.inp1 = some a ∧ gate.inp2 = some b
  | .not a => gate.type = some .NOT ∧ gate.inp1 = some a
  | .flipflop a => gate.type = some .FLIPFLOP ∧ gate.inp1 = some a
  := by
  unfold Gate.node at h
  split at h <;> cases h
  · assumption
  · exact ⟨by assumption, by assumption⟩
  · exact ⟨by assumption, by assumption, by assumption⟩
  · exact ⟨by assumption, by assumption, by assumption⟩
  · exact ⟨by assumption, by assumption⟩
  · exact ⟨by assumption, by assumption⟩

/-! ### Evaluation -/

/-- The gates are those of a circuit, with the values stored by the flip-flops. -/
structure Stores (c : Netlist ℕ) (s : ℕ → Bool) (gateArr : List Gate) : Prop where
  nodes : netlist gateArr = c
  typed : ∀ (i : ℕ) (gate : Gate), gateArr[i]? = some gate → gate.type.isSome = true
  stored : ∀ i b gate, c i = some (.flipflop b) → gateArr[i]? = some gate →
    gate.formerOut = some (value (s i)) ∧ gate.flag = some (-1)

/-- The bits are assigned to the inputs. -/
structure Shows (c : Netlist ℕ) (bit s : ℕ → Bool) (gateArr : List Gate) : Prop
    extends Stores c s gateArr where
  inputs : ∀ i gate, c i = some .input → gateArr[i]? = some gate →
    gate.output = some (value (bit i))

theorem Shows.congr (h : Shows c bit s gateArr)
    (hs : ∀ i b, c i = some (.flipflop b) → s' i = s i) :
  Shows c bit s' gateArr
  := by
  refine ⟨⟨h.nodes, h.typed, ?_⟩, h.inputs⟩
  intro i b gate hi hgate
  rw [hs i b hi]
  exact h.stored i b gate hi hgate

/-- A flip-flop stores a value. -/
theorem Shows.store (h : Shows c bit s gateArr) (x : Bool) :
  Shows c bit (Function.update s i x)
    (gateArr.modify i ({ · with formerOut := some (value x) }))
  := by
  have hget : ∀ j, (gateArr.modify i ({ · with formerOut := some (value x) }))[j]?
      = gateArr[j]?.map fun gate =>
      if i = j then { gate with formerOut := some (value x) } else gate := by
    intro j
    rw [List.getElem?_modify]
    split <;> simp
  refine ⟨⟨?_, ?_, ?_⟩, ?_⟩
  · rw [← h.nodes]
    funext j
    unfold netlist
    rw [hget, Option.bind_map]
    congr 1
    funext gate
    simp only [Function.comp_apply]
    split <;> rfl
  · intro j gate hgate
    rw [hget] at hgate
    obtain ⟨gate', hgate', rfl⟩ := Option.map_eq_some_iff.mp hgate
    have htyped := h.typed j gate' hgate'
    split <;> exact htyped
  · intro j b gate hj hgate
    rw [hget] at hgate
    obtain ⟨gate', hgate', rfl⟩ := Option.map_eq_some_iff.mp hgate
    have hstored := h.stored j b gate' hj hgate'
    by_cases hij : i = j
    · rw [if_pos hij, hij, Function.update_self]
      exact ⟨rfl, hstored.2⟩
    · rw [if_neg hij, Function.update_of_ne (Ne.symm hij)]
      exact hstored
  · intro j gate hj hgate
    rw [hget] at hgate
    obtain ⟨gate', hgate', rfl⟩ := Option.map_eq_some_iff.mp hgate
    have hinputs := h.inputs j gate' hj hgate'
    split <;> exact hinputs

/-- The values that the flip-flops store after a walk. -/
def after (val s : ℕ → Bool) (l : List ℕ) (i : ℕ) : Bool := if i ∈ l then val i else s i

/-- The flip-flops of two walks one after the other. -/
theorem after_append (l l' : List ℕ) :
  after val (after val s l) l' = after val s (l ++ l')
  := by
  funext i
  simp only [after, List.mem_append]
  by_cases hl : i ∈ l <;> by_cases hl' : i ∈ l' <;> simp [hl, hl']

/-- The walk through a node that is no flip-flop. -/
theorem Shows.cons {node : Node ℕ} (h : Shows c bit (after val s l) gateArr)
    (hnode : c a = some node) (hne : ∀ b, node ≠ .flipflop b) :
  Shows c bit (after val s (a :: l)) gateArr
  := by
  apply h.congr
  intro i b hi
  have hia : i ≠ a := by
    rintro rfl
    exact hne b (Option.some_inj.mp (hnode.symm.trans hi))
  simp [after, hia]

theorem Shows.exists_gate {node : Node ℕ} (h : Shows c bit s gateArr) (hnode : c a = some node) :
  ∃ gate, gateArr[a]? = some gate ∧ gate.node = some node
  := by
  rw [← h.nodes] at hnode
  exact LogicCircuit.exists_gate hnode

/-! ### What a call of `evaluate` returns -/

section

variable {depth : ℕ} {x y : ℤ} {first second : List Gate} (hgate : gateArr[a]? = some gate)

include hgate

-- the equations of the definition, for all of these lemmas
attribute [local simp] evaluate in
theorem evaluate_input (htype : gate.type = some .INPUT) (houtput : gate.output = some x) :
  evaluate (depth + 1) gateArr (some a) = .ok (x, gateArr)
  := by
  simp [hgate, htype, houtput, get, bind, Except.bind]

theorem evaluate_not (htype : gate.type = some .NOT)
    (h : evaluate depth gateArr gate.inp1 = .ok (x, first)) :
  evaluate (depth + 1) gateArr (some a) = .ok (if x = 0 then 1 else 0, first)
  := by
  simp only [evaluate, Option.bind_some, hgate, htype, get, bind, Except.bind, h]

theorem evaluate_and (htype : gate.type = some .AND)
    (h : evaluate depth gateArr gate.inp1 = .ok (x, first)) :
  evaluate (depth + 1) gateArr (some a) =
    if x = 0 then .ok (0, first)
    else (evaluate depth first gate.inp2).map fun second =>
      (if second.1 = 0 then 0 else 1, second.2)
  := by
  simp only [evaluate, Option.bind_some, hgate, htype, get, bind, Except.bind, h]
  rfl

theorem evaluate_or (htype : gate.type = some .OR)
    (h : evaluate depth gateArr gate.inp1 = .ok (x, first)) :
  evaluate (depth + 1) gateArr (some a) =
    if x ≠ 0 then .ok (1, first)
    else (evaluate depth first gate.inp2).map fun second =>
      (if second.1 = 0 then 0 else 1, second.2)
  := by
  simp only [evaluate, Option.bind_some, hgate, htype, get, bind, Except.bind, h]
  rfl

theorem evaluate_flipflop (htype : gate.type = some .FLIPFLOP) (hflag : gate.flag = some (-1))
    (hformer : gate.formerOut = some y) (h : evaluate depth gateArr gate.inp1 = .ok (x, first)) :
  evaluate (depth + 1) gateArr (some a) =
    .ok (if y = 0 then x else if x = 0 then 1 else 0, first.modify a
      ({ · with formerOut := some (if y = 0 then x else if x = 0 then 1 else 0) }))
  := by
  simp only [evaluate, Option.bind_some, hgate, htype, hflag, hformer, get, bind, Except.bind, h,
    if_true, Option.getD_some]

end

theorem value_eq_zero {x : Bool} :
  value x = 0 ↔ x = false
  := by cases x <;> decide

theorem value_ite (x : Bool) :
  (if value x = 0 then 0 else 1) = value x
  := by cases x <;> rfl

/-- A walk on which no output gate and no flip-flop twice is met, from a state in which the
flip-flops on it store what they do at the beginning of the cycle. -/
structure Follows (c : Netlist ℕ) (stored s : ℕ → Bool) (a : ℕ) (l : List ℕ) : Prop where
  wire : ∀ b d, ReflTransGen (Feeds c) a b → c b ≠ some (.wire d)
  once : ∀ f b, c f = some (.flipflop b) → l.count f ≤ 1
  stored : ∀ f b, c f = some (.flipflop b) → f ∈ l → s f = stored f

theorem Follows.left {l' : List ℕ} (h : Follows c stored s a (a :: (l ++ l')))
    (hb : Feeds c a b) :
  Follows c stored s b l
  := by
  constructor
  · intro x d hx
    exact h.wire x d (.head hb hx)
  · intro f x hf
    have honce := h.once f x hf
    rw [List.count_cons, List.count_append] at honce
    omega
  · intro f x hf hmem
    exact h.stored f x hf (List.mem_cons_of_mem _ (List.mem_append_left _ hmem))

theorem Follows.right {l' : List ℕ} (h : Follows c stored s a (a :: (l ++ l')))
    (hb : Feeds c a b) :
  Follows c stored (after val s l) b l'
  := by
  constructor
  · intro x d hx
    exact h.wire x d (.head hb hx)
  · intro f x hf
    have honce := h.once f x hf
    rw [List.count_cons, List.count_append] at honce
    omega
  · intro f x hf hmem
    have honce := h.once f x hf
    have hpos := List.count_pos_iff.mpr hmem
    rw [List.count_cons, List.count_append] at honce
    have hnot : f ∉ l := by
      intro hmem'
      have := List.count_pos_iff.mpr hmem'
      omega
    rw [after, if_neg hnot]
    exact h.stored f x hf (List.mem_cons_of_mem _ (List.mem_append_right _ hmem))

theorem Follows.next (h : Follows c stored s a (a :: l)) (hb : Feeds c a b) :
  Follows c stored s b l
  := by
  rw [← List.append_nil l] at h
  exact h.left hb

/-- The evaluation of a gate follows its walk. -/
theorem Shows.evaluate (hwalk : Walk c val a l) (hval : IsSynchronous c bit stored val)
    (hfollows : Follows c stored s a l) (h : Shows c bit s gateArr) {depth : ℕ}
    (hdepth : l.length ≤ depth) :
  ∃ gateArr', evaluate depth gateArr (some a) = .ok (value (val a), gateArr')
    ∧ Shows c bit (after val s l) gateArr'
  := by
  induction hwalk generalizing s gateArr depth with
  | wire hnode _ _ => exact absurd hnode (hfollows.wire _ _ .refl)
  | input hnode =>
      obtain ⟨depth, rfl⟩ : ∃ k, depth = k + 1 := ⟨depth - 1, by simp at hdepth; omega⟩
      obtain ⟨gate, hgate, hgnode⟩ := h.exists_gate hnode
      have hvalue := hval _ _ hnode
      rw [Node.value] at hvalue
      refine ⟨gateArr, ?_, Shows.cons h hnode (by rintro _ ⟨⟩)⟩
      rw [hvalue]
      exact evaluate_input hgate (gate.node_eq_some hgnode) (h.inputs _ gate hnode hgate)
  | not hnode hl ih =>
      obtain ⟨depth, rfl⟩ : ∃ k, depth = k + 1 := ⟨depth - 1, by simp at hdepth; omega⟩
      obtain ⟨gate, hgate, hgnode⟩ := h.exists_gate hnode
      obtain ⟨htype, hinp1⟩ := gate.node_eq_some hgnode
      have hvalue := hval _ _ hnode
      rw [Node.value] at hvalue
      obtain ⟨gateArr', heval, hshows⟩ := ih (hfollows.next ⟨_, hnode, List.mem_cons_self⟩) h
        (Nat.le_of_succ_le_succ hdepth)
      refine ⟨gateArr', ?_, hshows.cons hnode (by rintro _ ⟨⟩)⟩
      rw [← hinp1] at heval
      rw [evaluate_not hgate htype heval, hvalue]
      simp only [value_eq_zero]
      cases val _ <;> rfl
  | flipflop hnode hl ih =>
      rename_i a b l
      obtain ⟨depth, rfl⟩ : ∃ k, depth = k + 1 := ⟨depth - 1, by simp at hdepth; omega⟩
      obtain ⟨gate, hgate, hgnode⟩ := h.exists_gate hnode
      obtain ⟨htype, hinp1⟩ := gate.node_eq_some hgnode
      have hvalue := hval _ _ hnode
      rw [Node.value] at hvalue
      obtain ⟨hformer, hflag⟩ := h.stored _ _ gate hnode hgate
      rw [hfollows.stored a b hnode List.mem_cons_self] at hformer
      obtain ⟨gateArr', heval, hshows⟩ := ih (hfollows.next ⟨_, hnode, List.mem_cons_self⟩) h
        (Nat.le_of_succ_le_succ hdepth)
      rw [← hinp1] at heval
      have hresult : (if value (stored a) = 0 then value (val b)
          else if value (val b) = 0 then 1 else 0) = value (val a) := by
        rw [hvalue]
        cases stored a <;> cases val b <;> rfl
      refine ⟨gateArr'.modify a ({ · with formerOut := some (value (val a)) }), ?_, ?_⟩
      · rw [evaluate_flipflop hgate htype hflag hformer heval, hresult]
      · apply (hshows.store (val a)).congr
        intro i _ _
        by_cases hi : i = a
        · rw [hi, Function.update_self, after, if_pos List.mem_cons_self]
        · rw [Function.update_of_ne hi]
          simp [after, hi]
  | and_false hnode hb hl ih =>
      obtain ⟨depth, rfl⟩ : ∃ k, depth = k + 1 := ⟨depth - 1, by simp at hdepth; omega⟩
      obtain ⟨gate, hgate, hgnode⟩ := h.exists_gate hnode
      obtain ⟨htype, hinp1, -⟩ := gate.node_eq_some hgnode
      have hvalue := hval _ _ hnode
      rw [Node.value, hb, Bool.false_and] at hvalue
      obtain ⟨gateArr', heval, hshows⟩ := ih (hfollows.next ⟨_, hnode, List.mem_cons_self⟩) h
        (Nat.le_of_succ_le_succ hdepth)
      refine ⟨gateArr', ?_, hshows.cons hnode (by rintro _ ⟨⟩)⟩
      rw [← hinp1, hb] at heval
      rw [evaluate_and hgate htype heval, hvalue, if_pos (value_eq_zero.mpr rfl)]
      rfl
  | and_true hnode hb hl hl' ih ih' =>
      rename_i a b d l l'
      obtain ⟨depth, rfl⟩ : ∃ k, depth = k + 1 := ⟨depth - 1, by simp at hdepth; omega⟩
      obtain ⟨gate, hgate, hgnode⟩ := h.exists_gate hnode
      obtain ⟨htype, hinp1, hinp2⟩ := gate.node_eq_some hgnode
      have hvalue := hval _ _ hnode
      rw [Node.value, hb, Bool.true_and] at hvalue
      rw [List.length_cons, List.length_append] at hdepth
      have hdepth₁ : l.length ≤ depth := by omega
      have hdepth₂ : l'.length ≤ depth := by omega
      obtain ⟨first, heval, hfirst⟩ := ih (hfollows.left ⟨_, hnode, List.mem_cons_self⟩) h
        hdepth₁
      obtain ⟨second, heval', hsecond⟩ := ih' (hfollows.right
        ⟨_, hnode, List.mem_cons_of_mem _ List.mem_cons_self⟩) hfirst hdepth₂
      rw [after_append] at hsecond
      refine ⟨second, ?_, hsecond.cons hnode (by rintro _ ⟨⟩)⟩
      rw [← hinp1, hb] at heval
      rw [← hinp2] at heval'
      rw [evaluate_and hgate htype heval, if_neg (by decide), heval', Except.map, value_ite, hvalue]
  | or_true hnode hb hl ih =>
      obtain ⟨depth, rfl⟩ : ∃ k, depth = k + 1 := ⟨depth - 1, by simp at hdepth; omega⟩
      obtain ⟨gate, hgate, hgnode⟩ := h.exists_gate hnode
      obtain ⟨htype, hinp1, -⟩ := gate.node_eq_some hgnode
      have hvalue := hval _ _ hnode
      rw [Node.value, hb, Bool.true_or] at hvalue
      obtain ⟨gateArr', heval, hshows⟩ := ih (hfollows.next ⟨_, hnode, List.mem_cons_self⟩) h
        (Nat.le_of_succ_le_succ hdepth)
      refine ⟨gateArr', ?_, hshows.cons hnode (by rintro _ ⟨⟩)⟩
      rw [← hinp1, hb] at heval
      rw [evaluate_or hgate htype heval, hvalue, if_pos (by decide)]
      rfl
  | or_false hnode hb hl hl' ih ih' =>
      rename_i a b d l l'
      obtain ⟨depth, rfl⟩ : ∃ k, depth = k + 1 := ⟨depth - 1, by simp at hdepth; omega⟩
      obtain ⟨gate, hgate, hgnode⟩ := h.exists_gate hnode
      obtain ⟨htype, hinp1, hinp2⟩ := gate.node_eq_some hgnode
      have hvalue := hval _ _ hnode
      rw [Node.value, hb, Bool.false_or] at hvalue
      rw [List.length_cons, List.length_append] at hdepth
      have hdepth₁ : l.length ≤ depth := by omega
      have hdepth₂ : l'.length ≤ depth := by omega
      obtain ⟨first, heval, hfirst⟩ := ih (hfollows.left ⟨_, hnode, List.mem_cons_self⟩) h
        hdepth₁
      obtain ⟨second, heval', hsecond⟩ := ih' (hfollows.right
        ⟨_, hnode, List.mem_cons_of_mem _ List.mem_cons_self⟩) hfirst hdepth₂
      rw [after_append] at hsecond
      refine ⟨second, ?_, hsecond.cons hnode (by rintro _ ⟨⟩)⟩
      rw [← hinp1, hb] at heval
      rw [← hinp2] at heval'
      rw [evaluate_or hgate htype heval, if_neg (by decide), heval', Except.map, value_ite, hvalue]

/-! ### The lines of the input file -/

/-- The bits of a line, for the inputs in turn. -/
def bits (c : Netlist ℕ) (line : List Char) (i : ℕ) : Bool :=
  (digits line)[Nat.count (fun j => c j = some .input) i]? = some 1

theorem digits_range (line : List Char) {x : ℤ} (hx : x ∈ digits line) :
  value (decide (x = 1)) = x
  := by
  obtain ⟨c, -, rfl⟩ := List.mem_map.mp hx
  split <;> rfl

theorem netlist_input (hgate : gateArr[i]? = some gate) :
  netlist gateArr i = some .input ↔ gate.type = some .INPUT
  := by
  rw [netlist, hgate, Option.bind_some]
  constructor
  · exact fun hnode => gate.node_eq_some hnode
  · intro htype
    rw [Gate.node, htype]

/-- There is a bit for every input. -/
def HasBits (c : Netlist ℕ) (line : List Char) : Prop :=
  ∀ i, c i = some .input → Nat.count (fun j => c j = some .input) i < (digits line).length

/-- What `setInputs` assigns to a gate. -/
def Gate.assign (gate : Gate) (output : Option ℤ) : Gate :=
  if gate.type = some .INPUT then { gate with output := output } else gate

theorem Gate.assign_node (gate : Gate) (output : Option ℤ) :
  (gate.assign output).node = gate.node
  := by
  rw [assign]
  split <;> rfl

theorem setInputs_ok (values : List ℤ) (htyped : ∀ gate ∈ gateArr, gate.type.isSome = true) :
  ∃ gateArr', setInputs values gateArr = .ok gateArr'
    ∧ ∀ i : ℕ, gateArr'[i]? = gateArr[i]?.map
      (·.assign values[Nat.count (fun j => netlist gateArr j = some .input) i]?)
  := by
  induction gateArr generalizing values with
  | nil => exact ⟨[], rfl, fun i => rfl⟩
  | cons gate gateArr ih =>
      obtain ⟨htype, htyped⟩ := List.forall_mem_cons.mp htyped
      obtain ⟨type, htype⟩ := Option.isSome_iff_exists.mp htype
      have hinput : netlist (gate :: gateArr) 0 = some .input ↔ type = .INPUT := by
        rw [netlist_input List.getElem?_cons_zero, htype, Option.some_inj]
      have hcount : ∀ i, Nat.count (fun j => netlist (gate :: gateArr) j = some .input) (i + 1)
          = Nat.count (fun j => netlist gateArr j = some .input) i
            + if type = .INPUT then 1 else 0 := by
        intro i
        rw [Nat.count_succ']
        congr 1
        exact if_congr hinput rfl rfl
      by_cases hcase : type = .INPUT
      · obtain ⟨rest, hrest, hget⟩ := ih values.tail htyped
        refine ⟨{ gate with output := values.head? } :: rest, ?_, ?_⟩
        · simp only [setInputs, htype, get, bind, Except.bind, hcase, if_true, hrest]
        · intro i
          cases i with
          | zero =>
              rw [Nat.count_zero, List.getElem?_cons_zero, List.getElem?_cons_zero, Option.map_some,
                Gate.assign, htype, hcase, if_pos rfl, List.head?_eq_getElem?]
          | succ i =>
              rw [List.getElem?_cons_succ, List.getElem?_cons_succ, hget, hcount, if_pos hcase,
                List.getElem?_tail]
      · obtain ⟨rest, hrest, hget⟩ := ih values htyped
        refine ⟨gate :: rest, ?_, ?_⟩
        · simp only [setInputs, htype, get, bind, Except.bind, hcase, if_false, hrest]
        · intro i
          cases i with
          | zero =>
              rw [List.getElem?_cons_zero, List.getElem?_cons_zero, Option.map_some, Gate.assign,
                htype, if_neg (by simpa using hcase)]
          | succ i =>
              rw [List.getElem?_cons_succ, List.getElem?_cons_succ, hget, hcount, if_neg hcase,
                Nat.add_zero]

/-- The bits of a line are assigned to the inputs. -/
theorem Stores.setInputs (h : Stores c s gateArr) {line : List Char} (hbits : HasBits c line) :
  ∃ gateArr', setInputs (digits line) gateArr = .ok gateArr' ∧ Shows c (bits c line) s gateArr'
  := by
  have htyped : ∀ gate ∈ gateArr, gate.type.isSome = true := by
    intro gate hmem
    obtain ⟨i, hi⟩ := List.mem_iff_getElem?.mp hmem
    exact h.typed i gate hi
  obtain ⟨gateArr', hset, hget⟩ := setInputs_ok (digits line) htyped
  rw [h.nodes] at hget
  refine ⟨gateArr', hset, ⟨?_, ?_, ?_⟩, ?_⟩
  · rw [← h.nodes]
    funext i
    rw [netlist, netlist, hget, Option.bind_map]
    congr 1
    funext gate
    exact gate.assign_node _
  · intro i gate hgate
    rw [hget] at hgate
    obtain ⟨gate', hgate', rfl⟩ := Option.map_eq_some_iff.mp hgate
    have htype := h.typed i gate' hgate'
    rw [Gate.assign]
    split <;> exact htype
  · intro i b gate hi hgate
    rw [hget] at hgate
    obtain ⟨gate', hgate', rfl⟩ := Option.map_eq_some_iff.mp hgate
    have hstored := h.stored i b gate' hi hgate'
    rw [Gate.assign]
    split <;> exact hstored
  · intro i gate hi hgate
    rw [hget] at hgate
    obtain ⟨gate', hgate', rfl⟩ := Option.map_eq_some_iff.mp hgate
    have htype := (netlist_input hgate').mp (h.nodes ▸ hi)
    have hindex := hbits i hi
    have hrange := digits_range line (List.getElem_mem hindex)
    rw [Gate.assign, if_pos htype, bits, List.getElem?_eq_getElem hindex]
    simp only [Option.some.injEq]
    exact hrange.symm

/-- No output gate is connected to another gate. -/
def NoWire (c : Netlist ℕ) : Prop := ∀ i j d, Feeds c i j → c j ≠ some (.wire d)

theorem NoWire.reachable (h : NoWire c) (ha : Feeds c i a) :
  ∀ b d, ReflTransGen (Feeds c) a b → c b ≠ some (.wire d)
  := by
  intro b d hpath
  obtain ⟨e, -, he⟩ := TransGen.tail'_iff.mp (TransGen.head' ha hpath)
  exact h e b d he

/-- A walk that visits every flip-flop once updates those that its start depends on. -/
theorem Shows.cycle (h : Shows c bit s gateArr) (hval : IsSynchronous c bit stored val)
    (hs : ∀ f, Depends c a f → s f = stored f)
    (hwire : ∀ b d, ReflTransGen (Feeds c) a b → c b ≠ some (.wire d)) (hwalk : Walk c val a l)
    (honce : ∀ f, Depends c a f → l.count f = 1) {depth : ℕ} (hdepth : l.length ≤ depth) :
  ∃ gateArr' s', LogicCircuit.evaluate depth gateArr (some a) = .ok (value (val a), gateArr')
    ∧ Shows c bit s' gateArr' ∧ ∀ f, Depends c a f → s' f = val f
  := by
  have hfollows : Follows c stored s a l := by
    refine ⟨hwire, ?_, ?_⟩
    · intro f b hf
      by_cases hdepends : Depends c a f
      · exact (honce f hdepends).le
      · rw [hwalk.count_eq_zero hf hdepends]
        exact Nat.zero_le 1
    · intro f b hf hmem
      exact hs f ⟨⟨b, hf⟩, hwalk.reachable f hmem⟩
  obtain ⟨gateArr', heval, hshows⟩ := h.evaluate hwalk hval hfollows hdepth
  refine ⟨gateArr', after val s l, heval, hshows, ?_⟩
  intro f hf
  have hpos : 0 < l.count f := by
    rw [honce f hf]
    exact Nat.one_pos
  rw [after, if_pos (List.count_pos_iff.mp hpos)]

theorem Gate.node_wire (h : gate.node = some (.wire a)) :
  gate.type = some .OUTPUT ∧ gate.inp1 = some a
  := by
  unfold Gate.node at h
  split at h <;> cases h
  exact ⟨by assumption, by assumption⟩

variable {o : ℕ} {lines : List (List Char)} {vals : List (ℕ → Bool)}

/-- The lines are evaluated one after the other. -/
theorem operationsLoop_eq (ho : c o = some (.wire a))
    (hwire : ∀ b d, ReflTransGen (Feeds c) a b → c b ≠ some (.wire d))
    (hbits : ∀ line ∈ lines, HasBits c line) (hrun : Run c stored (lines.map (bits c)) vals)
    (hvisits : ∀ val ∈ vals, VisitsOnce c val a) :
  ∃ n, ∀ s gateArr depth, Stores c s gateArr → (∀ f, Depends c a f → s f = stored f) →
    n ≤ depth → operationsLoop depth (some o) lines gateArr =
      .ok (vals.map fun val => value (val a))
  := by
  induction lines generalizing stored vals with
  | nil =>
      cases hrun
      exact ⟨0, fun _ _ _ _ _ _ => rfl⟩
  | cons line lines ih =>
      obtain ⟨hline, hbits⟩ := List.forall_mem_cons.mp hbits
      rw [List.map_cons] at hrun
      cases hrun with
      | cons cycle rest =>
          rename_i val vals
          obtain ⟨⟨l, hwalk, honce⟩, hvisits⟩ := List.forall_mem_cons.mp hvisits
          obtain ⟨n, hn⟩ := ih hbits rest hvisits
          use max l.length n
          intro s gateArr depth h hs hdepth
          obtain ⟨gateArr₁, hset, hshows⟩ := h.setInputs hline
          obtain ⟨output, houtput, hnode⟩ := hshows.exists_gate ho
          obtain ⟨gateArr₂, s', heval, hshows, hs'⟩ := hshows.cycle cycle hs hwire hwalk honce
            (le_of_max_le_left hdepth)
          rw [← (output.node_wire hnode).2] at heval
          have hrest := hn s' gateArr₂ depth hshows.toStores hs' (le_of_max_le_right hdepth)
          simp only [operationsLoop, hset, bind, Except.bind, Option.bind_some, houtput, heval,
            hrest, List.map_cons]

end LogicCircuit
