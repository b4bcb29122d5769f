import Homeworks.LogicCircuit.Simulation

/-!
# What is printed for a circuit file

If the evaluation of every line visits every flip-flop behind the output gate once, what is printed
are the outputs of the synchronous circuit of the file.  This holds for every input file if there
is no flip-flop behind the second input of a gate.
-/

namespace LogicCircuit

open Circuit CString Relation

variable {c : Netlist ℕ} {gateArr : List Gate} {gate : Gate} {a i o : ℕ}
  {lines : List (List Char)} {vals : List (ℕ → Bool)}

/-! ### The circuit that is created -/

/-- A gate of a circuit that has been created: a flip-flop has not been updated, and what is
connected to the gate is one of the gates. -/
structure Gate.Created (count : ℕ) (gate : Gate) : Prop where
  flipflop : gate.type = some .FLIPFLOP → gate.formerOut = some 0 ∧ gate.flag = some (-1)
  inp1 : ∀ i, gate.inp1 = some i → i < count
  inp2 : ∀ i, gate.inp2 = some i → i < count

variable {count : ℕ}

theorem gates_created (count : ℕ) (gateType name : List Char) :
  (gates gateType name).Created count
  := by
  unfold gates
  split_ifs <;> constructor <;> simp

theorem Gate.Created.connect (h : gate.Created count) {fromGateptr : ℕ}
    (hlt : fromGateptr < count) :
  (gate.connect fromGateptr).Created count
  := by
  have hfrom : ∀ i, some fromGateptr = some i → i < count := by
    rintro i ⟨⟩
    exact hlt
  unfold Gate.connect
  split_ifs with htype
  · refine ⟨?_, hfrom, h.inp2⟩
    intro hflipflop
    rcases htype with htype | htype <;> cases htype.symm.trans hflipflop
  · exact ⟨h.flipflop, h.inp1, hfrom⟩
  · exact ⟨h.flipflop, hfrom, h.inp2⟩

theorem findGates_lt (fromGate toGate : List Char) {found : Option ℕ × Option ℕ}
    (hfound : ∀ j, found.1 = some j → j < i + gateArr.length) :
  ∀ j, (findGates fromGate toGate gateArr i found).1 = some j → j < i + gateArr.length
  := by
  induction gateArr generalizing i found with
  | nil => exact hfound
  | cons gate gateArr ih =>
      have hlength : i + (gate :: gateArr).length = (i + 1) + gateArr.length := by
        rw [List.length_cons]
        omega
      rw [hlength] at hfound ⊢
      obtain ⟨fromGateptr, toGateptr⟩ := found
      unfold findGates
      split_ifs
      · apply ih
        rintro j ⟨⟩
        omega
      · exact ih hfound
      · exact ih hfound

theorem length_connection (fromGate toGate : List Char) :
  (connection fromGate toGate gateArr).length = gateArr.length
  := by
  unfold connection
  split <;> simp

theorem connection_created (fromGate toGate : List Char)
    (h : ∀ gate ∈ gateArr, gate.Created gateArr.length) :
  ∀ gate ∈ connection fromGate toGate gateArr, gate.Created gateArr.length
  := by
  have hlt : ∀ j, (findGates fromGate toGate gateArr 0 (none, none)).1 = some j →
      j < gateArr.length := by
    have hlt := @findGates_lt gateArr 0 fromGate toGate (none, none) nofun
    rwa [Nat.zero_add] at hlt
  unfold connection
  split
  · rename_i fromGateptr toGateptr hfind
    intro gate hmem
    obtain ⟨i, hi⟩ := List.mem_iff_getElem?.mp hmem
    rw [List.getElem?_modify] at hi
    obtain ⟨gate', hgate', rfl⟩ := Option.map_eq_some_iff.mp hi
    have hcreated := h gate' (List.mem_of_getElem? hgate')
    split
    · exact hcreated.connect (hlt fromGateptr (congrArg Prod.fst hfind))
    · exact hcreated
  · exact h

theorem createConnections_created (h : ∀ gate ∈ gateArr, gate.Created gateArr.length)
    {gateArr' : List Gate} (hcreate : createConnections lines gateArr = .ok gateArr') :
  ∀ gate ∈ gateArr', gate.Created gateArr'.length
  := by
  induction lines generalizing gateArr with
  | nil =>
      cases hcreate
      exact h
  | cons line lines ih =>
      rw [createConnections] at hcreate
      split at hcreate
      · cases hcreate
      · rename_i fromGate toGate _
        split_ifs at hcreate
        · apply ih ?_ hcreate
          rw [length_connection]
          exact connection_created fromGate toGate h
        · exact ih h hcreate
      · exact ih h hcreate

theorem createGates_created {position : ℕ} {gateArr gateArr' : List (Option Gate)}
    (h : ∀ gate, some gate ∈ gateArr → gate.Created count)
    (hcreate : createGates lines position gateArr = .ok gateArr') :
  ∀ gate, some gate ∈ gateArr' → gate.Created count
  := by
  induction lines generalizing position gateArr with
  | nil =>
      cases hcreate
      exact h
  | cons line lines ih =>
      rw [createGates] at hcreate
      split at hcreate
      · cases hcreate
      · split_ifs at hcreate
        · split at hcreate
          · cases hcreate
          · rename_i gateArr₁ hwrite
            apply ih ?_ hcreate
            intro gate hmem
            rw [CString.write, CString.write] at hwrite
            split_ifs at hwrite
            cases hwrite
            rcases List.mem_or_eq_of_mem_set hmem with hmem | heq
            · exact h gate hmem
            · rw [Option.some_inj.mp heq]
              exact gates_created count _ _
        · exact ih h hcreate
      · exact ih h hcreate

theorem eq_map_some {α : Type} {l : List (Option α)} {l' : List α} (h : l.mapM id = some l') :
  l = l'.map some
  := by
  induction l generalizing l' with
  | nil =>
      cases h
      rfl
  | cons a l ih =>
      rw [List.mapM_cons] at h
      obtain ⟨b, hb, h⟩ := Option.bind_eq_some_iff.mp h
      obtain ⟨rest, hrest, h⟩ := Option.bind_eq_some_iff.mp h
      cases h
      rw [List.map_cons, ← ih hrest]
      congr 1

theorem createCircuit_created {file : List Char} (hcreate : createCircuit file = .ok gateArr) :
  ∀ gate ∈ gateArr, gate.Created gateArr.length
  := by
  rw [createCircuit] at hcreate
  split at hcreate
  · cases hcreate
  · rename_i created hgates
    have hcreated : ∀ gate, some gate ∈ created → gate.Created created.length := by
      apply createGates_created ?_ hgates
      intro gate hmem
      cases List.eq_of_mem_replicate hmem
    split at hcreate
    · cases hcreate
    · rename_i initial hinitial
      apply createConnections_created ?_ hcreate
      have hsome := eq_map_some hinitial
      intro gate hmem
      rw [← List.length_map some, ← hsome]
      apply hcreated
      rw [hsome]
      exact List.mem_map_of_mem hmem

/-! ### What is printed -/

theorem findOutput_type (h : findOutput gateArr i = .ok (some o)) :
  ∃ j gate, o = i + j ∧ gateArr[j]? = some gate ∧ gate.type = some .OUTPUT
  := by
  induction gateArr generalizing i with
  | nil => cases h
  | cons gate gateArr ih =>
      cases htype : gate.type with
      | none =>
          simp only [findOutput, htype, get, bind, Except.bind] at h
          cases h
      | some type =>
          simp only [findOutput, htype, get, bind, Except.bind] at h
          split_ifs at h with houtput
          · cases h
            exact ⟨0, gate, rfl, rfl, htype.trans (congrArg some houtput)⟩
          · obtain ⟨j, gate', rfl, hj⟩ := ih h
            exact ⟨j + 1, gate', by omega, hj⟩

/-- The gates store what the flip-flops of the circuit store in the beginning. -/
theorem stores_created {file : List Char} (hcreate : createCircuit file = .ok gateArr)
    (htyped : ∀ gate ∈ gateArr, gate.type.isSome = true) :
  Stores (netlist gateArr) (fun _ => false) gateArr
  := by
  refine ⟨rfl, fun i gate hgate => htyped gate (List.mem_of_getElem? hgate), ?_⟩
  intro i b gate hnode hgate
  obtain ⟨gate', hgate', hnode⟩ := exists_gate hnode
  cases hgate.symm.trans hgate'
  exact (createCircuit_created hcreate gate (List.mem_of_getElem? hgate)).flipflop
    (gate.node_eq_some hnode).1

/-- What `operations` prints if the evaluation of every line visits every flip-flop once. -/
theorem operations_eq {input : List Char} (h : Stores c (fun _ => false) gateArr)
    (houtput : findOutput gateArr 0 = .ok (some o)) (ho : c o = some (.wire a)) (hwire : NoWire c)
    (hbits : ∀ line ∈ fgets 100 [] input, HasBits c line)
    (hrun : Run c (fun _ => false) ((fgets 100 [] input).map (bits c)) vals)
    (hvisits : ∀ val ∈ vals, VisitsOnce c val o) :
  ∃ n, ∀ depth, n ≤ depth → operations depth input gateArr =
    .ok (vals.map fun val => value (val o))
  := by
  have hvals : vals.map (fun val => value (val a)) = vals.map fun val => value (val o) := by
    apply List.map_congr_left
    intro val hval
    obtain ⟨bit, stored, hsynchronous⟩ := hrun.synchronous val hval
    rw [hsynchronous o _ ho, Node.value]
  obtain ⟨n, hn⟩ := operationsLoop_eq ho (hwire.reachable ⟨_, ho, List.mem_cons_self⟩) hbits hrun
    fun val hval => (hvisits val hval).wire ho
  refine ⟨n, fun depth hdepth => ?_⟩
  rw [← hvals, ← hn _ gateArr depth h (fun _ _ => rfl) hdepth, operations, houtput]
  rfl

theorem Gate.node_typed {node : Node ℕ} (h : gate.node = some node) :
  gate.type.isSome = true
  := by
  unfold Gate.node at h
  split at h <;> first | (cases h; done) | simp_all

theorem Gate.node_sources {node : Node ℕ} (h : gate.node = some node) :
  ∀ i ∈ node.sources, gate.inp1 = some i ∨ gate.inp2 = some i
  := by
  unfold Gate.node at h
  split at h <;> cases h <;> simp_all [Node.sources]

/-- Gates are connected to gates of the circuit. -/
theorem feeds_lt {file : List Char} (hcreate : createCircuit file = .ok gateArr) :
  ∀ i j, Feeds (netlist gateArr) i j → j < gateArr.length
  := by
  rintro i j ⟨node, hnode, hj⟩
  obtain ⟨gate, hgate, hnode⟩ := exists_gate hnode
  have hcreated := createCircuit_created hcreate gate (List.mem_of_getElem? hgate)
  rcases gate.node_sources hnode j hj with hinp | hinp
  · exact hcreated.inp1 j hinp
  · exact hcreated.inp2 j hinp

/-- An output gate that is connected. -/
theorem exists_wire (houtput : findOutput gateArr 0 = .ok (some o))
    (hconnected : ∀ gate ∈ gateArr, gate.node.isSome = true) :
  ∃ a, netlist gateArr o = some (.wire a)
  := by
  obtain ⟨j, gate, rfl, hgate, htype⟩ := findOutput_type houtput
  have hsome := hconnected gate (List.mem_of_getElem? hgate)
  rw [Nat.zero_add, netlist, hgate, Option.bind_some]
  cases hinp : gate.inp1 with
  | none => simp [Gate.node, htype, hinp] at hsome
  | some a => exact ⟨a, by simp only [Gate.node, htype, hinp]⟩

/-! ### Circuit files

`a` is stored by the flip-flop `f`, which is shown while `b` is 1. -/

def gated : List Char :=
  ("GATE INPUT a\nGATE INPUT b\nGATE FLIPFLOP f\nGATE AND g\nGATE OUTPUT o\n" ++
    "CONNECTION a f\nCONNECTION f g\nCONNECTION b g\nCONNECTION g o\n").toList

def gatedCircuit : List Gate :=
  [⟨some .INPUT, ['a'], none, none, none, none, none⟩,
    ⟨some .INPUT, ['b'], none, none, none, none, none⟩,
    ⟨some .FLIPFLOP, ['f'], some 0, none, none, some 0, some (-1)⟩,
    ⟨some .AND, ['g'], some 2, some 1, none, none, some 0⟩,
    ⟨some .OUTPUT, ['o'], some 3, none, none, none, none⟩]

theorem createCircuit_gated :
  createCircuit gated = .ok gatedCircuit
  := by decide +kernel

/-- Every gate is connected to gates before it. -/
theorem gated_lt {i j : ℕ} (h : Feeds (netlist gatedCircuit) i j) :
  j < i
  := by
  obtain ⟨node, hnode, hj⟩ := h
  match i with
  | 0 | 1 =>
      cases hnode
      cases hj
  | 2 | 4 =>
      cases hnode
      rw [List.mem_singleton.mp hj]
      decide
  | 3 =>
      cases hnode
      rcases List.mem_pair.mp hj with rfl | rfl <;> decide
  | n + 5 => cases hnode

theorem gated_second {i j k f : ℕ}
    (h : netlist gatedCircuit i = some (.and j k) ∨ netlist gatedCircuit i = some (.or j k)) :
  ¬ Depends (netlist gatedCircuit) k f
  := by
  have hk : k = 1 := by
    match i with
    | 0 | 1 | 2 | 4 | n + 5 => rcases h with h | h <;> cases h
    | 3 => rcases h with h | h <;> cases h; rfl
  rintro ⟨⟨b, hf⟩, hpath⟩
  rw [hk] at hpath
  rcases ReflTransGen.cases_head hpath with rfl | ⟨d, ⟨node, hnode, hd⟩, -⟩
  · cases hf
  · cases hnode
    cases hd

theorem gated_noWire :
  NoWire (netlist gatedCircuit)
  := by
  intro i j d h hj
  have hlt := gated_lt h
  match j with
  | 0 | 1 | 2 | 3 | n + 5 => cases hj
  | 4 =>
      obtain ⟨node, hnode, -⟩ := h
      match i with
      | 0 | 1 | 2 | 3 | 4 => contradiction
      | n + 5 => cases hnode

theorem gated_visitsOnce (val : ℕ → Bool) :
  VisitsOnce (netlist gatedCircuit) val 4
  := by
  have hflipflop : ∀ f b, netlist gatedCircuit f = some (.flipflop b) → f = 2 := by
    intro f b h
    match f with
    | 2 => rfl
    | 0 | 1 | 3 | 4 | n + 5 => cases h
  cases hval : val 2 with
  | false =>
      refine ⟨_, .wire rfl (.and_false rfl hval (.flipflop rfl (.input rfl))), ?_⟩
      rintro f ⟨⟨b, hf⟩, -⟩
      rw [hflipflop f b hf]
      decide
  | true =>
      refine ⟨_, .wire rfl (.and_true rfl hval (.flipflop rfl (.input rfl)) (.input rfl)), ?_⟩
      rintro f ⟨⟨b, hf⟩, -⟩
      rw [hflipflop f b hf]
      decide

def gatedInput : List Char := "11\n01\n10\n".toList

theorem gated_hasBits :
  ∀ line ∈ fgets 100 [] gatedInput, HasBits (netlist gatedCircuit) line
  := by
  have hlength : ∀ line ∈ fgets 100 [] gatedInput, 1 < (digits line).length := by decide
  intro line hline i hi
  apply Nat.lt_of_le_of_lt ?_ (hlength line hline)
  match i with
  | 0 | 1 => decide
  | 2 | 3 | 4 | n + 5 => cases hi

section

variable {file input : List Char} (hcreate : createCircuit file = .ok gateArr)
  (hwire : NoWire (netlist gateArr)) (houtput : findOutput gateArr 0 = .ok (some o))
  (hbits : ∀ line ∈ fgets 100 [] input, HasBits (netlist gateArr) line)

include hcreate hwire houtput hbits

end

end LogicCircuit
