import Homeworks.PlanetSystem.Calls

/-!
# Queries of a planet system

The path to a name and the radiation anomalies in the tree after any calls.
-/

namespace PlanetSystem

variable {Double : Type*}

/-! ### Paths -/

/-- The path has been extended by the way to a node with the name, or no node has the name and the
path is as it was. -/
def Found (targetName : String) (node : Node Double) (path : List (Node Double))
    (result : Bool × List (Node Double)) : Prop :=
  (∃ way sub, Rose.IsPath node way sub ∧ Node.name sub = targetName
      ∧ result = (true, path ++ way))
    ∨ (∀ sub ∈ node.subtrees, Node.name sub ≠ targetName) ∧ result = (false, path)

theorem findPathChildren_spec {targetName : String} {children : List (Node Double)}
    (h : ∀ child ∈ children, ∀ path, Found targetName child path (findPath targetName child path))
    (path : List (Node Double)) :
  (∃ child ∈ children, ∃ way sub, Rose.IsPath child way sub ∧ Node.name sub = targetName
      ∧ findPathChildren targetName children path = (true, path ++ way))
    ∨ (∀ child ∈ children, ∀ sub ∈ child.subtrees, Node.name sub ≠ targetName)
      ∧ findPathChildren targetName children path = (false, path)
  := by
  induction children with
  | nil => exact .inr ⟨fun _ hchild => absurd hchild List.not_mem_nil, rfl⟩
  | cons child rest ih =>
      rw [findPathChildren]
      rcases h child List.mem_cons_self path with ⟨way, sub, hway, hname, hfound⟩ | ⟨hnone, hleft⟩
      · rw [hfound]
        exact .inl ⟨child, List.mem_cons_self, way, sub, hway, hname, rfl⟩
      · rw [hleft]
        rcases ih fun other hother => h other (List.mem_cons_of_mem _ hother) with
          ⟨other, hother, hfound⟩ | ⟨hrest, hleft⟩
        · exact .inl ⟨other, List.mem_cons_of_mem _ hother, hfound⟩
        · refine .inr ⟨fun other hother => ?_, hleft⟩
          rcases List.mem_cons.mp hother with rfl | hother
          · exact hnone
          · exact hrest other hother

theorem findPath_spec (targetName : String) (node : Node Double) (path : List (Node Double)) :
  Found targetName node path (findPath targetName node path)
  := by
  induction node using Rose.induction generalizing path with
  | h node ih =>
      obtain ⟨fields, children⟩ := node
      rw [findPath]
      split
      · rename_i hname
        exact .inl ⟨[.node fields children], .node fields children, .root _, hname, rfl⟩
      · rename_i hname
        rcases findPathChildren_spec ih (path ++ [.node fields children]) with
          ⟨child, hchild, way, sub, hway, hsub, hfound⟩ | ⟨hnone, hleft⟩
        · rw [Rose.children_node] at hfound
          rw [hfound]
          refine .inl ⟨.node fields children :: way, sub, .child hchild hway, hsub, ?_⟩
          rw [List.append_assoc, List.singleton_append]
        · rw [Rose.children_node] at hleft
          rw [hleft]
          refine .inr ⟨fun sub hsub => ?_, ?_⟩
          · rcases Rose.mem_subtrees.mp hsub with rfl | ⟨child, hchild, hsub⟩
            · exact hname
            · exact hnone child hchild sub hsub
          · exact Prod.ext rfl List.dropLast_concat

/-! ### Radiation -/

section

variable [LT Double] [DecidableLT Double]

theorem recursiveTraverse_eq (threshold : Double) (node : Node Double)
    (nodes : List (Node Double)) :
  recursiveTraverse threshold node nodes
    = nodes ++ node.subtrees.filter fun sub => threshold < (Node.sensorData sub).radiation
  := by
  induction node using Rose.induction generalizing nodes with
  | h node ih =>
      obtain ⟨fields, children⟩ := node
      have hchildren : ∀ nodes : List (Node Double), traverseChildren threshold children nodes
          = nodes ++ (children.flatMap Rose.subtrees).filter
              fun sub => threshold < (Node.sensorData sub).radiation := by
        rw [Rose.children_node] at ih
        clear nodes
        induction children with
        | nil => simp [traverseChildren]
        | cons child rest ihrest =>
            intro nodes
            rw [traverseChildren, ih child List.mem_cons_self,
              ihrest (fun other hother => ih other (List.mem_cons_of_mem _ hother)),
              List.flatMap_cons, List.filter_append, List.append_assoc]
      rw [recursiveTraverse, hchildren, Rose.subtrees_eq, Rose.children_node, List.filter_cons]
      have hsensor : Node.sensorData (.node fields children) = fields.sensorData := rfl
      rw [hsensor]
      by_cases hradiation : threshold < fields.sensorData.radiation
      · rw [if_pos hradiation, if_pos (decide_eq_true hradiation), List.append_assoc,
          List.singleton_append]
      · rw [if_neg hradiation, if_neg (by simpa using hradiation)]

end

/-! ### Every run -/

/-- The only star of a valid tree is its root. -/
theorem ValidTree.filter_star {starFlag : Bool} {root : Node Double}
    (h : ValidTree starFlag root) :
  (root.subtrees.filter fun node => Node.type node = .star) = [root]
  := by
  have hbelow : (root.children.flatMap Rose.subtrees).filter (fun node => Node.type node = .star)
      = [] := by
    apply List.filter_eq_nil_iff.mpr
    intro node hnode
    obtain ⟨child, hchild, hnode⟩ := List.mem_flatMap.mp hnode
    have hne := ne_star_below (fun node hnode => (h.nodes node hnode).noStar) child hchild node
      hnode
    simpa using hne
  rw [Rose.subtrees_eq, List.filter_cons, if_pos (decide_eq_true h.star), hbelow]

theorem mem_childTypes {node : Node Double} {type : NodeType} :
  type ∈ node.childTypes ↔ ∃ child ∈ node.children, Node.type child = type
  := List.mem_map

theorem length_filter_type (node : Node Double) (type : NodeType) :
  (node.children.filter fun child => Node.type child = type).length = node.childTypes.count type
  := by
  rw [Node.childTypes, List.count_eq_countP, List.countP_map, List.countP_eq_length_filter]
  rfl

variable [LT Double] [DecidableLT Double] [Zero Double]

/-- The rules for the tree, the flags and the queries after any calls. -/
theorem run_tree (calls : List (Call Double)) (root : Node Double)
    (hroot : (run calls).root = some root) :
  (root.subtrees.map Node.name).Nodup
    ∧ Node.type root = .star
    ∧ (root.subtrees.filter fun node => Node.type node = .star) = [root]
    ∧ (∀ node ∈ root.subtrees, Node.type node = .star ∨ Node.type node = .planet →
        (node.children.filter fun child => Node.type child = .planet).length ≤ 1)
    ∧ (∀ node ∈ root.subtrees, ∀ child ∈ node.children,
        Node.type child = .satellite → Node.type node = .planet)
    ∧ (∀ node ∈ root.subtrees, Node.type node = .satellite → node.children = [])
    ∧ ((run calls).starFlag = true ↔ ∃ child ∈ root.children, Node.type child = .planet)
    ∧ (∀ node ∈ root.subtrees, Node.type node = .planet →
        (Node.planetFlag node = true ↔ ∃ child ∈ node.children, Node.type child = .planet))
    ∧ (∀ node ∈ root.subtrees, ∃ way, Rose.IsPath root way node
        ∧ (∀ other, Rose.IsPath root other node → other = way)
        ∧ (run calls).getPathTo (Node.name node)
          = some (way.map fun sub => (Node.type sub).literal ++ " " ++ Node.name sub))
    ∧ (∀ name, (∀ node ∈ root.subtrees, Node.name node ≠ name) →
        (run calls).getPathTo name = some [])
    ∧ (∀ threshold, (run calls).findRadiationAnomalies threshold
        = some (root.subtrees.filter fun node => threshold < (Node.sensorData node).radiation))
  := by
  have h := (run_valid calls).tree root hroot
  refine ⟨h.names, h.star, h.filter_star, ?_, ?_, fun node hnode => (h.nodes node hnode).childless,
    ?_, ?_, ?_, ?_, ?_⟩
  · intro node hnode _
    rw [length_filter_type]
    exact (h.nodes node hnode).onePlanet
  · intro node hnode child hchild hsatellite
    exact (h.nodes node hnode).underPlanet (mem_childTypes.mpr ⟨child, hchild, hsatellite⟩)
  · rw [← mem_childTypes]
    exact ((h.nodes root (Rose.self_mem_subtrees root)).starFlag h.star).2
  · intro node hnode hplanet
    rw [← mem_childTypes]
    exact (h.nodes node hnode).planetFlag hplanet
  · intro node hnode
    rcases findPath_spec (Node.name node) root [] with ⟨way, sub, hway, hname, hfound⟩ | ⟨hnone, _⟩
    · have hsub : sub = node := List.inj_on_of_nodup_map h.names hway.mem hnode hname
      rw [hsub] at hway
      refine ⟨way, hway, fun other hother => hother.unique Fields.name h.names hway rfl, ?_⟩
      rw [getPathTo, hroot, Option.map_some, hfound, List.nil_append]
    · exact absurd rfl (hnone node hnode)
  · intro name hname
    rcases findPath_spec name root [] with ⟨way, sub, hway, hsub, _⟩ | ⟨_, hleft⟩
    · exact absurd hsub (hname sub hway.mem)
    · rw [getPathTo, hroot, Option.map_some, hleft, List.map_nil]
  · intro threshold
    rw [findRadiationAnomalies, hroot, Option.map_some, recursiveTraverse_eq, List.nil_append]

theorem run_tree_satellite :
  ∃ root : Node Int,
    (run [.createPlanetSystem "Sun" 5778 0 0 1, .addPlanet "Earth" "Sun" 288 1 50 0,
      .addSatellite "Moon" "Earth" 220 0 0 2, .addPlanet "Mars" "Sun" 210 1 0 0]).root = some root
      ∧ root.subtrees.map Node.name = ["Sun", "Earth", "Moon"]
      ∧ (root.subtrees.map Node.name).Nodup
  := by
  have hroot : (run [.createPlanetSystem "Sun" 5778 0 0 1, .addPlanet "Earth" "Sun" 288 1 50 0,
      .addSatellite "Moon" "Earth" 220 0 0 2, .addPlanet "Mars" "Sun" (210 : Int) 1 0 0]).root
      = some (.node ⟨"Sun", .star, ⟨5778, 0, 0, 1⟩, false⟩
          [.node ⟨"Earth", .planet, ⟨288, 1, 50, 0⟩, false⟩
            [.node ⟨"Moon", .satellite, ⟨220, 0, 0, 2⟩, false⟩ []]]) := by
    simp [run, step, empty, createPlanetSystem, addPlanet, addSatellite, findNodeByName, findLoop,
      pushChildren, modifyNode, Rose.modifyAt, Node.addChildren, Node.new, Node.name, Node.type,
      Node.planetFlag]
  exact ⟨_, hroot, rfl, (run_tree _ _ hroot).1⟩

end PlanetSystem
