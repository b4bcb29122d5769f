import Homeworks.PlanetSystem.System

/-!
# The tree of a planet system

The names, the types and the flags in the tree after any calls.
-/

namespace PlanetSystem

variable {Double : Type*}

/-! ### Searching for a name -/

theorem mem_pushChildren {path : List Nat} {children : List (Node Double)}
    {stack : List (List Nat × Node Double)} {e : List Nat × Node Double} :
  e ∈ pushChildren path children stack
    ↔ (∃ i, children[i]? = some e.2 ∧ e.1 = path ++ [i]) ∨ e ∈ stack
  := by
  rw [pushChildren, List.mem_append, List.mem_reverse, List.mem_map]
  apply or_congr_left
  constructor
  · rintro ⟨⟨node, i⟩, hmem, rfl⟩
    exact ⟨i, List.mem_zipIdx_iff_getElem?.mp hmem, rfl⟩
  · rintro ⟨i, hi, hpath⟩
    exact ⟨(e.2, i), List.mem_zipIdx_iff_getElem?.mpr hi, Prod.ext hpath.symm rfl⟩

/-- A found node is in the tree at the address that is returned, and has the name. -/
theorem findLoop_some {nodeName : String} {root : Node Double}
    {stack : List (List Nat × Node Double)} (hstack : ∀ e ∈ stack, root.at? e.1 = some e.2)
    {path : List Nat} {node : Node Double} (h : findLoop nodeName stack = some (path, node)) :
  root.at? path = some node ∧ node.name = nodeName
  := by
  fun_induction findLoop nodeName stack with
  | case1 => cases h
  | case2 path' current stack hname =>
      rw [Option.some.injEq, Prod.mk.injEq] at h
      rw [← h.1, ← h.2]
      exact ⟨hstack _ List.mem_cons_self, hname⟩
  | case3 path' current stack hname ih =>
      apply ih _ h
      intro e he
      rcases mem_pushChildren.mp he with ⟨i, hi, hpath⟩ | he
      · rw [hpath, Rose.at?_append, hstack _ List.mem_cons_self, Option.bind_some, Rose.at?, hi,
          Option.bind_some, Rose.at?]
      · exact hstack e (List.mem_cons_of_mem _ he)

/-- No node has the name if none is found. -/
theorem findLoop_none {nodeName : String} {stack : List (List Nat × Node Double)}
    (h : findLoop nodeName stack = none) :
  ∀ e ∈ stack, ∀ node ∈ e.2.subtrees, Node.name node ≠ nodeName
  := by
  fun_induction findLoop nodeName stack with
  | case1 =>
      intro e he
      cases he
  | case2 path current stack hname => cases h
  | case3 path current stack hname ih =>
      intro e he node hnode
      rcases List.mem_cons.mp he with rfl | he
      · rcases Rose.mem_subtrees.mp hnode with rfl | ⟨child, hchild, hnode⟩
        · exact hname
        · obtain ⟨i, hi⟩ := List.mem_iff_getElem?.mp hchild
          exact ih h (path ++ [i], child) (mem_pushChildren.mpr (.inl ⟨i, hi, rfl⟩)) node hnode
      · exact ih h e (mem_pushChildren.mpr (.inr he)) node hnode

theorem findNodeByName_some {system : PlanetSystem Double} {root : Node Double}
    (hroot : system.root = some root) {nodeName : String} {path : List Nat} {node : Node Double}
    (h : system.findNodeByName nodeName = some (path, node)) :
  root.at? path = some node ∧ node.name = nodeName
  := by
  rw [findNodeByName, hroot, Option.bind_some] at h
  apply findLoop_some _ h
  intro e he
  rw [List.mem_singleton.mp he, Rose.at?]

theorem findNodeByName_none {system : PlanetSystem Double} {root : Node Double}
    (hroot : system.root = some root) {nodeName : String}
    (h : system.findNodeByName nodeName = none) :
  ∀ node ∈ root.subtrees, Node.name node ≠ nodeName
  := by
  rw [findNodeByName, hroot, Option.bind_some] at h
  exact findLoop_none h ([], root) List.mem_cons_self

/-! ### Valid trees -/

/-- The types of the children. -/
def Node.childTypes (node : Node Double) : List NodeType :=
  node.children.map fun child => child.value.type

/-- The rules for the children and for the flag of a node. -/
structure Node.Valid (starFlag : Bool) (node : Node Double) : Prop where
  noStar : .star ∉ node.childTypes
  onePlanet : node.childTypes.count .planet ≤ 1
  underPlanet : .satellite ∈ node.childTypes → node.type = .planet
  childless : node.type = .satellite → node.children = []
  planetFlag : node.type = .planet → (node.planetFlag = true ↔ .planet ∈ node.childTypes)
  starFlag : node.type = .star →
    node.planetFlag = false ∧ (starFlag = true ↔ .planet ∈ node.childTypes)

structure ValidTree (starFlag : Bool) (root : Node Double) : Prop where
  names : (root.subtrees.map fun node => node.value.name).Nodup
  star : root.type = .star
  nodes : ∀ node ∈ root.subtrees, Node.Valid starFlag node

theorem Node.Valid.congr {starFlag : Bool} {node other : Node Double}
    (hvalue : node.value = other.value) (htypes : node.childTypes = other.childTypes)
    (h : node.Valid starFlag) :
  other.Valid starFlag
  := by
  have htype : node.type = other.type := congrArg Fields.type hvalue
  have hflag : Node.planetFlag node = other.planetFlag := congrArg Fields.planetFlag hvalue
  constructor
  · exact htypes ▸ h.noStar
  · exact htypes ▸ h.onePlanet
  · exact htypes ▸ htype ▸ h.underPlanet
  · intro hsatellite
    have hchildren := h.childless (htype.trans hsatellite)
    rw [Node.childTypes, hchildren, Node.childTypes] at htypes
    exact List.map_eq_nil_iff.mp htypes.symm
  · exact htypes ▸ htype ▸ hflag ▸ h.planetFlag
  · exact htypes ▸ htype ▸ hflag ▸ h.starFlag

/-- The flag of the star matters only to a star. -/
theorem Node.Valid.of_ne_star {starFlag starFlag' : Bool} {node : Node Double}
    (h : node.Valid starFlag) (hne : node.type ≠ .star) :
  node.Valid starFlag'
  := { h with starFlag := fun hstar => absurd hstar hne }

/-- A new planet or satellite is valid. -/
theorem Node.valid_new {starFlag : Bool} {name : String} {type : NodeType}
    {sensorData : SensorData Double} (htype : type ≠ .star) :
  (Node.new name type sensorData false).Valid starFlag
  where
  noStar := List.not_mem_nil
  onePlanet := Nat.zero_le 1
  underPlanet h := absurd h List.not_mem_nil
  childless _ := rfl
  planetFlag _ := ⟨fun h => absurd h Bool.false_ne_true, fun h => absurd h List.not_mem_nil⟩
  starFlag h := absurd h htype

/-- No node below a child is a star. -/
theorem ne_star_below {root : Node Double}
    (h : ∀ node ∈ root.subtrees, NodeType.star ∉ Node.childTypes node) :
  ∀ child ∈ root.children, ∀ node ∈ child.subtrees, Node.type node ≠ .star
  := by
  induction root using Rose.induction with
  | h root ih =>
      intro child hchild node hnode
      rcases Rose.mem_subtrees.mp hnode with rfl | ⟨below, hbelow, hnode⟩
      · intro hstar
        apply h root (Rose.self_mem_subtrees root)
        rw [← hstar]
        exact List.mem_map_of_mem hchild
      · apply ih child hchild _ below hbelow node hnode
        intro other hother
        exact h other (Rose.mem_subtrees.mpr (.inr ⟨child, hchild, hother⟩))

/-- The star is at the root. -/
theorem ValidTree.path_eq_nil {starFlag : Bool} {root node : Node Double}
    (h : ValidTree starFlag root) {path : List Nat} (hpath : root.at? path = some node)
    (hstar : node.type = .star) :
  path = []
  := by
  cases path with
  | nil => rfl
  | cons i path =>
      rw [Rose.at?, Option.bind_eq_some_iff] at hpath
      obtain ⟨child, hchild, hsub⟩ := hpath
      exact absurd hstar (ne_star_below (fun node hnode => (h.nodes node hnode).noStar) child
        (List.mem_of_getElem? hchild) node (Rose.mem_subtrees_of_at? hsub))

/-! ### Adding a child -/

section

variable {fields fields' : Fields Double} {children : List (Node Double)} {name : String}
  {type : NodeType} {sensorData : SensorData Double}

theorem childTypes_add (fields fields' : Fields Double) :
  Node.childTypes (.node fields' (children ++ [.new name type sensorData false]))
    = Node.childTypes (.node fields children) ++ [type]
  := by
  rw [Node.childTypes, Node.childTypes, Rose.children_node, Rose.children_node, List.map_append]
  rfl

theorem mem_subtrees_add {node : Node Double}
    (h : node ∈ (Rose.node fields (children ++ [.new name type sensorData false])).subtrees) :
  node = .node fields (children ++ [.new name type sensorData false])
    ∨ (∃ child ∈ children, node ∈ child.subtrees)
    ∨ node = .new name type sensorData false
  := by
  rcases Rose.mem_subtrees.mp h with h | ⟨child, hchild, hnode⟩
  · exact .inl h
  · rw [Rose.children_node, List.mem_append, List.mem_singleton] at hchild
    rcases hchild with hchild | rfl
    · exact .inr (.inl ⟨child, hchild, hnode⟩)
    · refine .inr (.inr ?_)
      rcases Rose.mem_subtrees.mp hnode with rfl | ⟨below, hbelow, _⟩
      · rfl
      · cases hbelow

theorem names_add (hname : fields'.name = fields.name) :
  ((Rose.node fields' (children ++ [.new name type sensorData false])).subtrees.map
      fun node => node.value.name).Perm
    (name :: (Rose.node fields children).subtrees.map fun node => node.value.name)
  := by
  have hnew : (Node.new name type sensorData false).subtrees.map (fun node => node.value.name)
      = [name] := rfl
  rw [Rose.subtrees_eq, Rose.subtrees_eq, Rose.children_node, Rose.children_node,
    List.flatMap_append, List.flatMap_singleton, List.map_cons, List.map_append, hnew,
    List.map_cons, Rose.value_node, Rose.value_node, hname]
  exact ((List.perm_append_singleton _ _).cons _).trans (.swap _ _ _)

/-- The star gets its planet. -/
theorem Node.Valid.addPlanet_star (h : Node.Valid false (.node fields children))
    (hstar : fields.type = .star) :
  Node.Valid true (.node fields (children ++ [.new name .planet sensorData false]))
  := by
  have hnone : NodeType.planet ∉ Node.childTypes (.node fields children) := by
    rw [← (h.starFlag hstar).2]
    exact Bool.false_ne_true
  constructor
  · rw [childTypes_add fields, List.mem_append, not_or]
    exact ⟨h.noStar, by decide⟩
  · rw [childTypes_add fields, List.count_append, List.count_eq_zero.mpr hnone]
    decide
  · rw [childTypes_add fields, List.mem_append]
    exact fun hmem => h.underPlanet (hmem.resolve_right (by decide))
  · exact fun hsatellite => absurd (hstar.symm.trans hsatellite) (by decide)
  · exact fun hplanet => absurd (hstar.symm.trans hplanet) (by decide)
  · intro _
    refine ⟨(h.starFlag hstar).1, fun _ => ?_, fun _ => rfl⟩
    rw [childTypes_add fields, List.mem_append]
    exact .inr List.mem_cons_self

/-- A planet gets its planet. -/
theorem Node.Valid.addPlanet_planet {starFlag : Bool}
    (h : Node.Valid starFlag (.node fields children)) (hplanet : fields.type = .planet)
    (hflag : fields.planetFlag = false) :
  Node.Valid starFlag
    (.node { fields with planetFlag := true } (children ++ [.new name .planet sensorData false]))
  := by
  have hnone : NodeType.planet ∉ Node.childTypes (.node fields children) := by
    rw [← h.planetFlag hplanet]
    exact Bool.eq_false_iff.mp hflag
  constructor
  · rw [childTypes_add fields, List.mem_append, not_or]
    exact ⟨h.noStar, by decide⟩
  · rw [childTypes_add fields, List.count_append, List.count_eq_zero.mpr hnone]
    decide
  · exact fun _ => hplanet
  · exact fun hsatellite => absurd (hplanet.symm.trans hsatellite) (by decide)
  · intro _
    refine ⟨fun _ => ?_, fun _ => rfl⟩
    rw [childTypes_add fields, List.mem_append]
    exact .inr List.mem_cons_self
  · exact fun hstar => absurd (hplanet.symm.trans hstar) (by decide)

/-- A planet gets a satellite. -/
theorem Node.Valid.addSatellite {starFlag : Bool}
    (h : Node.Valid starFlag (.node fields children)) (hplanet : fields.type = .planet) :
  Node.Valid starFlag (.node fields (children ++ [.new name .satellite sensorData false]))
  := by
  constructor
  · rw [childTypes_add fields, List.mem_append, not_or]
    exact ⟨h.noStar, by decide⟩
  · rw [childTypes_add fields, List.count_append]
    exact h.onePlanet
  · exact fun _ => hplanet
  · exact fun hsatellite => absurd (hplanet.symm.trans hsatellite) (by decide)
  · intro _
    rw [childTypes_add fields, List.mem_append]
    exact (h.planetFlag hplanet).trans ⟨.inl, fun hmem => hmem.resolve_right (by decide)⟩
  · exact fun hstar => absurd (hplanet.symm.trans hstar) (by decide)

/-- A tree stays valid when a node gets a new child.  The flag of the star may be changed if the
node is the root. -/
theorem ValidTree.add {starFlag starFlag' : Bool} {root : Node Double}
    (h : ValidTree starFlag root) {path : List Nat}
    (hpath : root.at? path = some (.node fields children)) {f : Node Double → Node Double}
    (hf : f (.node fields children)
      = .node fields' (children ++ [.new name type sensorData false]))
    (hname : fields'.name = fields.name) (htype : fields'.type = fields.type)
    (hnew : ∀ node ∈ root.subtrees, Node.name node ≠ name) (hstar : type ≠ .star)
    (hvalid : Node.Valid starFlag'
      (.node fields' (children ++ [.new name type sensorData false])))
    (hflag : path = [] ∨ starFlag' = starFlag) :
  ValidTree starFlag' (Rose.modifyAt f path root)
  := by
  have hparent : .node fields children ∈ root.subtrees := Rose.mem_subtrees_of_at? hpath
  have hbelow : ∀ node ∈ (f (.node fields children)).subtrees, Node.Valid starFlag' node := by
    intro node hnode
    rw [hf] at hnode
    rcases mem_subtrees_add hnode with rfl | ⟨child, hchild, hnode⟩ | rfl
    · exact hvalid
    · have hmem : node ∈ (Rose.node fields children).subtrees :=
        Rose.mem_subtrees.mpr (.inr ⟨child, hchild, hnode⟩)
      apply (h.nodes node (Rose.subtrees_trans hparent hmem)).of_ne_star
      exact ne_star_below
        (fun other hother => (h.nodes other (Rose.subtrees_trans hparent hother)).noStar)
        child hchild node hnode
    · exact Node.valid_new hstar
  constructor
  · have hadded : ((f (.node fields children)).subtrees.map fun node => node.value.name).Perm
        (name :: (Rose.node fields children).subtrees.map fun node => node.value.name) := by
      rw [hf]
      exact names_add hname
    have hperm := Rose.modifyAt_perm f Fields.name hpath hadded
    rw [hperm.nodup_iff, List.nodup_cons, List.mem_map]
    refine ⟨?_, h.names⟩
    rintro ⟨node, hnode, hnodeName⟩
    exact hnew node hnode hnodeName
  · cases path with
    | nil =>
        rw [Rose.at?, Option.some.injEq] at hpath
        rw [Rose.modifyAt, hpath, hf]
        exact htype.trans (by rw [← h.star, hpath]; rfl)
    | cons i path => exact h.star
  · rcases hflag with rfl | rfl
    · rw [Rose.at?, Option.some.injEq] at hpath
      rw [Rose.modifyAt, hpath]
      exact hbelow
    · have hkey : (f (.node fields children)).value.type
          = (Rose.node fields children).value.type := by
        rw [hf]
        exact htype
      exact (Rose.forall_modifyAt f Fields.type
        (fun tree other hvalue htypes => Node.Valid.congr hvalue htypes) hpath hkey hbelow
        h.nodes).2

end

end PlanetSystem
