import Homeworks.PlanetSystem.Invariant

/-!
# Calls of a planet system

The tree stays valid under every sequence of calls.
-/

namespace PlanetSystem

variable {Double : Type*}

/-- A call that may change the tree. -/
inductive Call (Double : Type*) where
  | createPlanetSystem (name : String) (temp pressure humidity radiation : Double)
  | addPlanet (name parentName : String) (temp pressure humidity radiation : Double)
  | addSatellite (name parentName : String) (temp pressure humidity radiation : Double)

section

variable [LT Double] [DecidableLT Double] [Zero Double]

/-- The system after a call. -/
def step (system : PlanetSystem Double) : Call Double → PlanetSystem Double
  | .createPlanetSystem name temp pressure humidity radiation =>
      (system.createPlanetSystem name temp pressure humidity radiation).2
  | .addPlanet name parentName temp pressure humidity radiation =>
      (system.addPlanet name parentName temp pressure humidity radiation).2
  | .addSatellite name parentName temp pressure humidity radiation =>
      (system.addSatellite name parentName temp pressure humidity radiation).2

/-- The system after some calls. -/
def run (calls : List (Call Double)) : PlanetSystem Double := calls.foldl step empty

end

structure Valid (system : PlanetSystem Double) : Prop where
  systemFlag : system.systemFlag = system.root.isSome
  starFlag : system.root = none → system.starFlag = false
  tree : ∀ root ∈ system.root, ValidTree system.starFlag root

theorem valid_empty :
  Valid (empty : PlanetSystem Double)
  where
  systemFlag := rfl
  starFlag _ := rfl
  tree _ hroot := nomatch hroot

theorem validTree_star {name : String} {sensorData : SensorData Double} :
  ValidTree false (Node.new name .star sensorData false)
  where
  names := List.nodup_singleton name
  star := rfl
  nodes node hnode := by
    rw [List.mem_singleton.mp hnode]
    exact {
      noStar := List.not_mem_nil
      onePlanet := Nat.zero_le 1
      underPlanet := fun h => absurd h List.not_mem_nil
      childless := fun _ => rfl
      planetFlag := fun h => nomatch h
      starFlag := fun _ =>
        ⟨rfl, fun h => absurd h Bool.false_ne_true, fun h => absurd h List.not_mem_nil⟩ }

/-- A changed tree is valid if it was created. -/
theorem Valid.modifyNode {system : PlanetSystem Double} (h : system.Valid) {root : Node Double}
    (hroot : system.root = some root) {path : List Nat} {f : Node Double → Node Double}
    {starFlag : Bool} (htree : ValidTree starFlag (Rose.modifyAt f path root)) :
  Valid { system.modifyNode path f with starFlag := starFlag }
  where
  systemFlag := by
    rw [PlanetSystem.modifyNode, h.systemFlag, Option.isSome_map]
  starFlag hnone := by
    rw [PlanetSystem.modifyNode, hroot] at hnone
    cases hnone
  tree other hother := by
    rw [PlanetSystem.modifyNode, hroot, Option.map_some, Option.mem_some_iff] at hother
    rw [← hother]
    exact htree

section

variable [LT Double] [DecidableLT Double] [Zero Double]

theorem createPlanetSystem_valid {system : PlanetSystem Double} (h : system.Valid) (name : String)
    (temp pressure humidity radiation : Double) :
  Valid (system.createPlanetSystem name temp pressure humidity radiation).2
  := by
  rw [createPlanetSystem]
  by_cases hflag : system.systemFlag = true
  · rw [if_pos hflag]
    exact h
  · rw [if_neg hflag]
    split
    · exact h
    · split
      · exact h
      · have hnone : system.root = none := by
          rw [h.systemFlag] at hflag
          exact Option.not_isSome_iff_eq_none.mp hflag
        refine ⟨rfl, fun _ => h.starFlag hnone, fun root hroot => ?_⟩
        rw [Option.mem_some_iff] at hroot
        rw [← hroot, h.starFlag hnone]
        exact validTree_star

theorem addPlanet_valid {system : PlanetSystem Double} (h : system.Valid)
    (name parentName : String) (temp pressure humidity radiation : Double) :
  Valid (system.addPlanet name parentName temp pressure humidity radiation).2
  := by
  fun_cases addPlanet system name parentName temp pressure humidity radiation with
  | case7 hcreated _ child path parent hparent hsatellite hname hstar hplanet =>
      obtain ⟨root, hroot⟩ := Option.ne_none_iff_exists'.mp
        (mt Option.isNone_iff_eq_none.mpr hcreated)
      obtain ⟨fields, children⟩ := parent
      have htree := h.tree root hroot
      have hpath := (findNodeByName_some hroot hparent).1
      have hnew := findNodeByName_none hroot (Option.isNone_iff_eq_none.mp hname)
      have hvalid := htree.nodes _ (Rose.mem_subtrees_of_at? hpath)
      dsimp only
      split
      · rename_i htype
        have hnil := htree.path_eq_nil hpath htype.1
        rw [htype.2] at htree hvalid
        exact h.modifyNode hroot (htree.add hpath rfl rfl rfl hnew (by decide)
          (hvalid.addPlanet_star htype.1) (.inl hnil))
      · rename_i hnotStar
        split
        · rename_i htype
          have hchanged : Node.setPlanetFlag true (Node.addChildren child (.node fields children))
              = .node { fields with planetFlag := true } (children ++ [child]) := rfl
          exact h.modifyNode hroot (htree.add hpath hchanged rfl rfl hnew (by decide)
            (hvalid.addPlanet_planet htype.1 htype.2) (.inr rfl))
        · -- Every type has been checked.
          rename_i hnotPlanet
          cases htype : Node.type (.node fields children) with
          | star =>
              have hflag : system.starFlag = false :=
                Bool.eq_false_iff.mpr fun hflag => hstar ⟨htype, hflag⟩
              exact absurd ⟨htype, hflag⟩ hnotStar
          | planet => exact absurd ⟨htype, Bool.eq_false_iff.mpr hplanet⟩ hnotPlanet
          | satellite => exact absurd htype hsatellite
  | _ => exact h

theorem addSatellite_valid {system : PlanetSystem Double} (h : system.Valid)
    (name parentName : String) (temp pressure humidity radiation : Double) :
  Valid (system.addSatellite name parentName temp pressure humidity radiation).2
  := by
  fun_cases addSatellite system name parentName temp pressure humidity radiation with
  | case6 hcreated _ child path parent hparent hsatellite hstar hname =>
      obtain ⟨root, hroot⟩ := Option.ne_none_iff_exists'.mp
        (mt Option.isNone_iff_eq_none.mpr hcreated)
      obtain ⟨fields, children⟩ := parent
      have htree := h.tree root hroot
      have hpath := (findNodeByName_some hroot hparent).1
      have hnew := findNodeByName_none hroot (Option.isNone_iff_eq_none.mp hname)
      have hvalid := htree.nodes _ (Rose.mem_subtrees_of_at? hpath)
      have hplanet : Node.type (.node fields children) = .planet := by
        cases htype : Node.type (.node fields children) with
        | star => exact absurd htype hstar
        | planet => rfl
        | satellite => exact absurd htype hsatellite
      exact h.modifyNode hroot (htree.add hpath rfl rfl rfl hnew (by decide)
        (hvalid.addSatellite hplanet) (.inr rfl))
  | _ => exact h

theorem step_valid {system : PlanetSystem Double} (h : system.Valid) (call : Call Double) :
  (system.step call).Valid
  := by
  cases call with
  | createPlanetSystem name temp pressure humidity radiation =>
      exact createPlanetSystem_valid h name temp pressure humidity radiation
  | addPlanet name parentName temp pressure humidity radiation =>
      exact addPlanet_valid h name parentName temp pressure humidity radiation
  | addSatellite name parentName temp pressure humidity radiation =>
      exact addSatellite_valid h name parentName temp pressure humidity radiation

theorem foldl_step_valid {system : PlanetSystem Double} (h : system.Valid)
    (calls : List (Call Double)) :
  (calls.foldl step system).Valid
  := by
  induction calls generalizing system with
  | nil => exact h
  | cons call calls ih => exact ih (step_valid h call)

/-- The tree is valid after any calls. -/
theorem run_valid (calls : List (Call Double)) :
  (run calls).Valid
  := foldl_step_valid valid_empty calls

end

end PlanetSystem
