import Homeworks.Tree.Rose
import Mathlib.Algebra.GroupWithZero.Nat
import Mathlib.Algebra.Ring.Int.Defs

/-!
# PlanetSystem

The operations of a planet system.  A reference to a node is its address in the tree.  Numbers are
only compared, and nothing is assumed about the comparison.
-/

namespace PlanetSystem

/-! ### Nodes -/

structure SensorData (Double : Type*) where
  temperature : Double
  pressure : Double
  humidity : Double
  radiation : Double

inductive NodeType where
  | star
  | planet
  | satellite
  deriving DecidableEq

/-- The literal of a type. -/
def NodeType.literal : NodeType → String
  | star => "Star"
  | planet => "Planet"
  | satellite => "Satellite"

/-- The fields of a node, except its children. -/
structure Fields (Double : Type*) where
  name : String
  type : NodeType
  sensorData : SensorData Double
  planetFlag : Bool

/-- The fields of a node and its children. -/
abbrev Node (Double : Type*) := Rose (Fields Double)

namespace Node

variable {Double : Type*}

def name (node : Node Double) : String := node.value.name

def type (node : Node Double) : NodeType := node.value.type

def sensorData (node : Node Double) : SensorData Double := node.value.sensorData

def planetFlag (node : Node Double) : Bool := node.value.planetFlag

/-- A node without children. -/
def new (name : String) (type : NodeType) (sensorData : SensorData Double) (planetFlag : Bool) :
    Node Double :=
  .node ⟨name, type, sensorData, planetFlag⟩ []

def addChildren (child node : Node Double) : Node Double :=
  .node node.value (node.children ++ [child])

def setPlanetFlag (planetFlag : Bool) (node : Node Double) : Node Double :=
  .node { node.value with planetFlag := planetFlag } node.children

end Node

end PlanetSystem

/-! ### The system -/

structure PlanetSystem (Double : Type*) where
  root : Option (PlanetSystem.Node Double)
  systemFlag : Bool
  starFlag : Bool

namespace PlanetSystem

variable {Double : Type*}

/-- A system that has not been created. -/
def empty : PlanetSystem Double := ⟨none, false, false⟩

/-! ### Searching -/

/-- The children of a node have been pushed; the last one is on top. -/
def pushChildren (path : List Nat) (children : List (Node Double))
    (stack : List (List Nat × Node Double)) : List (List Nat × Node Double) :=
  (children.zipIdx.map fun e => (path ++ [e.2], e.1)).reverse ++ stack

/-- The number of nodes below the entries of a stack. -/
def stackSize (stack : List (List Nat × Node Double)) : Nat :=
  (stack.map fun e => e.2.subtrees.length).sum

theorem stackSize_cons (path : List Nat) (node : Node Double)
    (stack : List (List Nat × Node Double)) :
  stackSize ((path, node) :: stack) = node.subtrees.length + stackSize stack
  := rfl

theorem stackSize_pushChildren (path : List Nat) (children : List (Node Double))
    (stack : List (List Nat × Node Double)) :
  stackSize (pushChildren path children stack)
    = (children.flatMap Rose.subtrees).length + stackSize stack
  := by
  rw [stackSize, pushChildren, List.map_append, List.sum_append, List.map_reverse,
    List.sum_reverse, List.map_map, List.length_flatMap]
  congr 1
  have hmap : (fun e : List Nat × Node Double => e.2.subtrees.length)
      ∘ (fun e : Node Double × Nat => (path ++ [e.2], e.1))
      = (fun node => node.subtrees.length) ∘ Prod.fst := rfl
  rw [hmap, ← List.map_map, List.zipIdx_map_fst]

/-- The loop of `findNodeByName`; a found node is returned with its address. -/
def findLoop (nodeName : String) :
    List (List Nat × Node Double) → Option (List Nat × Node Double)
  | [] => none
  | (path, current) :: stack =>
      if current.name = nodeName then
        some (path, current)
      else
        findLoop nodeName (pushChildren path current.children stack)
termination_by stack => stackSize stack
decreasing_by
  rw [stackSize_pushChildren, stackSize_cons, Rose.subtrees_eq, List.length_cons]
  omega

def findNodeByName (system : PlanetSystem Double) (nodeName : String) :
    Option (List Nat × Node Double) :=
  system.root.bind fun root => findLoop nodeName [([], root)]

/-! ### Insertions -/

section

variable [LT Double] [DecidableLT Double] [Zero Double]

/-- The message that is printed and the system afterwards. -/
def createPlanetSystem (system : PlanetSystem Double) (name : String)
    (temp pressure humidity radiation : Double) : String × PlanetSystem Double :=
  if system.systemFlag = true then
    ("Planet system already created", system)
  else if temp < 0 ∨ pressure < 0 ∨ humidity < 0 ∨ radiation < 0 then
    ("Sensor data cannot be negative.", system)
  else if humidity > 0 then
    ("Stars do not have humidity", system)
  else
    ("Planet system created.",
      { system with
        root := some (.new name .star ⟨temp, pressure, humidity, radiation⟩ false)
        systemFlag := true })

/-- The node at an address has been changed. -/
def modifyNode (system : PlanetSystem Double) (path : List Nat)
    (f : Node Double → Node Double) : PlanetSystem Double :=
  { system with root := system.root.map (Rose.modifyAt f path) }

def addPlanet (system : PlanetSystem Double) (name parentName : String)
    (temp pressure humidity radiation : Double) : String × PlanetSystem Double :=
  if system.root.isNone then
    ("Planet system is not created yet.", system)
  else if temp < 0 ∨ pressure < 0 ∨ humidity < 0 ∨ radiation < 0 then
    ("Sensor data cannot be negative.", system)
  else
    let child : Node Double := .new name .planet ⟨temp, pressure, humidity, radiation⟩ false
    match system.findNodeByName parentName with
    | none => ("\"" ++ parentName ++ "\" not found in the planet system.", system)
    | some (path, parent) =>
        if parent.type = .satellite then
          ("Satellites do not have planets.", system)
        else if (system.findNodeByName name).isNone then
          if parent.type = .star ∧ system.starFlag = true then
            ("Stars can only have one planet.", system)
          else if parent.planetFlag = true then
            ("Planets can only have one planet.", system)
          else
            ("Planet \"" ++ name ++ "\" added under \"" ++ parentName ++ "\".",
              if parent.type = .star ∧ system.starFlag = false then
                { system.modifyNode path (Node.addChildren child) with starFlag := true }
              else if parent.type = .planet ∧ parent.planetFlag = false then
                system.modifyNode path fun node => (Node.addChildren child node).setPlanetFlag true
              else
                system.modifyNode path (Node.addChildren child))
        else
          ("\"" ++ name ++ "\" already exists in the planet system.", system)

def addSatellite (system : PlanetSystem Double) (name parentName : String)
    (temp pressure humidity radiation : Double) : String × PlanetSystem Double :=
  if system.root.isNone then
    ("Planet system is not created yet", system)
  else if temp < 0 ∨ pressure < 0 ∨ humidity < 0 ∨ radiation < 0 then
    ("Sensor data cannot be negative.", system)
  else
    let child : Node Double := .new name .satellite ⟨temp, pressure, humidity, radiation⟩ false
    match system.findNodeByName parentName with
    | none => ("\"" ++ parentName ++ "\" not found in the planet system.", system)
    | some (path, parent) =>
        if parent.type = .satellite then
          ("Satellites do not have satellites.", system)
        else if parent.type = .star then
          ("Stars do not have sattelites.", system)
        else if (system.findNodeByName name).isNone then
          ("Satellite \"" ++ name ++ "\" added under \"" ++ parentName ++ "\".",
            system.modifyNode path (Node.addChildren child))
        else
          ("\"" ++ name ++ "\" already exists in the planet system.", system)

end

/-! ### Queries -/

mutual

/-- The path is extended to the node with a name, or is left as it was. -/
def findPath (targetName : String) :
    Node Double → List (Node Double) → Bool × List (Node Double)
  | .node fields children, path =>
      let pushed := path ++ [.node fields children]
      if fields.name = targetName then
        (true, pushed)
      else
        match findPathChildren targetName children pushed with
        | (true, found) => (true, found)
        | (false, left) => (false, left.dropLast)

/-- The loop over the children. -/
def findPathChildren (targetName : String) :
    List (Node Double) → List (Node Double) → Bool × List (Node Double)
  | [], path => (false, path)
  | child :: rest, path =>
      match findPath targetName child path with
      | (true, found) => (true, found)
      | (false, left) => findPathChildren targetName rest left

end

def getPathTo (system : PlanetSystem Double) (planetName : String) : Option (List String) :=
  system.root.map fun root =>
    (findPath planetName root []).2.map fun node => node.type.literal ++ " " ++ node.name

section

variable [LT Double] [DecidableLT Double]

mutual

def recursiveTraverse (threshold : Double) :
    Node Double → List (Node Double) → List (Node Double)
  | .node fields children, nodes =>
      traverseChildren threshold children
        (if fields.sensorData.radiation > threshold then
          nodes ++ [.node fields children]
        else
          nodes)

/-- The loop over the children. -/
def traverseChildren (threshold : Double) :
    List (Node Double) → List (Node Double) → List (Node Double)
  | [], nodes => nodes
  | child :: rest, nodes =>
      traverseChildren threshold rest (recursiveTraverse threshold child nodes)

end

def findRadiationAnomalies (system : PlanetSystem Double) (threshold : Double) :
    Option (List (Node Double)) :=
  system.root.map fun root => recursiveTraverse threshold root []

end

end PlanetSystem
