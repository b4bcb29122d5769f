import Mathlib.Data.Finset.Prod
import Mathlib.Data.Int.Interval
import Mathlib.Logic.Function.Basic
import Mathlib.Logic.Function.Iterate

/-!
# The robot grid

The robots on a grid move at random until they fight.  The simulation is a machine whose steps are
those of the loops; a fight takes one step for each of its rounds.  The random numbers that are yet
to come are a part of the state.
-/

namespace RobotGame

/-- The classes of robots that are created. -/
inductive Kind where
  | optimusprime
  | robocop
  | roomba
  | bulldozer
  | kamikaze
  deriving DecidableEq, Repr

/-- The strength that `main` sets. -/
def Kind.strength : Kind → ℕ
  | optimusprime => 100
  | robocop => 30
  | roomba => 3
  | bulldozer => 50
  | kamikaze => 10

/-- The hitpoints that `main` sets. -/
def Kind.hitpoints : Kind → ℤ
  | optimusprime => 100
  | robocop => 40
  | roomba => 10
  | bulldozer => 200
  | kamikaze => 10

structure Robot where
  kind : Kind
  x : ℤ
  y : ℤ
  moved : Bool
  hitpoints : ℤ

/-- The results of the next calls of `rand`. -/
abbrev Random := ℕ → ℕ

def Random.drop (rand : Random) (n : ℕ) : Random := fun k => rand (k + n)

/-- `getDamage`, and the random numbers that are left. -/
def Robot.getDamage (robot : Robot) (rand : Random) : ℤ × Random :=
  let damage : ℤ := rand 0 % robot.kind.strength + 1
  match robot.kind with
  | .optimusprime =>
      let damage := if rand 1 % 10 = 0 then damage + 50 else damage
      (if rand 2 % 100 < 15 then damage * 2 else damage, rand.drop 3)
  | .robocop => (if rand 1 % 10 = 0 then damage + 50 else damage, rand.drop 2)
  | .roomba => (damage + (rand 1 % robot.kind.strength + 1), rand.drop 2)
  | .bulldozer => (damage, rand.drop 1)
  | .kamikaze => (robot.hitpoints, rand)

abbrev Cell := ℤ × ℤ

/-- A pointer to one of the robots. -/
abbrev Pointer := Fin 25

/-- What is printed, and which robots move. -/
inductive Event where
  | moves (rbt : Pointer)
  | hits (rbt other : Pointer) (damage : ℤ)
  | newHitpoints (rbt : Pointer) (hitpoints : ℤ)
  | died (rbt : Pointer)
  | wins (rbt : Pointer)
  deriving DecidableEq, Repr

/-- The second message of `hitMessage`. -/
def Event.report (rbt : Pointer) (hitpoints : ℤ) : Event :=
  if hitpoints > 0 then .newHitpoints rbt hitpoints else .died rbt

/-- Where the simulation is: in the loops over the cells, in the loop of one robot, in a round of a
fight, before the search for the winner.  At the end the game is over; a null pointer is a fault. -/
inductive Control where
  | simulation
  | visit (i j : ℕ)
  | moveLoop (i j : ℕ) (rbt : Pointer)
  | fight (i j : ℕ) (rbt : Pointer) (source target : Cell)
  | winner
  | over
  | fault
  deriving DecidableEq, Repr

structure State where
  grid : Cell → Option Pointer
  robots : Pointer → Robot
  count : ℤ
  rand : Random
  events : List Event
  control : Control

/-- The cells in the order of the loops. -/
def cells : List Cell :=
  (List.range 10).flatMap fun i => (List.range 10).map fun j => ((i : ℤ), (j : ℤ))

def InGrid (c : Cell) : Prop := (0 ≤ c.1 ∧ c.1 < 10) ∧ (0 ≤ c.2 ∧ c.2 < 10)

instance (c : Cell) : Decidable (InGrid c) := inferInstanceAs (Decidable ((_ ∧ _) ∧ (_ ∧ _)))

namespace State

/-- The new hitpoints of the other robot, and whether it is dead. -/
def hitMessage (s : State) (rbt other : Pointer) : State × Bool :=
  let (damage, rand) := (s.robots rbt).getDamage s.rand
  let newHitpoints := (s.robots other).hitpoints - damage
  ({ s with
      robots := Function.update s.robots other { s.robots other with hitpoints := newHitpoints }
      rand := rand
      events := s.events ++ [.hits rbt other damage, .report other newHitpoints] },
    newHitpoints ≤ 0)

/-- The end of `move`, after the robot has been moved on the grid. -/
def arrive (s : State) (i j : ℕ) (rbt : Pointer) (target : Cell) : State :=
  { s with
    robots := Function.update s.robots rbt { s.robots rbt with x := target.1, y := target.2 }
    control := .moveLoop i j rbt }

/-- One robot has left the grid, and `source` is empty. -/
def leave (s : State) (source : Cell) : State :=
  { s with grid := Function.update s.grid source none, count := s.count - 1 }

/-- The attacker takes the cell of the victim. -/
def replace (s : State) (source target : Cell) : State :=
  { s with grid := Function.update s.grid target (s.grid source) }

def died (s : State) (rbt : Pointer) : State := { s with events := s.events ++ [.died rbt] }

/-- A round of `fight`. -/
def fightRound (s : State) (i j : ℕ) (rbt : Pointer) (source target : Cell) : State :=
  match s.grid source, s.grid target with
  | some attacker, some victim =>
      let (s, isDeadVic) := s.hitMessage attacker victim
      if (s.robots attacker).kind = .kamikaze then
        ((s.died attacker).leave source).arrive i j rbt target
      else if isDeadVic then
        ((s.replace source target).leave source).arrive i j rbt target
      else
        let (s, isDeadAt) := s.hitMessage victim attacker
        if (s.robots victim).kind = .kamikaze then
          (((s.died victim).replace source target).leave source).arrive i j rbt target
        else if isDeadAt then (s.leave source).arrive i j rbt target
        else s
  | _, _ => { s with control := .fault }

/-- The first lines of `fight`. -/
def startFight (s : State) (i j : ℕ) (rbt : Pointer) (source target : Cell) : State :=
  match s.grid source with
  | some attacker =>
      { s with
        robots := Function.update s.robots attacker { s.robots attacker with moved := true }
        control := .fight i j rbt source target }
  | none => { s with control := .fault }

def moveRobot (s : State) (i j : ℕ) (rbt : Pointer) (source target : Cell) : State :=
  if InGrid source ∧ InGrid target then
    if s.grid target = none then
      { s with
        grid := Function.update (Function.update s.grid target (s.grid source)) source none
        }.arrive i j rbt target
    else s.startFight i j rbt source target
  else s.arrive i j rbt target

/-- The cell that `move` chooses. -/
def direction (robot : Robot) (dir : ℕ) : Cell :=
  match dir with
  | 0 => (robot.x, robot.y - 1)
  | 1 => (robot.x + 1, robot.y)
  | 2 => (robot.x, robot.y + 1)
  | _ => (robot.x - 1, robot.y)

def move (s : State) (i j : ℕ) (rbt : Pointer) : State :=
  let robot := s.robots rbt
  let target := direction robot (s.rand 0 % 4)
  let s := { s with rand := s.rand.drop 1, events := s.events ++ [.moves rbt] }
  if InGrid target then s.moveRobot i j rbt (robot.x, robot.y) target else s

/-- The first loops of `simulation`. -/
def resetMoved (grid : Cell → Option Pointer) (robots : Pointer → Robot) : Pointer → Robot :=
  cells.foldl
    (fun robots c =>
      match grid c with
      | some rbt => Function.update robots rbt { robots rbt with moved := false }
      | none => robots)
    robots

/-- The last loops of `simulation`, where one robot is left. -/
def announce (s : State) : State :=
  match cells.find? fun c => (s.grid c).isSome with
  | some c =>
      { s with
        grid := Function.update s.grid c none
        events := s.events ++ (s.grid c).toList.map Event.wins
        control := .over }
  | none => { s with control := .over }

def step (s : State) : State :=
  match s.control with
  | .simulation => { s with robots := resetMoved s.grid s.robots, control := .visit 0 0 }
  | .visit i j =>
      if i < 10 then
        if j < 10 then
          match s.grid (i, j) with
          | some rbt => { s with control := .moveLoop i j rbt }
          | none => { s with control := .visit i (j + 1) }
        else { s with control := .visit (i + 1) 0 }
      else { s with control := .winner }
  | .moveLoop i j rbt =>
      if (s.robots rbt).moved = false ∧ s.count ≠ 1 then s.move i j rbt
      else if s.count = 1 then { s with control := .winner }
      else { s with control := .visit i (j + 1) }
  | .fight i j rbt source target => s.fightRound i j rbt source target
  | .winner => if s.count = 1 then s.announce else { s with control := .simulation }
  | .over => s
  | .fault => s

end State

/-- The kinds in the order in which the robots are created, five of each. -/
def kindOf (rbt : Pointer) : Kind :=
  if rbt < 5 then .optimusprime
  else if rbt < 10 then .robocop
  else if rbt < 15 then .roomba
  else if rbt < 20 then .bulldozer
  else .kamikaze

/-- A placement of the robots. -/
abbrev Placement := Pointer ↪ Fin 10 × Fin 10

/-- The cell of a robot. -/
def Placement.cell (place : Placement) (rbt : Pointer) : Cell := ((place rbt).1, (place rbt).2)

/-- The state in which `main` calls `simulation` for the first time. -/
def initial (place : Placement) (rand : Random) : State where
  grid := fun c => (List.finRange 25).find? fun rbt => place.cell rbt = c
  robots := fun rbt =>
    ⟨kindOf rbt, (place rbt).1, (place rbt).2, false, (kindOf rbt).hitpoints⟩
  count := 25
  rand := rand
  events := []
  control := .simulation

/-- The state after so many steps. -/
def run (place : Placement) (rand : Random) (n : ℕ) : State := State.step^[n] (initial place rand)

end RobotGame
