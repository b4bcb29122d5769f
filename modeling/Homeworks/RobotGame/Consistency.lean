import Homeworks.RobotGame.Grid
import Mathlib.Data.Finset.Card

/-!
# The grid stays consistent

The counter is the number of occupied cells, and every robot is where its coordinates are.  A round
of a fight that does not end it takes hitpoints from the victim, so that every fight ends; then one
robot has left the grid.
-/

namespace RobotGame

/-! ### Occupied cells -/

/-- The coordinates of cells of the grid. -/
def coordinates : Finset Int :=
  @Finset.Ico Int instLatticeInt.toSemilatticeInf.toPartialOrder.toPreorder
    Int.instLocallyFiniteOrder 0 10

def occupied (grid : Cell → Option Pointer) : Finset Cell :=
  (coordinates ×ˢ coordinates).filter fun c => (grid c).isSome

variable {grid : Cell → Option Pointer} {c source target : Cell} {rbt : Pointer}

theorem mem_occupied :
  c ∈ occupied grid ↔ InGrid c ∧ (grid c).isSome = true
  := by
  rw [occupied, Finset.mem_filter, Finset.mem_product, coordinates, Finset.mem_Ico,
    Finset.mem_Ico]
  rfl

theorem occupied_update_none :
  occupied (Function.update grid c none) = (occupied grid).erase c
  := by
  ext d
  rw [Finset.mem_erase, mem_occupied, mem_occupied]
  rcases eq_or_ne d c with rfl | hne
  · simp
  · simp [hne]

theorem occupied_update_some (hc : InGrid c) :
  occupied (Function.update grid c (some rbt)) = insert c (occupied grid)
  := by
  ext d
  rw [Finset.mem_insert, mem_occupied, mem_occupied]
  rcases eq_or_ne d c with rfl | hne
  · simp [hc]
  · simp [hne]

/-! ### Consistent states -/

def Robot.cell (robot : Robot) : Cell := (robot.x, robot.y)

structure Consistent (s : State) : Prop where
  count : s.count = (occupied s.grid).card
  once : ∀ c c' rbt, s.grid c = some rbt → s.grid c' = some rbt → c = c'
  coordinates : ∀ c rbt, s.grid c = some rbt → (s.robots rbt).cell = c

/-- Moreover the robots are inside the grid. -/
structure Board (s : State) : Prop where
  count : s.count = (occupied s.grid).card
  coordinates : ∀ c rbt, s.grid c = some rbt → (s.robots rbt).cell = c
  inside : ∀ c rbt, s.grid c = some rbt → InGrid c

theorem Board.consistent {s : State} (h : Board s) :
  Consistent s
  := ⟨h.count, fun _ _ _ hc hc' => (h.coordinates _ _ hc).symm.trans (h.coordinates _ _ hc'),
    h.coordinates⟩

/-- The robots are where they were. -/
structure SameBoard (s t : State) : Prop where
  grid : t.grid = s.grid
  count : t.count = s.count
  cell : ∀ rbt, (t.robots rbt).cell = (s.robots rbt).cell

variable {s t : State} {i j : ℕ}

theorem SameBoard.trans {u : State} (h : SameBoard s t) (h' : SameBoard t u) :
  SameBoard s u
  := ⟨h'.grid.trans h.grid, h'.count.trans h.count, fun rbt => (h'.cell rbt).trans (h.cell rbt)⟩

theorem Board.congr (h : Board s) (hst : SameBoard s t) :
  Board t
  := by
  constructor
  · rw [hst.count, hst.grid]
    exact h.count
  · intro c rbt hc
    rw [hst.cell]
    exact h.coordinates c rbt (hst.grid ▸ hc)
  · exact fun c rbt hc => h.inside c rbt (hst.grid ▸ hc)

theorem Board.mem_occupied_of_eq_some (h : Board s) (hc : s.grid c = some rbt) :
  c ∈ occupied s.grid
  := mem_occupied.mpr ⟨h.inside c rbt hc, hc ▸ rfl⟩

theorem sameBoard_hitMessage (s : State) (rbt other : Pointer) :
  SameBoard s (s.hitMessage rbt other).1
  := by
  refine ⟨rfl, rfl, fun r => ?_⟩
  rw [State.hitMessage]
  dsimp only
  rcases eq_or_ne r other with rfl | hne
  · rw [Function.update_self]
    rfl
  · rw [Function.update_of_ne hne]

theorem sameBoard_died (s : State) (rbt : Pointer) :
  SameBoard s (s.died rbt)
  := ⟨rfl, rfl, fun _ => rfl⟩

/-- The coordinates after a move. -/
theorem cell_arrive (s : State) (i j : ℕ) (rbt : Pointer) (target : Cell) (r : Pointer) :
  ((s.arrive i j rbt target).robots r).cell
    = if r = rbt then target else (s.robots r).cell
  := by
  rw [State.arrive]
  dsimp only
  split_ifs with heq
  · rw [heq, Function.update_self]
    rfl
  · rw [Function.update_of_ne heq]

/-- A robot is taken from the grid. -/
theorem Board.leave (h : Board s) (hsource : s.grid source = some rbt) :
  Board ((s.leave source).arrive i j rbt target)
  := by
  have hgrid : ∀ {c r}, ((s.leave source).arrive i j rbt target).grid c = some r →
      c ≠ source ∧ s.grid c = some r := by
    intro c r hc
    change Function.update s.grid source none c = some r at hc
    rcases eq_or_ne c source with rfl | hne
    · rw [Function.update_self] at hc
      cases hc
    · rw [Function.update_of_ne hne] at hc
      exact ⟨hne, hc⟩
  constructor
  · change s.count - 1 = (occupied (Function.update s.grid source none)).card
    have hcard := Finset.card_erase_add_one (h.mem_occupied_of_eq_some hsource)
    rw [h.count, occupied_update_none]
    omega
  · intro c r hc
    obtain ⟨hne, hold⟩ := hgrid hc
    rw [cell_arrive, if_neg]
    · exact h.coordinates c r hold
    · rintro rfl
      exact hne (h.consistent.once _ _ _ hold hsource)
  · exact fun c r hc => h.inside c r (hgrid hc).2

/-- A robot is moved to another cell. -/
theorem Board.moved (h : Board s) (hsource : s.grid source = some rbt) (htarget : InGrid target)
    (hgrid : t.grid = Function.update (Function.update s.grid target (some rbt)) source none)
    (hcell : ∀ r, (t.robots r).cell = if r = rbt then target else (s.robots r).cell)
    (hcount : t.count = ((insert target (occupied s.grid)).erase source).card) :
  Board t
  := by
  have hwhere : ∀ {c r}, t.grid c = some r →
      c = target ∧ r = rbt ∨ c ≠ source ∧ s.grid c = some r := by
    intro c r hc
    rw [hgrid] at hc
    rcases eq_or_ne c source with rfl | hne
    · rw [Function.update_self] at hc
      cases hc
    · rw [Function.update_of_ne hne] at hc
      rcases eq_or_ne c target with rfl | hne'
      · rw [Function.update_self] at hc
        exact .inl ⟨rfl, (Option.some.inj hc).symm⟩
      · rw [Function.update_of_ne hne'] at hc
        exact .inr ⟨hne, hc⟩
  constructor
  · rw [hcount, hgrid, occupied_update_none, occupied_update_some htarget]
  · intro c r hc
    rw [hcell]
    rcases hwhere hc with ⟨rfl, rfl⟩ | ⟨hne, hold⟩
    · rw [if_pos rfl]
    · rw [if_neg]
      · exact h.coordinates c r hold
      · rintro rfl
        exact hne (h.consistent.once _ _ _ hold hsource)
  · intro c r hc
    rcases hwhere hc with ⟨rfl, rfl⟩ | ⟨hne, hold⟩
    · exact htarget
    · exact h.inside c r hold

/-- The attacker takes the cell of the victim. -/
theorem Board.replace {victim : Pointer} (h : Board s) (hsource : s.grid source = some rbt)
    (htarget : s.grid target = some victim) :
  Board (((s.replace source target).leave source).arrive i j rbt target)
  := by
  apply h.moved hsource (h.inside _ _ htarget)
  · change Function.update (Function.update s.grid target (s.grid source)) source none = _
    rw [hsource]
  · exact fun r => cell_arrive _ i j rbt target r
  · have hcard := Finset.card_erase_add_one (h.mem_occupied_of_eq_some hsource)
    rw [Finset.insert_eq_of_mem (h.mem_occupied_of_eq_some htarget)]
    change s.count - 1 = _
    rw [h.count]
    omega

/-- A robot goes to an empty cell. -/
theorem Board.go (h : Board s) (hsource : s.grid source = some rbt) (hempty : s.grid target = none)
    (htarget : InGrid target) :
  Board (State.arrive { s with
    grid := Function.update (Function.update s.grid target (s.grid source)) source none
    } i j rbt target)
  := by
  apply h.moved hsource htarget
  · change Function.update (Function.update s.grid target (s.grid source)) source none = _
    rw [hsource]
  · exact fun r => cell_arrive _ i j rbt target r
  · have hnew : target ∉ occupied s.grid := by
      rw [mem_occupied, hempty]
      exact fun hmem => Bool.false_ne_true hmem.2
    have hold := Finset.mem_insert_of_mem (b := target) (h.mem_occupied_of_eq_some hsource)
    have hcard := Finset.card_erase_add_one hold
    rw [Finset.card_insert_of_notMem hnew] at hcard
    change s.count = _
    rw [h.count]
    omega

/-! ### Fights -/

/-- What a round does: the attacker leaves as a kamikaze, the victim leaves dead or as a kamikaze,
the attacker leaves dead, or the fight goes on. -/
theorem fightRound_cases {attacker victim : Pointer} (hsource : s.grid source = some attacker)
    (htarget : s.grid target = some victim) (i j : ℕ) (rbt : Pointer) :
  let s₁ := (s.hitMessage attacker victim).1
  let s₂ := (s₁.hitMessage victim attacker).1
  let next := s.fightRound i j rbt source target
  ((s₁.robots attacker).kind = .kamikaze
      ∧ next = ((s₁.died attacker).leave source).arrive i j rbt target)
    ∨ ((s₁.robots attacker).kind ≠ .kamikaze
      ∧ (((s₁.robots victim).hitpoints ≤ 0
          ∧ next = ((s₁.replace source target).leave source).arrive i j rbt target)
        ∨ (0 < (s₁.robots victim).hitpoints
          ∧ (((s₂.robots victim).kind = .kamikaze
              ∧ next = (((s₂.died victim).replace source target).leave source).arrive i j rbt
                target)
            ∨ ((s₂.robots victim).kind ≠ .kamikaze
              ∧ (((s₂.robots attacker).hitpoints ≤ 0
                  ∧ next = (s₂.leave source).arrive i j rbt target)
                ∨ (0 < (s₂.robots attacker).hitpoints ∧ next = s₂)))))))
  := by
  have hdead : ∀ (u : State) (a v : Pointer), (u.hitMessage a v).2 = true
      ↔ ((u.hitMessage a v).1.robots v).hitpoints ≤ 0 := by
    intro u a v
    simp [State.hitMessage]
  intro s₁ s₂ next
  have hnext : next = s.fightRound i j rbt source target := rfl
  rw [State.fightRound, hsource, htarget] at hnext
  dsimp only at hnext
  split_ifs at hnext with ha hvictim hv hattacker
  · exact .inl ⟨ha, hnext⟩
  · exact .inr ⟨ha, .inl ⟨(hdead _ _ _).mp hvictim, hnext⟩⟩
  · exact .inr ⟨ha, .inr ⟨not_le.mp fun hle => hvictim ((hdead _ _ _).mpr hle),
      .inl ⟨hv, hnext⟩⟩⟩
  · exact .inr ⟨ha, .inr ⟨not_le.mp fun hle => hvictim ((hdead _ _ _).mpr hle),
      .inr ⟨hv, .inl ⟨(hdead _ _ _).mp hattacker, hnext⟩⟩⟩⟩
  · exact .inr ⟨ha, .inr ⟨not_le.mp fun hle => hvictim ((hdead _ _ _).mpr hle),
      .inr ⟨hv, .inr ⟨not_le.mp fun hle => hattacker ((hdead _ _ _).mpr hle), hnext⟩⟩⟩⟩

/-! ### Steps -/

/-- What the machine relies on where it is. -/
def ControlValid (s : State) : Control → Prop
  | .moveLoop _ _ rbt => (s.robots rbt).moved = false → ∃ c, s.grid c = some rbt
  | .fight _ _ rbt source target => s.grid source = some rbt ∧ source ≠ target
      ∧ (∃ victim, s.grid target = some victim) ∧ (s.robots rbt).moved = true
  | .over => False
  | .fault => False
  | _ => True

structure Valid (s : State) : Prop where
  board : Board s
  control : ControlValid s s.control

def State.Fighting (s : State) : Prop :=
  ∃ i j rbt source target, s.control = .fight i j rbt source target

/-- The robots on the grid. -/
def State.onGrid (s : State) : Set Pointer := {rbt | ∃ c, s.grid c = some rbt}

/-- The hitpoints and kinds after a hit. -/
theorem robots_hitMessage (s : State) (rbt other : Pointer) :
  (s.hitMessage rbt other).1.robots
    = Function.update s.robots other { s.robots other with
        hitpoints := (s.robots other).hitpoints - ((s.robots rbt).getDamage s.rand).1 }
  := rfl

theorem kind_hitMessage (s : State) (rbt other r : Pointer) :
  ((s.hitMessage rbt other).1.robots r).kind = (s.robots r).kind
  := by
  rw [robots_hitMessage]
  rcases eq_or_ne r other with rfl | hne
  · rw [Function.update_self]
  · rw [Function.update_of_ne hne]

theorem moved_hitMessage (s : State) (rbt other r : Pointer) :
  ((s.hitMessage rbt other).1.robots r).moved = (s.robots r).moved
  := by
  rw [robots_hitMessage]
  rcases eq_or_ne r other with rfl | hne
  · rw [Function.update_self]
  · rw [Function.update_of_ne hne]

theorem moved_arrive (s : State) (i j : ℕ) (rbt : Pointer) (target : Cell) (r : Pointer) :
  ((s.arrive i j rbt target).robots r).moved = (s.robots r).moved
  := by
  rw [State.arrive]
  dsimp only
  rcases eq_or_ne r rbt with rfl | hne
  · rw [Function.update_self]
  · rw [Function.update_of_ne hne]

theorem sameBoard_resetMoved (s : State) :
  SameBoard s { s with robots := State.resetMoved s.grid s.robots, control := .visit 0 0 }
  := by
  refine ⟨rfl, rfl, fun rbt => ?_⟩
  rw [State.resetMoved]
  dsimp only
  generalize s.robots = robots
  induction cells generalizing robots with
  | nil => rfl
  | cons c cs ih =>
      rw [List.foldl_cons, ih]
      cases s.grid c with
      | none => rfl
      | some r =>
          dsimp only
          rcases eq_or_ne rbt r with rfl | hne
          · rw [Function.update_self]
            rfl
          · rw [Function.update_of_ne hne]

theorem direction_ne (robot : Robot) (dir : ℕ) :
  robot.cell ≠ State.direction robot dir
  := by
  intro heq
  unfold Robot.cell State.direction at heq
  split at heq
  all_goals
    rw [Prod.mk.injEq] at heq
    omega

/-- After a fight its robot is not moved again. -/
theorem Valid.arrive (hboard : Board (s.arrive i j rbt target))
    (hmoved : (s.robots rbt).moved = true) :
  Valid (s.arrive i j rbt target)
  := by
  refine ⟨hboard, fun hnot => ?_⟩
  rw [moved_arrive, hmoved] at hnot
  cases hnot

theorem Board.move (h : Board s) (hon : ∃ c, s.grid c = some rbt)
    (hcontrol : s.control = .moveLoop i j rbt) :
  Valid (s.move i j rbt)
  := by
  obtain ⟨c, hc⟩ := hon
  have hcell : ((s.robots rbt).x, (s.robots rbt).y) = c := h.coordinates c rbt hc
  have hne := direction_ne (s.robots rbt) (s.rand 0 % 4)
  rw [State.move]
  generalize State.direction (s.robots rbt) (s.rand 0 % 4) = target at hne ⊢
  generalize hu : ({ s with rand := s.rand.drop 1, events := s.events ++ [.moves rbt] } : State) = u
  have hsame : SameBoard s u := hu ▸ ⟨rfl, rfl, fun _ => rfl⟩
  have hboard := h.congr hsame
  have hgrid : u.grid c = some rbt := hsame.grid ▸ hc
  split_ifs with htarget
  · rw [State.moveRobot, hcell, if_pos ⟨h.inside c rbt hc, htarget⟩]
    split_ifs with hempty
    · refine ⟨hboard.go hgrid hempty htarget, fun _ => ⟨target, ?_⟩⟩
      change Function.update (Function.update u.grid target (u.grid c)) c none target = some rbt
      rw [Function.update_of_ne (hcell ▸ hne.symm), Function.update_self, hgrid]
    · rw [State.startFight, hgrid]
      refine ⟨hboard.congr ⟨rfl, rfl, fun r => ?_⟩, hgrid, hcell ▸ hne,
        Option.ne_none_iff_exists'.mp hempty, ?_⟩
      · dsimp only
        rcases eq_or_ne r rbt with rfl | hne'
        · rw [Function.update_self]
          rfl
        · rw [Function.update_of_ne hne']
      · dsimp only
        rw [Function.update_self]
  · refine ⟨hboard, ?_⟩
    rw [← hu]
    dsimp only
    rw [hcontrol]
    exact fun _ => ⟨c, hc⟩

/-- A kamikaze apart every robot does damage. -/
theorem getDamage_pos {robot : Robot} (h : robot.kind ≠ .kamikaze) (rand : Random) :
  0 < (robot.getDamage rand).1
  := by
  have hdamage : ∀ k, (0 : ℤ) < (rand k : ℤ) % robot.kind.strength + 1 := by
    intro k
    have hnonneg := Int.emod_nonneg (rand k : ℤ) (b := robot.kind.strength) (by
      cases robot.kind <;> decide)
    omega
  have hzero := hdamage 0
  have hone := hdamage 1
  rw [Robot.getDamage]
  dsimp only
  generalize (rand 0 : ℤ) % robot.kind.strength = d at *
  generalize (rand 1 : ℤ) % robot.kind.strength = e at *
  cases hkind : robot.kind with
  | kamikaze => exact absurd hkind h
  | optimusprime =>
      dsimp only
      split_ifs <;> omega
  | robocop =>
      dsimp only
      split_ifs <;> omega
  | roomba =>
      dsimp only
      omega
  | bulldozer => exact hzero

/-! ### Robots on the grid -/

theorem onGrid_of_sameBoard (h : SameBoard s t) :
  t.onGrid = s.onGrid
  := by
  unfold State.onGrid
  rw [h.grid]

theorem Board.onGrid_leave (h : Board s) (hsource : s.grid source = some rbt) (i j : ℕ)
    (r : Pointer) (target : Cell) :
  ((s.leave source).arrive i j r target).onGrid = s.onGrid \ {rbt}
  := by
  ext x
  change (∃ c, Function.update s.grid source none c = some x) ↔ (∃ c, s.grid c = some x) ∧ x ≠ rbt
  constructor
  · rintro ⟨c, hc⟩
    rcases eq_or_ne c source with rfl | hne
    · rw [Function.update_self] at hc
      cases hc
    · rw [Function.update_of_ne hne] at hc
      refine ⟨⟨c, hc⟩, ?_⟩
      rintro rfl
      exact hne (h.consistent.once _ _ _ hc hsource)
  · rintro ⟨⟨c, hc⟩, hx⟩
    have hne : c ≠ source := by
      rintro rfl
      exact hx (Option.some.inj (hc.symm.trans hsource))
    exact ⟨c, (Function.update_of_ne hne _ _).trans hc⟩

theorem Board.onGrid_replace {victim : Pointer} (h : Board s) (hsource : s.grid source = some rbt)
    (htarget : s.grid target = some victim) (hne : source ≠ target) (i j : ℕ) (r : Pointer) :
  (((s.replace source target).leave source).arrive i j r target).onGrid = s.onGrid \ {victim}
  := by
  ext x
  change (∃ c, Function.update (Function.update s.grid target (s.grid source)) source none c
    = some x) ↔ (∃ c, s.grid c = some x) ∧ x ≠ victim
  constructor
  · rintro ⟨c, hc⟩
    rcases eq_or_ne c source with rfl | hcs
    · rw [Function.update_self] at hc
      cases hc
    · rw [Function.update_of_ne hcs] at hc
      rcases eq_or_ne c target with rfl | hct
      · rw [Function.update_self] at hc
        refine ⟨⟨source, hc⟩, ?_⟩
        rintro rfl
        exact hne (h.consistent.once _ _ _ hc htarget)
      · rw [Function.update_of_ne hct] at hc
        refine ⟨⟨c, hc⟩, ?_⟩
        rintro rfl
        exact hct (h.consistent.once _ _ _ hc htarget)
  · rintro ⟨⟨c, hc⟩, hx⟩
    have hct : c ≠ target := by
      rintro rfl
      exact hx (Option.some.inj (hc.symm.trans htarget))
    rcases eq_or_ne c source with rfl | hcs
    · use target
      rw [Function.update_of_ne hne.symm, Function.update_self, hc]
    · use c
      rw [Function.update_of_ne hcs, Function.update_of_ne hct, hc]

/-- A round ends the fight, with one robot less, or it takes hitpoints from a victim that stays. -/
theorem Valid.fightRound {victim : Pointer} (h : Valid s)
    (hcontrol : s.control = .fight i j rbt source target) (htarget : s.grid target = some victim) :
  Valid s.step
    ∧ ((s.step.control = .moveLoop i j rbt
        ∧ ∃ r ∈ s.onGrid, s.step.onGrid = s.onGrid \ {r})
      ∨ (s.step.control = s.control ∧ s.step.grid = s.grid
        ∧ 0 < (s.step.robots victim).hitpoints
        ∧ (s.step.robots victim).hitpoints < (s.robots victim).hitpoints))
  := by
  obtain ⟨hboard, hvalid⟩ := h
  rw [hcontrol] at hvalid
  obtain ⟨hsource, hne, -, hmoved⟩ := hvalid
  have hstep : s.step = s.fightRound i j rbt source target := by
    rw [State.step, hcontrol]
  have hcases := fightRound_cases hsource htarget i j rbt
  dsimp only at hcases
  have hs₁ := sameBoard_hitMessage s rbt victim
  have hm₁ := moved_hitMessage s rbt victim rbt
  generalize hu₁ : (s.hitMessage rbt victim).1 = s₁ at hcases hs₁ hm₁
  have hs₂ := hs₁.trans (sameBoard_hitMessage s₁ victim rbt)
  have hm₂ := (moved_hitMessage s₁ victim rbt rbt).trans hm₁
  generalize hu₂ : (s₁.hitMessage victim rbt).1 = s₂ at hcases hs₂ hm₂
  rw [hstep]
  -- both ends of a fight, from a state on the same board
  have hleave : ∀ x, SameBoard s x → (x.robots rbt).moved = (s.robots rbt).moved →
      s.fightRound i j rbt source target = (x.leave source).arrive i j rbt target →
      Valid (s.fightRound i j rbt source target)
        ∧ (s.fightRound i j rbt source target).control = .moveLoop i j rbt
        ∧ ∃ r ∈ s.onGrid, (s.fightRound i j rbt source target).onGrid = s.onGrid \ {r} := by
    intro x hx hmx hround
    have hsx : x.grid source = some rbt := hx.grid ▸ hsource
    rw [hround]
    refine ⟨Valid.arrive ((hboard.congr hx).leave hsx) (hmx.trans hmoved), rfl, rbt,
      ⟨source, hsource⟩, ?_⟩
    rw [(hboard.congr hx).onGrid_leave hsx, onGrid_of_sameBoard hx]
  have hreplace : ∀ x, SameBoard s x → (x.robots rbt).moved = (s.robots rbt).moved →
      s.fightRound i j rbt source target
        = ((x.replace source target).leave source).arrive i j rbt target →
      Valid (s.fightRound i j rbt source target)
        ∧ (s.fightRound i j rbt source target).control = .moveLoop i j rbt
        ∧ ∃ r ∈ s.onGrid, (s.fightRound i j rbt source target).onGrid = s.onGrid \ {r} := by
    intro x hx hmx hround
    have hsx : x.grid source = some rbt := hx.grid ▸ hsource
    have htx : x.grid target = some victim := hx.grid ▸ htarget
    rw [hround]
    refine ⟨Valid.arrive ((hboard.congr hx).replace hsx htx) (hmx.trans hmoved), rfl, victim,
      ⟨target, htarget⟩, ?_⟩
    rw [(hboard.congr hx).onGrid_replace hsx htx hne, onGrid_of_sameBoard hx]
  rcases hcases with ⟨-, hround⟩ | ⟨hkind, ⟨-, hround⟩ | ⟨hpos, ⟨-, hround⟩ |
    ⟨-, ⟨-, hround⟩ | ⟨-, hround⟩⟩⟩⟩
  · obtain ⟨hv, hend⟩ := hleave _ (hs₁.trans (sameBoard_died s₁ rbt)) hm₁ hround
    exact ⟨hv, .inl hend⟩
  · obtain ⟨hv, hend⟩ := hreplace _ hs₁ hm₁ hround
    exact ⟨hv, .inl hend⟩
  · obtain ⟨hv, hend⟩ := hreplace _ (hs₂.trans (sameBoard_died s₂ victim)) hm₂ hround
    exact ⟨hv, .inl hend⟩
  · obtain ⟨hv, hend⟩ := hleave _ hs₂ hm₂ hround
    exact ⟨hv, .inl hend⟩
  · rw [hround]
    have hcontrol₂ : s₂.control = s.control := by
      rw [← hu₂, ← hu₁]
      rfl
    refine ⟨⟨hboard.congr hs₂, ?_⟩, .inr ⟨hcontrol₂, hs₂.grid, ?_⟩⟩
    · rw [hcontrol₂, hcontrol]
      exact ⟨hs₂.grid ▸ hsource, hne, ⟨victim, hs₂.grid ▸ htarget⟩, hm₂.trans hmoved⟩
    · have hother : victim ≠ rbt := by
        rintro rfl
        exact hne (hboard.consistent.once _ _ _ hsource htarget)
      have hsame : s₂.robots victim = s₁.robots victim := by
        rw [← hu₂, robots_hitMessage, Function.update_of_ne hother]
      have hhit : (s₁.robots victim).hitpoints
          = (s.robots victim).hitpoints - ((s.robots rbt).getDamage s.rand).1 := by
        rw [← hu₁, robots_hitMessage, Function.update_self]
      have hdamage : 0 < ((s.robots rbt).getDamage s.rand).1 := by
        apply getDamage_pos
        rwa [← hu₁, kind_hitMessage] at hkind
      rw [hsame]
      exact ⟨hpos, by omega⟩

/-- Every fight ends, and one robot leaves the grid in it. -/
theorem Valid.fight_ends (h : Valid s) (hfight : s.Fighting) :
  ∃ m, (∀ k ≤ m, (State.step^[k] s).Fighting) ∧ ¬ (State.step^[m + 1] s).Fighting
    ∧ ∃ rbt ∈ s.onGrid, (State.step^[m + 1] s).onGrid = s.onGrid \ {rbt}
  := by
  obtain ⟨i, j, rbt, source, target, hcontrol⟩ := hfight
  have hvalid := h.control
  rw [hcontrol] at hvalid
  obtain ⟨-, -, ⟨victim, htarget⟩, -⟩ := hvalid
  -- the victim loses hitpoints in every round but the last
  induction hn : (s.robots victim).hitpoints.toNat using Nat.strong_induction_on generalizing s with
  | h n ih =>
      have hfighting : s.Fighting := ⟨i, j, rbt, source, target, hcontrol⟩
      obtain ⟨hnext, ⟨hend, hleft⟩ | ⟨hsame, hgrid, hpos, hlt⟩⟩ := h.fightRound hcontrol htarget
      · refine ⟨0, fun k hk => ?_, ?_, hleft⟩
        · rw [Nat.le_zero.mp hk]
          exact hfighting
        · rintro ⟨_, _, _, _, _, hagain⟩
          change s.step.control = _ at hagain
          rw [hend] at hagain
          cases hagain
      · obtain ⟨m, hall, hnot, r, hr, hleft⟩ := ih (s.step.robots victim).hitpoints.toNat
          (by omega) hnext (hsame.trans hcontrol) (hgrid ▸ htarget) rfl
        have hon : s.step.onGrid = s.onGrid := by
          unfold State.onGrid
          rw [hgrid]
        refine ⟨m + 1, fun k hk => ?_, hnot, r, hon ▸ hr, hleft.trans (by rw [hon])⟩
        cases k with
        | zero => exact hfighting
        | succ k => exact hall k (Nat.le_of_succ_le_succ hk)

/-- What the machine relies on is kept until the game is over. -/
theorem Valid.step (h : Valid s) :
  Valid s.step ∨ s.step.control = .over
  := by
  obtain ⟨hboard, hvalid⟩ := h
  rw [State.step]
  cases hcontrol : s.control with
  | simulation => exact .inl ⟨hboard.congr (sameBoard_resetMoved s), trivial⟩
  | visit i j =>
      left
      dsimp only
      split_ifs
      · cases hgrid : s.grid (i, j) with
        | none => exact ⟨hboard.congr ⟨rfl, rfl, fun _ => rfl⟩, trivial⟩
        | some rbt => exact ⟨hboard.congr ⟨rfl, rfl, fun _ => rfl⟩, fun _ => ⟨_, hgrid⟩⟩
      · exact ⟨hboard.congr ⟨rfl, rfl, fun _ => rfl⟩, trivial⟩
      · exact ⟨hboard.congr ⟨rfl, rfl, fun _ => rfl⟩, trivial⟩
  | moveLoop i j rbt =>
      left
      rw [hcontrol] at hvalid
      dsimp only
      split_ifs with hmove
      · exact hboard.move (hvalid hmove.1) hcontrol
      · exact ⟨hboard.congr ⟨rfl, rfl, fun _ => rfl⟩, trivial⟩
      · exact ⟨hboard.congr ⟨rfl, rfl, fun _ => rfl⟩, trivial⟩
  | fight i j rbt source target =>
      left
      have hvalid' := hvalid
      rw [hcontrol] at hvalid'
      obtain ⟨-, -, ⟨victim, htarget⟩, -⟩ := hvalid'
      have hround := (Valid.fightRound ⟨hboard, hvalid⟩ hcontrol htarget).1
      rwa [State.step, hcontrol] at hround
  | winner =>
      dsimp only
      split_ifs
      · right
        rw [State.announce]
        split <;> rfl
      · exact .inl ⟨hboard.congr ⟨rfl, rfl, fun _ => rfl⟩, trivial⟩
  | «over» =>
      rw [hcontrol] at hvalid
      exact hvalid.elim
  | fault =>
      rw [hcontrol] at hvalid
      exact hvalid.elim

/-! ### Runs -/

theorem cell_injective (place : Placement) :
  Function.Injective place.cell
  := by
  intro r r' h
  apply place.injective
  obtain ⟨hx, hy⟩ := Prod.mk.inj h
  exact Prod.ext (Fin.ext (Int.ofNat.inj hx)) (Fin.ext (Int.ofNat.inj hy))

theorem inGrid_cell (place : Placement) (rbt : Pointer) :
  InGrid (place.cell rbt)
  := by
  have hx := (place rbt).1.isLt
  have hy := (place rbt).2.isLt
  rw [InGrid, Placement.cell]
  dsimp only
  omega

theorem initial_grid_iff (place : Placement) (rand : Random) :
  (initial place rand).grid c = some rbt ↔ place.cell rbt = c
  := by
  have hcell : ∀ {c r}, (initial place rand).grid c = some r → place.cell r = c := by
    intro c r h
    have hfound : decide (place.cell r = c) = true :=
      List.find?_some (p := fun r => place.cell r = c) h
    exact of_decide_eq_true hfound
  refine ⟨hcell, ?_⟩
  rintro rfl
  have hsome : ((initial place rand).grid (place.cell rbt)).isSome = true :=
    List.find?_isSome.mpr ⟨rbt, List.mem_finRange rbt, decide_eq_true rfl⟩
  obtain ⟨r, hr⟩ := Option.isSome_iff_exists.mp hsome
  rw [hr, cell_injective place (hcell hr)]

theorem valid_initial (place : Placement) (rand : Random) :
  Valid (initial place rand)
  := by
  refine ⟨⟨?_, ?_, ?_⟩, trivial⟩
  · have himage : occupied (initial place rand).grid = Finset.univ.image place.cell := by
      ext c
      rw [mem_occupied, Option.isSome_iff_exists, Finset.mem_image]
      constructor
      · rintro ⟨-, rbt, h⟩
        exact ⟨rbt, Finset.mem_univ rbt, (initial_grid_iff place rand).mp h⟩
      · rintro ⟨rbt, -, rfl⟩
        exact ⟨inGrid_cell place rbt, rbt, (initial_grid_iff place rand).mpr rfl⟩
    rw [himage, Finset.card_image_of_injective _ (cell_injective place), Finset.card_univ,
      Fintype.card_fin]
    rfl
  · exact fun c rbt h => (initial_grid_iff place rand).mp h
  · intro c rbt h
    rw [← (initial_grid_iff place rand).mp h]
    exact inGrid_cell place rbt

theorem run_succ (place : Placement) (rand : Random) (n : ℕ) :
  run place rand (n + 1) = (run place rand n).step
  := Function.iterate_succ_apply' _ _ _

theorem run_add (place : Placement) (rand : Random) (n k : ℕ) :
  run place rand (n + k) = State.step^[k] (run place rand n)
  := by
  rw [run, Nat.add_comm, Function.iterate_add_apply]
  rfl

theorem valid_run (place : Placement) (rand : Random) (n : ℕ) :
  Valid (run place rand n) ∨ (run place rand n).control = .over
  := by
  induction n with
  | zero => exact .inl (valid_initial place rand)
  | succ n ih =>
      rw [run_succ]
      rcases ih with h | hover
      · exact h.step
      · right
        rw [State.step, hover]
        exact hover

/-- Until the game is over no null pointer is followed and the grid is consistent; every fight ends
after finitely many rounds, and then exactly one robot has left the grid. -/
theorem grid_consistent (place : Placement) (rand : Random) (n : ℕ) :
  (run place rand n).control = .over
    ∨ (run place rand n).control ≠ .fault ∧ Consistent (run place rand n)
      ∧ ((run place rand n).Fighting →
          ∃ m, (∀ k ≤ m, (run place rand (n + k)).Fighting)
            ∧ ¬ (run place rand (n + (m + 1))).Fighting
            ∧ ∃ rbt ∈ (run place rand n).onGrid,
                (run place rand (n + (m + 1))).onGrid = (run place rand n).onGrid \ {rbt})
  := by
  rcases valid_run place rand n with h | hover
  · refine .inr ⟨fun hfault => ?_, h.board.consistent, fun hfight => ?_⟩
    · have hvalid := h.control
      rw [hfault] at hvalid
      exact hvalid
    · simp only [run_add]
      exact h.fight_ends hfight
  · exact .inl hover

end RobotGame
