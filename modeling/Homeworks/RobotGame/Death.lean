import Homeworks.RobotGame.Consistency

/-!
# The dead leave the grid

A kamikaze leaves the grid with its hit whether or not the other robot survives it.  Who does not
is reported as died and stays.
-/

namespace RobotGame

variable {s t : State} {i j : ℕ} {rbt : Pointer} {source target : Cell}

/-- The robot that moves, hits or wins. -/
def Event.actor : Event → Option Pointer
  | moves rbt => some rbt
  | hits rbt _ _ => some rbt
  | wins rbt => some rbt
  | newHitpoints _ _ => none
  | died _ => none

/-- No robot does anything after it has been reported as died. -/
def Silent (events : List Event) : Prop :=
  events.Pairwise fun earlier later => ∀ rbt, earlier = .died rbt → later.actor ≠ some rbt

/-- Between the moves all robots on the grid have hitpoints left, and the dead do nothing. -/
structure DeadLeave (s : State) : Prop where
  alive : ¬ s.Fighting → ∀ rbt ∈ s.onGrid, 0 < (s.robots rbt).hitpoints
  silent : Silent s.events

/-- In a fight, the other robot survives the hit of a kamikaze that is to come in this round. -/
def Survivable (s : State) : Prop :=
  ∀ i j rbt source target attacker victim, s.control = .fight i j rbt source target →
    s.grid source = some attacker → s.grid target = some victim →
    let damage := ((s.robots attacker).getDamage s.rand).1
    ((s.robots attacker).kind = .kamikaze →
        (s.robots attacker).hitpoints < (s.robots victim).hitpoints)
      ∧ ((s.robots attacker).kind ≠ .kamikaze → (s.robots victim).kind = .kamikaze →
          damage < (s.robots victim).hitpoints →
          (s.robots victim).hitpoints - damage < (s.robots attacker).hitpoints)

/-! ### Steps with their events -/

/-- The robots on the grid have hitpoints left, and none of them has been reported as died. -/
structure Alive (s : State) : Prop where
  alive : ∀ rbt ∈ s.onGrid, 0 < (s.robots rbt).hitpoints
  left : ∀ rbt, .died rbt ∈ s.events → rbt ∉ s.onGrid
  silent : Silent s.events

/-- What a step does that keeps it so. -/
structure Continues (s t : State) (new : List Event) : Prop where
  events : t.events = s.events ++ new
  actors : ∀ event ∈ new, ∀ rbt, event.actor = some rbt → rbt ∈ s.onGrid
  silent : Silent new
  onGrid : t.onGrid ⊆ s.onGrid
  left : ∀ rbt, .died rbt ∈ new → rbt ∉ t.onGrid
  alive : ∀ rbt ∈ t.onGrid, 0 < (t.robots rbt).hitpoints

theorem Alive.continues (h : Alive s) {new : List Event} (hst : Continues s t new) :
  Alive t
  := by
  constructor
  · exact hst.alive
  · intro rbt hdied
    rw [hst.events] at hdied
    rcases List.mem_append.mp hdied with hdied | hdied
    · exact fun hon => h.left rbt hdied (hst.onGrid hon)
    · exact hst.left rbt hdied
  · rw [hst.events, Silent]
    refine List.pairwise_append.mpr ⟨h.silent, hst.silent, ?_⟩
    rintro earlier hearlier later hlater rbt rfl hactor
    exact h.left rbt hearlier (hst.actors later hlater rbt hactor)

/-- A step without events on the same grid. -/
theorem Alive.same (h : Alive s) (hevents : t.events = s.events) (hgrid : t.grid = s.grid)
    (hhitpoints : ∀ rbt, (t.robots rbt).hitpoints = (s.robots rbt).hitpoints) :
  Alive t
  := by
  have hon : t.onGrid = s.onGrid := by
    unfold State.onGrid
    rw [hgrid]
  refine ⟨fun rbt hrbt => ?_, ?_, ?_⟩
  · rw [hhitpoints]
    exact h.alive rbt (hon ▸ hrbt)
  · rw [hevents, hon]
    exact h.left
  · rw [hevents]
    exact h.silent

theorem hitpoints_arrive (s : State) (i j : ℕ) (rbt : Pointer) (target : Cell) (r : Pointer) :
  ((s.arrive i j rbt target).robots r).hitpoints = (s.robots r).hitpoints
  := by
  rw [State.arrive]
  dsimp only
  rcases eq_or_ne r rbt with rfl | hne
  · rw [Function.update_self]
  · rw [Function.update_of_ne hne]

theorem hitpoints_resetMoved (grid : Cell → Option Pointer) (robots : Pointer → Robot)
    (rbt : Pointer) :
  (State.resetMoved grid robots rbt).hitpoints = (robots rbt).hitpoints
  := by
  rw [State.resetMoved]
  induction cells generalizing robots with
  | nil => rfl
  | cons c cs ih =>
      rw [List.foldl_cons, ih]
      cases grid c with
      | none => rfl
      | some r =>
          dsimp only
          rcases eq_or_ne rbt r with rfl | hne
          · rw [Function.update_self]
          · rw [Function.update_of_ne hne]

theorem getDamage_kamikaze {robot : Robot} (h : robot.kind = .kamikaze) (rand : Random) :
  (robot.getDamage rand).1 = robot.hitpoints
  := by
  rw [Robot.getDamage, h]

/-! ### Rounds -/

/-- The result of a round: the hitpoints of the victim after the first hit, what the second hit
takes from the attacker, the messages, and who leaves. -/
structure Round (s t : State) (attacker victim : Pointer) (left damage : ℤ) (new : List Event)
    (out : Set Pointer) : Prop where
  hitpoints : ∀ r, (t.robots r).hitpoints
    = if r = victim then left
      else if r = attacker then (s.robots attacker).hitpoints - damage
      else (s.robots r).hitpoints
  events : t.events = s.events ++ new
  onGrid : t.onGrid = s.onGrid \ out

theorem Valid.round_cases {attacker victim : Pointer} (h : Valid s)
    (hcontrol : s.control = .fight i j rbt source target) (hsource : s.grid source = some attacker)
    (htarget : s.grid target = some victim) :
  let damage := ((s.robots attacker).getDamage s.rand).1
  let left := (s.robots victim).hitpoints - damage
  ((s.robots attacker).kind = .kamikaze
      ∧ Round s s.step attacker victim left 0
        [.hits attacker victim damage, .report victim left, .died attacker] {attacker})
    ∨ ((s.robots attacker).kind ≠ .kamikaze ∧ left ≤ 0
      ∧ Round s s.step attacker victim left 0 [.hits attacker victim damage, .report victim left]
        {victim})
    ∨ ((s.robots attacker).kind ≠ .kamikaze ∧ 0 < left ∧ (s.robots victim).kind = .kamikaze
      ∧ Round s s.step attacker victim left left
        [.hits attacker victim damage, .report victim left, .hits victim attacker left,
          .report attacker ((s.robots attacker).hitpoints - left), .died victim] {victim})
    ∨ ((s.robots attacker).kind ≠ .kamikaze ∧ 0 < left ∧ (s.robots victim).kind ≠ .kamikaze
      ∧ ∃ back out, Round s s.step attacker victim left back
          [.hits attacker victim damage, .report victim left, .hits victim attacker back,
            .report attacker ((s.robots attacker).hitpoints - back)] out
        ∧ out = if (s.robots attacker).hitpoints - back ≤ 0 then {attacker} else ∅)
  := by
  intro damage left
  have hboard := h.board
  have hvalid := h.control
  rw [hcontrol] at hvalid
  obtain ⟨hrbt, hne, -⟩ := hvalid
  obtain rfl : attacker = rbt := Option.some.inj (hsource.symm.trans hrbt)
  have hother : attacker ≠ victim := by
    rintro rfl
    exact hne (hboard.consistent.once _ _ _ hsource htarget)
  have hcases := fightRound_cases hsource htarget i j attacker
  have hstep : s.step = s.fightRound i j attacker source target := by
    rw [State.step, hcontrol]
  rw [hstep]
  dsimp only at hcases
  have hsame₁ := sameBoard_hitMessage s attacker victim
  have hrobots₁ := robots_hitMessage s attacker victim
  have hevents₁ : (s.hitMessage attacker victim).1.events
      = s.events ++ [.hits attacker victim damage, .report victim left] := rfl
  have hkind₁ := kind_hitMessage s attacker victim
  generalize (s.hitMessage attacker victim).1 = s₁ at *
  have hsame₂ := hsame₁.trans (sameBoard_hitMessage s₁ victim attacker)
  have hrobots₂ := robots_hitMessage s₁ victim attacker
  have hkind₂ := kind_hitMessage s₁ victim attacker
  have hattacker₁ : s₁.robots attacker = s.robots attacker := by
    rw [hrobots₁, Function.update_of_ne hother]
  have hvictim₁ : (s₁.robots victim).hitpoints = left := by
    rw [hrobots₁, Function.update_self]
  have hevents₂ : (s₁.hitMessage victim attacker).1.events
      = s.events ++ [.hits attacker victim damage, .report victim left,
        .hits victim attacker ((s₁.robots victim).getDamage s₁.rand).1,
        .report attacker ((s.robots attacker).hitpoints
          - ((s₁.robots victim).getDamage s₁.rand).1)] := by
    have hevents : (s₁.hitMessage victim attacker).1.events
        = s₁.events ++ [.hits victim attacker ((s₁.robots victim).getDamage s₁.rand).1,
          .report attacker ((s₁.robots attacker).hitpoints
            - ((s₁.robots victim).getDamage s₁.rand).1)] := rfl
    rw [hevents, hevents₁, hattacker₁, List.append_assoc]
    rfl
  generalize hback : ((s₁.robots victim).getDamage s₁.rand).1 = back at *
  have hleft : (s.robots victim).kind = .kamikaze → back = left := by
    intro hkind
    rw [← hback, getDamage_kamikaze (hkind₁ victim ▸ hkind), hvictim₁]
  generalize (s₁.hitMessage victim attacker).1 = s₂ at *
  have hhitpoints₁ : ∀ r, (s₁.robots r).hitpoints
      = if r = victim then left
        else if r = attacker then (s.robots attacker).hitpoints - 0
        else (s.robots r).hitpoints := by
    intro r
    split_ifs with hv ha
    · rw [hv, hvictim₁]
    · rw [ha, hattacker₁, sub_zero]
    · rw [hrobots₁, Function.update_of_ne hv]
  have hhitpoints₂ : ∀ r, (s₂.robots r).hitpoints
      = if r = victim then left
        else if r = attacker then (s.robots attacker).hitpoints - back
        else (s.robots r).hitpoints := by
    intro r
    rw [hrobots₂, ← hattacker₁]
    rcases eq_or_ne r attacker with rfl | ha
    · rw [Function.update_self, if_neg hother, if_pos rfl]
    · rw [Function.update_of_ne ha, hhitpoints₁, if_neg ha, if_neg ha]
  have hattacker₂ := hhitpoints₂ attacker
  rw [if_neg hother, if_pos rfl] at hattacker₂
  have hleave : ∀ x, SameBoard s x →
      ((x.leave source).arrive i j attacker target).onGrid = s.onGrid \ {attacker} := by
    intro x hx
    rw [(hboard.congr hx).onGrid_leave (hx.grid ▸ hsource), onGrid_of_sameBoard hx]
  have hreplace : ∀ x, SameBoard s x →
      (((x.replace source target).leave source).arrive i j attacker target).onGrid
        = s.onGrid \ {victim} := by
    intro x hx
    rw [(hboard.congr hx).onGrid_replace (hx.grid ▸ hsource) (hx.grid ▸ htarget) hne,
      onGrid_of_sameBoard hx]
  rw [hkind₁, hkind₂, hkind₁, hvictim₁] at hcases
  rcases hcases with ⟨ha, hround⟩ | ⟨ha, ⟨hv, hround⟩ | ⟨hpos, ⟨hv, hround⟩ |
    ⟨hv, ⟨hdead, hround⟩ | ⟨hdead, hround⟩⟩⟩⟩
  · refine .inl ⟨ha, ?_⟩
    rw [hround]
    refine ⟨fun r => (hitpoints_arrive _ _ _ _ _ _).trans (hhitpoints₁ r), ?_,
      hleave _ (hsame₁.trans (sameBoard_died s₁ attacker))⟩
    change s₁.events ++ [.died attacker] = _
    rw [hevents₁, List.append_assoc]
    rfl
  · refine .inr (.inl ⟨ha, hv, ?_⟩)
    rw [hround]
    exact ⟨fun r => (hitpoints_arrive _ _ _ _ _ _).trans (hhitpoints₁ r), hevents₁,
      hreplace _ hsame₁⟩
  · refine .inr (.inr (.inl ⟨ha, hpos, hv, ?_⟩))
    rw [hleft hv] at hhitpoints₂ hevents₂
    rw [hround]
    refine ⟨fun r => (hitpoints_arrive _ _ _ _ _ _).trans (hhitpoints₂ r), ?_,
      hreplace _ (hsame₂.trans (sameBoard_died s₂ victim))⟩
    change s₂.events ++ [.died victim] = _
    rw [hevents₂, List.append_assoc]
    rfl
  · refine .inr (.inr (.inr ⟨ha, hpos, hv, back, {attacker}, ?_, ?_⟩))
    · rw [hround]
      exact ⟨fun r => (hitpoints_arrive _ _ _ _ _ _).trans (hhitpoints₂ r), hevents₂,
        hleave _ hsame₂⟩
    · rw [if_pos (hattacker₂ ▸ hdead)]
  · refine .inr (.inr (.inr ⟨ha, hpos, hv, back, ∅, ?_, ?_⟩))
    · rw [hround]
      exact ⟨hhitpoints₂, hevents₂, (onGrid_of_sameBoard hsame₂).trans Set.sdiff_empty.symm⟩
    · rw [if_neg (not_le.mpr (hattacker₂ ▸ hdead))]

theorem report_of_pos {hitpoints : ℤ} (h : 0 < hitpoints) :
  Event.report rbt hitpoints = .newHitpoints rbt hitpoints
  := if_pos h

theorem report_of_nonpos {hitpoints : ℤ} (h : hitpoints ≤ 0) :
  Event.report rbt hitpoints = .died rbt
  := if_neg (not_lt.mpr h)

theorem Alive.round {attacker victim : Pointer} {left back : ℤ} {new : List Event}
    {out : Set Pointer} (h : Alive s) (hround : Round s t attacker victim left back new out)
    (hattacker : attacker ∈ s.onGrid) (hvictim : victim ∈ s.onGrid)
    (hactors : ∀ event ∈ new, ∀ rbt, event.actor = some rbt → rbt = attacker ∨ rbt = victim)
    (hsilent : Silent new) (hdied : ∀ rbt, .died rbt ∈ new → rbt ∈ out)
    (hleft : victim ∉ out → 0 < left)
    (hback : attacker ∉ out → 0 < (s.robots attacker).hitpoints - back) :
  Alive t
  := by
  suffices hst : Continues s t new from h.continues hst
  constructor
  · exact hround.events
  · intro event hevent rbt hactor
    rcases hactors event hevent rbt hactor with rfl | rfl
    · exact hattacker
    · exact hvictim
  · exact hsilent
  · rw [hround.onGrid]
    exact Set.sdiff_subset
  · rw [hround.onGrid]
    exact fun rbt hmem hon => hon.2 (hdied rbt hmem)
  · intro rbt hrbt
    rw [hround.onGrid] at hrbt
    rw [hround.hitpoints]
    split_ifs with hv ha
    · exact hleft (hv ▸ hrbt.2)
    · exact hback (ha ▸ hrbt.2)
    · exact h.alive rbt hrbt.1

/-- A round keeps the dead off the grid if the hits of kamikazes are survived. -/
theorem Valid.alive_fightRound (h : Valid s) (halive : Alive s) (hs : Survivable s)
    (hcontrol : s.control = .fight i j rbt source target) :
  Alive s.step
  := by
  have hvalid := h.control
  rw [hcontrol] at hvalid
  obtain ⟨hsource, -, ⟨victim, htarget⟩, -⟩ := hvalid
  obtain ⟨hattacks, hdefends⟩ := hs _ _ _ _ _ _ _ hcontrol hsource htarget
  have hrbt : rbt ∈ s.onGrid := ⟨source, hsource⟩
  have hvictim : victim ∈ s.onGrid := ⟨target, htarget⟩
  have hcases := h.round_cases hcontrol hsource htarget
  dsimp only at hcases
  rcases hcases with ⟨ha, hround⟩ | ⟨ha, hdead, hround⟩ | ⟨ha, hpos, hv, hround⟩ |
    ⟨ha, hpos, hv, back, out, hround, hout⟩
  · have hleft := hattacks ha
    rw [getDamage_kamikaze ha, report_of_pos (sub_pos.mpr hleft)] at hround
    apply halive.round hround hrbt hvictim
    · simp [Event.actor]
    · simp [Silent, Event.actor]
    · simp
    · exact fun _ => sub_pos.mpr hleft
    · exact fun hout => absurd rfl hout
  · rw [report_of_nonpos hdead] at hround
    apply halive.round hround hrbt hvictim
    · simp [Event.actor]
    · simp [Silent, Event.actor]
    · simp
    · exact fun hout => absurd rfl hout
    · rw [sub_zero]
      exact fun _ => halive.alive rbt hrbt
  · have hback := sub_pos.mpr (hdefends ha hv (sub_pos.mp hpos))
    rw [report_of_pos hpos, report_of_pos hback] at hround
    apply halive.round hround hrbt hvictim
    · simp [Event.actor]
    · simp [Silent, Event.actor]
    · simp
    · exact fun hout => absurd rfl hout
    · exact fun _ => hback
  · rw [report_of_pos hpos] at hround
    subst hout
    by_cases hdead : (s.robots rbt).hitpoints - back ≤ 0
    · rw [if_pos hdead, report_of_nonpos hdead] at hround
      apply halive.round hround hrbt hvictim
      · simp [Event.actor]
      · simp [Silent, Event.actor]
      · simp
      · exact fun _ => hpos
      · exact fun hout => absurd rfl hout
    · rw [if_neg hdead, report_of_pos (not_le.mp hdead)] at hround
      apply halive.round hround hrbt hvictim
      · simp [Event.actor]
      · simp [Silent, Event.actor]
      · simp
      · exact fun _ => hpos
      · exact fun _ => not_le.mp hdead

/-! ### All steps -/

/-- A step on a part of the grid, by one robot that does something. -/
theorem Alive.acts {event : Event} (h : Alive s) (hevents : t.events = s.events ++ [event])
    (rbt : Pointer) (hactor : event.actor = some rbt) (hrbt : rbt ∈ s.onGrid)
    (honGrid : t.onGrid ⊆ s.onGrid)
    (hhitpoints : ∀ r, (t.robots r).hitpoints = (s.robots r).hitpoints) :
  Alive t
  := by
  suffices hst : Continues s t [event] from h.continues hst
  constructor
  · exact hevents
  · intro event' hevent' r hr
    rw [List.mem_singleton.mp hevent', hactor] at hr
    exact Option.some.inj hr ▸ hrbt
  · exact List.pairwise_singleton _ _
  · exact honGrid
  · intro r hr
    rw [← List.mem_singleton.mp hr] at hactor
    cases hactor
  · intro r hr
    rw [hhitpoints]
    exact h.alive r (honGrid hr)

theorem Board.alive_move (h : Board s) (halive : Alive s) (hon : rbt ∈ s.onGrid) (i j : ℕ) :
  Alive (s.move i j rbt)
  := by
  obtain ⟨c, hc⟩ := hon
  have hcell : ((s.robots rbt).x, (s.robots rbt).y) = c := h.coordinates c rbt hc
  have hacts : ∀ t : State, t.events = s.events ++ [.moves rbt] → t.onGrid ⊆ s.onGrid →
      (∀ r, (t.robots r).hitpoints = (s.robots r).hitpoints) → Alive t :=
    fun t hevents honGrid hhitpoints =>
      halive.acts hevents rbt rfl ⟨c, hc⟩ honGrid hhitpoints
  rw [State.move]
  generalize State.direction (s.robots rbt) (s.rand 0 % 4) = target
  rw [hcell]
  split_ifs with htarget
  · rw [State.moveRobot]
    split_ifs with hin hempty
    · refine hacts _ rfl ?_ fun r => hitpoints_arrive _ _ _ _ _ _
      rintro r ⟨d, hd⟩
      change Function.update (Function.update s.grid target (s.grid c)) c none d = some r at hd
      rcases eq_or_ne d c with rfl | hdc
      · rw [Function.update_self] at hd
        cases hd
      · rw [Function.update_of_ne hdc] at hd
        rcases eq_or_ne d target with rfl | hdt
        · rw [Function.update_self] at hd
          exact ⟨c, hd⟩
        · rw [Function.update_of_ne hdt] at hd
          exact ⟨d, hd⟩
    · rw [State.startFight]
      dsimp only
      rw [hc]
      refine hacts _ rfl subset_rfl fun r => ?_
      dsimp only
      rcases eq_or_ne r rbt with rfl | hne
      · rw [Function.update_self]
      · rw [Function.update_of_ne hne]
    · exact absurd ⟨h.inside c rbt hc, htarget⟩ hin
  · exact hacts _ rfl subset_rfl fun _ => rfl

theorem Alive.announce (h : Alive s) :
  Alive s.announce
  := by
  rw [State.announce]
  split
  next c hfind =>
    have hsome := List.find?_some hfind
    obtain ⟨rbt, hrbt⟩ := Option.isSome_iff_exists.mp hsome
    rw [hrbt]
    refine h.acts rfl rbt rfl ⟨c, hrbt⟩ ?_ fun _ => rfl
    rintro r ⟨d, hd⟩
    change Function.update s.grid c none d = some r at hd
    rcases eq_or_ne d c with rfl | hne
    · rw [Function.update_self] at hd
      cases hd
    · rw [Function.update_of_ne hne] at hd
      exact ⟨d, hd⟩
  next => exact h.same rfl rfl fun _ => rfl

theorem Valid.alive_step (h : Valid s) (halive : Alive s) (hs : Survivable s) :
  Alive s.step
  := by
  cases hcontrol : s.control with
  | fight i j rbt source target => exact h.alive_fightRound halive hs hcontrol
  | simulation =>
      rw [State.step, hcontrol]
      exact halive.same rfl rfl (hitpoints_resetMoved s.grid s.robots)
  | visit i j =>
      rw [State.step, hcontrol]
      dsimp only
      split_ifs
      · cases s.grid (i, j) <;> exact halive.same rfl rfl fun _ => rfl
      · exact halive.same rfl rfl fun _ => rfl
      · exact halive.same rfl rfl fun _ => rfl
  | moveLoop i j rbt =>
      have hvalid := h.control
      rw [hcontrol] at hvalid
      rw [State.step, hcontrol]
      dsimp only
      split_ifs with hmove
      · exact h.board.alive_move halive (hvalid hmove.1) i j
      · exact halive.same rfl rfl fun _ => rfl
      · exact halive.same rfl rfl fun _ => rfl
  | winner =>
      rw [State.step, hcontrol]
      dsimp only
      split_ifs
      · exact halive.announce
      · exact halive.same rfl rfl fun _ => rfl
  | «over» =>
      rw [State.step, hcontrol]
      exact halive
  | fault =>
      rw [State.step, hcontrol]
      exact halive

/-- Where the hit of a kamikaze is not survived, the dead robot stays on the grid. -/
theorem Valid.survivable (h : Valid s) (hnext : DeadLeave s.step) :
  Survivable s
  := by
  intro i j rbt source target attacker victim hcontrol hsource htarget damage
  have hvalid := h.control
  rw [hcontrol] at hvalid
  obtain ⟨hrbt, hne, -⟩ := hvalid
  obtain rfl : attacker = rbt := Option.some.inj (hsource.symm.trans hrbt)
  have hother : attacker ≠ victim := by
    rintro rfl
    exact hne (h.board.consistent.once _ _ _ hsource htarget)
  have hattacker : attacker ∈ s.onGrid := ⟨source, hsource⟩
  have hvictim : victim ∈ s.onGrid := ⟨target, htarget⟩
  -- a round in which a robot leaves ends the fight
  have hends : ∀ {left back new r}, Round s s.step attacker victim left back new {r} →
      r ∈ s.onGrid → ¬ s.step.Fighting := by
    rintro left back new r hround hr ⟨i', j', rbt', source', target', hagain⟩
    obtain ⟨-, ⟨hend, -⟩ | ⟨-, hgrid, -⟩⟩ := h.fightRound hcontrol htarget
    · rw [hend] at hagain
      cases hagain
    · have hon := hround.onGrid
      unfold State.onGrid at hon
      rw [hgrid] at hon
      exact (hon ▸ hr : r ∈ s.onGrid \ {r}).2 rfl
  have hcases := h.round_cases hcontrol hsource htarget
  dsimp only at hcases
  constructor
  · intro ha
    rcases hcases with ⟨-, hround⟩ | ⟨hnot, -⟩ | ⟨hnot, -⟩ | ⟨hnot, -⟩
    · have hpos := hnext.alive (hends hround hattacker) victim
        (hround.onGrid ▸ ⟨hvictim, hother.symm⟩)
      rw [hround.hitpoints, if_pos rfl, getDamage_kamikaze ha] at hpos
      exact sub_pos.mp hpos
    · exact absurd ha hnot
    · exact absurd ha hnot
    · exact absurd ha hnot
  · intro ha hv hlt
    rcases hcases with ⟨hkind, -⟩ | ⟨-, hdead, -⟩ | ⟨-, -, -, hround⟩ | ⟨-, -, hnot, -⟩
    · exact absurd hkind ha
    · exact absurd (sub_pos.mpr hlt) (not_lt.mpr hdead)
    · have hpos := hnext.alive (hends hround hvictim) attacker
        (hround.onGrid ▸ ⟨hattacker, hother⟩)
      rw [hround.hitpoints, if_neg hother, if_pos rfl] at hpos
      exact sub_pos.mp hpos
    · exact absurd hv hnot

/-! ### Runs -/

theorem alive_initial (place : Placement) (rand : Random) :
  Alive (initial place rand)
  := by
  refine ⟨fun rbt _ => ?_, nofun, List.Pairwise.nil⟩
  change 0 < (kindOf rbt).hitpoints
  cases kindOf rbt <;> decide

theorem Alive.deadLeave (h : Alive s) :
  DeadLeave s
  := ⟨fun _ => h.alive, h.silent⟩

theorem alive_run {place : Placement} {rand : Random}
    (hs : ∀ n, Survivable (run place rand n)) (n : ℕ) :
  Alive (run place rand n)
  := by
  induction n with
  | zero => exact alive_initial place rand
  | succ n ih =>
      rw [run_succ]
      rcases valid_run place rand n with h | hover
      · exact h.alive_step ih (hs n)
      · rw [State.step, hover]
        exact ih

/-- The dead leave the grid and do nothing in all of a run if and only if, in all of its fights, the
hits of kamikazes are survived. -/
theorem dead_leave_iff (place : Placement) (rand : Random) :
  (∀ n, DeadLeave (run place rand n)) ↔ ∀ n, Survivable (run place rand n)
  := by
  constructor
  · intro h n
    rcases valid_run place rand n with hvalid | hover
    · apply hvalid.survivable
      rw [← run_succ]
      exact h (n + 1)
    · intro i j rbt source target attacker victim hcontrol
      rw [hover] at hcontrol
      cases hcontrol
  · exact fun hs n => (alive_run hs n).deadLeave

/-- The robots row by row, the last kamikaze first. -/
def lastFirst : Placement where
  toFun rbt := (⟨rbt.rev / 10, by omega⟩, ⟨rbt.rev % 10, by omega⟩)
  inj' := by
    intro r r' h
    simp only [Prod.mk.injEq, Fin.mk.injEq] at h
    apply Fin.rev_injective
    omega

/-- The kamikaze in the first cell attacks the one beside it. -/
theorem kamikaze_stays :
  ¬ ∀ (place : Placement) (rand : Random) (n : ℕ), DeadLeave (run place rand n)
  := by
  intro h
  have hcontrol : (run lastFirst (fun _ => 2) 4).control = .moveLoop 0 0 24 := by decide
  have hgrid : (run lastFirst (fun _ => 2) 4).grid (0, 1) = some 23 := by decide
  have hdead : ((run lastFirst (fun _ => 2) 4).robots 23).hitpoints = 0 := by decide
  have hpos := (h lastFirst (fun _ => 2) 4).alive
    (fun ⟨_, _, _, _, _, hfight⟩ => by rw [hcontrol] at hfight; cases hfight) 23 ⟨_, hgrid⟩
  rw [hdead] at hpos
  exact lt_irrefl _ hpos

end RobotGame
