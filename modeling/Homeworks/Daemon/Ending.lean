import Homeworks.Daemon.Processes

/-!
# The end of the daemon

However the daemon exits, the pipes that it has made are unlinked, unless a signal comes before its
handler is installed or a handler cannot be installed.  It reports its success only after both
children have ended, each of which it has reaped once.
-/

open Relation

namespace Daemon

variable {num1 num2 : BitVec 32} {s t : State} {a : Action} {named1 named2 : Bool}

/-! ### What is added to the log -/

/-- The line is not about the end of a child, and not about the end of the daemon. -/
def Entry.Plain : Entry → Bool
  | exited _ | success => false
  | _ => true

def Grows (s t : State) : Prop := ∃ l, t.log = s.log ++ l ∧ ∀ e ∈ l, e.Plain = true

theorem Grows.same (h : t.log = s.log) :
  Grows s t
  := ⟨[], by rw [h, List.append_nil], nofun⟩

theorem Grows.note {msg : Entry} (h : t.log = s.log ++ [msg]) (hmsg : msg.Plain = true) :
  Grows s t
  := ⟨[msg], h, fun _ he => List.mem_singleton.mp he ▸ hmsg⟩

theorem Grows.writeMsgToLog {msg : Entry} (h : t.log = (s.writeMsgToLog msg).log)
    (hmsg : msg.Plain = true) :
  Grows s t
  := by
  unfold State.writeMsgToLog at h
  dsimp only at h
  split_ifs at h
  · exact .note h hmsg
  · exact .same h

theorem Grows.trans {u : State} (hst : Grows s t) (htu : Grows t u) :
  Grows s u
  := by
  obtain ⟨l, hl, hplain⟩ := hst
  obtain ⟨l', hl', hplain'⟩ := htu
  refine ⟨l ++ l', by rw [hl', hl, List.append_assoc], ?_⟩
  intro e he
  exact (List.mem_append.mp he).elim (hplain e) (hplain' e)

theorem Grows.count (h : Grows s t) (p : Process) :
  t.log.count (.exited p) = s.log.count (.exited p)
  := by
  obtain ⟨l, hl, hplain⟩ := h
  rw [hl, List.count_append, Nat.add_eq_left, List.count_eq_zero]
  intro hmem
  cases hplain _ hmem

theorem Grows.success (h : Grows s t) :
  .success ∈ t.log ↔ .success ∈ s.log
  := by
  obtain ⟨l, hl, hplain⟩ := h
  rw [hl, List.mem_append, or_iff_left]
  intro hmem
  cases hplain _ hmem

/-! ### What a child leaves as it is -/

structure Beside (p : Process) (s t : State) : Prop where
  parent : t.parent = s.parent
  child1 : p ≠ .child1 → t.child1 = s.child1
  child2 : p ≠ .child2 → t.child2 = s.child2
  fifo1 : t.fifo1.named = s.fifo1.named
  fifo2 : t.fifo2.named = s.fifo2.named
  handlers : t.handlers = s.handlers
  childHandler : t.childHandler = s.childHandler
  handling : t.handling = s.handling
  logfile : t.logfile = s.logfile
  childCounter : t.childCounter = s.childCounter
  reaped : t.reaped = s.reaped
  pending : t.pending = s.pending ∨ t.pending = (s.pending || s.childHandler)
  log : Grows s t

section

variable {f1 f2 : Fifo Process Byte} {msg : Entry} {pending : Bool}
  (h1 : f1.named = s.fifo1.named) (h2 : f2.named = s.fifo2.named)

include h1 h2

theorem Beside.quiet1 (pc : Child1)
    (hpending : pending = s.pending ∨ pending = (s.pending || s.childHandler)) :
  Beside .child1 s { s with fifo1 := f1, fifo2 := f2, child1 := pc, pending := pending }
  := ⟨rfl, absurd rfl, fun _ => rfl, h1, h2, rfl, rfl, rfl, rfl, rfl, rfl, hpending, .same rfl⟩

theorem Beside.noted1 (pc : Child1) (hmsg : msg.Plain = true) :
  Beside .child1 s { s with fifo1 := f1, fifo2 := f2, child1 := pc, log := s.log ++ [msg] }
  := ⟨rfl, absurd rfl, fun _ => rfl, h1, h2, rfl, rfl, rfl, rfl, rfl, rfl, .inl rfl, .note rfl hmsg⟩

theorem Beside.quiet2 (pc : Child2)
    (hpending : pending = s.pending ∨ pending = (s.pending || s.childHandler)) :
  Beside .child2 s { s with fifo1 := f1, fifo2 := f2, child2 := pc, pending := pending }
  := ⟨rfl, fun _ => rfl, absurd rfl, h1, h2, rfl, rfl, rfl, rfl, rfl, rfl, hpending, .same rfl⟩

theorem Beside.noted2 (pc : Child2) (hmsg : msg.Plain = true) :
  Beside .child2 s { s with fifo1 := f1, fifo2 := f2, child2 := pc, log := s.log ++ [msg] }
  := ⟨rfl, fun _ => rfl, absurd rfl, h1, h2, rfl, rfl, rfl, rfl, rfl, rfl, .inl rfl, .note rfl hmsg⟩

end

theorem childProcess1_beside {fails : Bool} (hstep : s.childProcess1 fails = some t) :
  Beside .child1 s t
  := by
  unfold State.childProcess1 at hstep
  cases hpc : s.child1 with
  | none | exited _ | killed =>
      simp only [hpc] at hstep
      cases hstep
  | started | read _ _ _ | wrote _ =>
      simp only [hpc] at hstep
      cases hstep
      apply Beside.noted1 <;> rfl
  | close1 | close2 =>
      simp only [hpc] at hstep
      cases hstep
      refine .quiet1 ?_ ?_ _ (.inl ?_) <;> rfl
  | exit _ =>
      simp only [hpc] at hstep
      cases hstep
      refine .quiet1 ?_ ?_ _ (.inr ?_) <;> rfl
  | open1 | readNum1 | readNum2 _ | readCmd _ _ | write _ =>
      simp only [hpc] at hstep
      split_ifs at hstep <;> cases hstep
      · apply Beside.noted1 <;> rfl
      · refine .quiet1 ?_ ?_ _ (.inl ?_) <;> rfl
  | compare _ _ text =>
      simp only [hpc] at hstep
      obtain ⟨_, -, rfl⟩ := Option.map_eq_some_iff.mp hstep
      split_ifs
      · apply Beside.noted1 <;> rfl
      · refine .quiet1 ?_ ?_ _ (.inl ?_) <;> rfl
  | open2 _ _ =>
      simp only [hpc] at hstep
      split_ifs at hstep
      · cases hstep
        apply Beside.noted1 <;> rfl
      · obtain ⟨_, -, hstep⟩ := Option.bind_eq_some_iff.mp hstep
        obtain ⟨_, -, rfl⟩ := Option.map_eq_some_iff.mp hstep
        refine .quiet1 ?_ ?_ _ (.inl ?_) <;> rfl

theorem childProcess2_beside {fails : Bool} (hstep : s.childProcess2 fails = some t) :
  Beside .child2 s t
  := by
  unfold State.childProcess2 at hstep
  cases hpc : s.child2 with
  | none | exited _ | killed =>
      simp only [hpc] at hstep
      cases hstep
  | started | opened | read _ =>
      simp only [hpc] at hstep
      cases hstep
      apply Beside.noted2 <;> rfl
  | close2 =>
      simp only [hpc] at hstep
      cases hstep
      refine .quiet2 ?_ ?_ _ (.inl ?_) <;> rfl
  | exit _ =>
      simp only [hpc] at hstep
      cases hstep
      refine .quiet2 ?_ ?_ _ (.inr ?_) <;> rfl
  | open2 =>
      simp only [hpc] at hstep
      split_ifs at hstep <;> cases hstep
      · apply Beside.noted2 <;> rfl
      · refine .quiet2 ?_ ?_ _ (.inl ?_) <;> rfl
  | readLarger =>
      simp only [hpc] at hstep
      split_ifs at hstep
      · cases hstep
        apply Beside.noted2 <;> rfl
      · split at hstep <;> cases hstep
        · apply Beside.noted2 <;> rfl
        · refine .quiet2 ?_ ?_ _ (.inl ?_) <;> rfl

theorem kill1_beside (hstep : s.step num1 num2 .kill1 = some t) :
  Beside .child1 s t ∧ s.child1.Alive = true
  := by
  simp only [State.step] at hstep
  split_ifs at hstep with halive
  cases hstep
  refine ⟨.quiet1 ?_ ?_ _ (.inr ?_), halive⟩ <;> rfl

theorem kill2_beside (hstep : s.step num1 num2 .kill2 = some t) :
  Beside .child2 s t ∧ s.child2.Alive = true
  := by
  simp only [State.step] at hstep
  split_ifs at hstep with halive
  cases hstep
  refine ⟨.quiet2 ?_ ?_ _ (.inr ?_), halive⟩ <;> rfl

theorem childProcess1_alive {fails : Bool} (hstep : s.childProcess1 fails = some t) :
  s.child1.Alive = true
  := by
  unfold State.childProcess1 at hstep
  cases hpc : s.child1 with
  | none | exited _ | killed =>
      simp only [hpc] at hstep
      cases hstep
  | _ => rfl

theorem childProcess2_alive {fails : Bool} (hstep : s.childProcess2 fails = some t) :
  s.child2.Alive = true
  := by
  unfold State.childProcess2 at hstep
  cases hpc : s.child2 with
  | none | exited _ | killed =>
      simp only [hpc] at hstep
      cases hstep
  | _ => rfl

/-! ### The names of the pipes -/

/-- What has become of the names, from what they were in the beginning. -/
def Parent.Names (named1 named2 : Bool) (fifo1 fifo2 : Bool) : Parent → Prop
  | mkfifo1 | closeLog _ | exit _ | exited _ => fifo1 = named1 ∧ fifo2 = named2
  | mkfifo2 | unlinkFirst => named1 = false ∧ fifo2 = named2
  | unlink2 _ => named1 = false ∧ named2 = false ∧ fifo1 = false
  | killed => False
  | _ => named1 = false ∧ named2 = false

structure Names (named1 named2 : Bool) (s : State) : Prop where
  parent : s.parent.Names named1 named2 s.fifo1.named s.fifo2.named
  handlers : ∀ signal, s.handlers signal = true → named1 = false ∧ named2 = false

/-- The parent installs a handler or unlinks a pipe. -/
def Parent.Settles : Parent → Bool
  | install _ | installChild | unlink1 _ | unlink2 _ | unlinkFirst => true
  | _ => false

theorem Names.main (h : Names named1 named2 s) {fails : Bool}
    (hstep : s.main num1 num2 fails = some t) (hsettles : fails = true → s.parent.Settles = false) :
  Names named1 named2 t
  := by
  obtain ⟨hparent, hhandlers⟩ := h
  unfold State.main at hstep
  cases hpc : s.parent with
  | mkfifo1 =>
      simp only [hpc] at hstep hparent
      obtain ⟨h1, h2⟩ := hparent
      split_ifs at hstep with hnamed <;> cases hstep
      · exact ⟨⟨h1, h2⟩, hhandlers⟩
      · refine ⟨⟨?_, h2⟩, hhandlers⟩
        simp only [Bool.or_eq_true, not_or, Bool.not_eq_true] at hnamed
        rw [← h1, hnamed.2]
  | mkfifo2 =>
      simp only [hpc] at hstep hparent
      obtain ⟨h1, h2⟩ := hparent
      split_ifs at hstep with hnamed <;> cases hstep
      · exact ⟨⟨h1, h2⟩, hhandlers⟩
      · refine ⟨⟨h1, ?_⟩, hhandlers⟩
        simp only [Bool.or_eq_true, not_or, Bool.not_eq_true] at hnamed
        rw [← h2, hnamed.2]
  | open1 | writeNum1 | writeNum2 | writeCmd | fork1 | fork2 | proceed =>
      simp only [hpc] at hstep hparent
      split_ifs at hstep <;> cases hstep <;> exact ⟨hparent, hhandlers⟩
  | install signal =>
      obtain rfl : fails = false := by simpa [hpc, Parent.Settles] using hsettles
      simp only [hpc] at hstep hparent
      cases hstep
      refine ⟨?_, fun _ _ => hparent⟩
      cases signal <;> exact hparent
  | installChild =>
      obtain rfl : fails = false := by simpa [hpc, Parent.Settles] using hsettles
      simp only [hpc] at hstep hparent
      cases hstep
      exact ⟨hparent, hhandlers⟩
  | test =>
      simp only [hpc] at hstep hparent
      cases hstep
      refine ⟨?_, hhandlers⟩
      split_ifs <;> exact hparent
  | opened | wrote | success | close1 | closeLog _ | exit _ =>
      simp only [hpc] at hstep hparent
      cases hstep
      exact ⟨hparent, hhandlers⟩
  | unlink1 status =>
      obtain rfl : fails = false := by simpa [hpc, Parent.Settles] using hsettles
      simp only [hpc] at hstep hparent
      cases hstep
      exact ⟨⟨hparent.1, hparent.2, rfl⟩, hhandlers⟩
  | unlink2 status =>
      obtain rfl : fails = false := by simpa [hpc, Parent.Settles] using hsettles
      simp only [hpc] at hstep hparent
      obtain ⟨h1, h2, hnamed⟩ := hparent
      cases hstep
      exact ⟨⟨hnamed.trans h1.symm, h2.symm⟩, hhandlers⟩
  | unlinkFirst =>
      obtain rfl : fails = false := by simpa [hpc, Parent.Settles] using hsettles
      simp only [hpc] at hstep hparent
      cases hstep
      exact ⟨⟨hparent.1.symm, hparent.2⟩, hhandlers⟩
  | exited _ | killed =>
      simp only [hpc] at hstep
      cases hstep

theorem Names.beside {p : Process} (h : Names named1 named2 s) (hst : Beside p s t) :
  Names named1 named2 t
  := by
  refine ⟨?_, ?_⟩
  · rw [hst.parent, hst.fifo1, hst.fifo2]
    exact h.parent
  · rw [hst.handlers]
    exact h.handlers

/-- No signal comes before its handler is installed, handlers are installed, and what is unlinked
is so. -/
def Handled (s : State) : Action → Prop
  | .signal signal => s.handlers signal = true
  | .parent fails => fails = true → s.parent.Settles = false
  | _ => True

theorem Names.step (h : Names named1 named2 s) (hstep : s.step num1 num2 a = some t)
    (hhandled : Handled s a) :
  Names named1 named2 t
  := by
  cases a with
  | parent fails =>
      simp only [State.step] at hstep
      split_ifs at hstep
      exact h.main hstep hhandled
  | child1 fails => exact h.beside (childProcess1_beside hstep)
  | child2 fails => exact h.beside (childProcess2_beside hstep)
  | kill1 => exact h.beside (kill1_beside hstep).1
  | kill2 => exact h.beside (kill2_beside hstep).1
  | sigchld | deliver | handled | reap p =>
      simp only [State.step] at hstep
      split_ifs at hstep
      cases hstep
      exact ⟨h.parent, h.handlers⟩
  | signal signal =>
      simp only [State.step] at hstep
      split_ifs at hstep
      cases hstep
      have hsignal : s.handlers signal = true := hhandled
      rw [State.daemonSignalHandler, if_pos hsignal]
      exact ⟨h.handlers signal hsignal, h.handlers⟩

/-- However the parent ends, it exits, and the names are as they were in the beginning. -/
theorem names_restored
    (hrun : ReflTransGen (fun s t => ∃ a, s.step num1 num2 a = some t ∧ Handled s a)
      (.initial named1 named2) s)
    (hended : s.parent.Alive = false) :
  (∃ status, s.parent = .exited status) ∧ s.fifo1.named = named1 ∧ s.fifo2.named = named2
  := by
  have hnames : Names named1 named2 s := by
    apply Transition.invariant ?_ hrun ⟨⟨rfl, rfl⟩, nofun⟩
    rintro s t hnames ⟨a, hstep, hhandled⟩
    exact hnames.step hstep hhandled
  have hparent := hnames.parent
  cases hpc : s.parent with
  | exited status =>
      rw [hpc] at hparent
      exact ⟨⟨status, rfl⟩, hparent⟩
  | killed =>
      rw [hpc] at hparent
      exact hparent.elim
  | _ =>
      rw [hpc] at hended
      cases hended

/-- The time of the daemon is over before its children have done anything. -/
theorem names_restored_timeout :
  ∃ s : State, s.log = [.created, .parentOpened, .parentWrote 3 5, .proceeding, .timeout]
    ∧ (∃ status, s.parent = .exited status) ∧ s.fifo1.named = false ∧ s.fifo2.named = false
  := by
  let before := started ++ [.parent false]
  let after := List.replicate 4 (Action.parent false)
  have hrun : ((State.initial false false).run 3 5 before).map (fun s => s.parent)
      = some .proceed := by
    decide
  obtain ⟨u, hu, hproceed⟩ := Option.map_eq_some_iff.mp hrun
  have hend : ((State.initial false false).run 3 5 (before ++ .parent true :: after)).map
      (fun s => (s.log, s.parent.Alive))
      = some ([.created, .parentOpened, .parentWrote 3 5, .proceeding, .timeout], false) := by
    decide
  obtain ⟨s, hs, heq⟩ := Option.map_eq_some_iff.mp hend
  obtain ⟨hlog, hended⟩ := Prod.mk.injEq .. ▸ heq
  rw [State.run_append, hu, Option.bind_some] at hs
  obtain ⟨v, hv, hs⟩ := Option.bind_eq_some_iff.mp hs
  have hfalse : ∀ a ∈ before ++ after, ∀ s, Handled s a := by
    have hall : ∀ a ∈ before ++ after, a = .parent false := by decide
    intro a ha s
    rw [hall a ha]
    rintro ⟨⟩
  have hbefore := State.run_path hu fun a ha => hfalse a (List.mem_append_left _ ha)
  have hafter := State.run_path hs fun a ha => hfalse a (List.mem_append_right _ ha)
  have htimeout : Handled u (.parent true) := by
    intro _
    rw [hproceed]
    rfl
  exact ⟨s, hlog, names_restored ((hbefore.tail ⟨_, hv, htimeout⟩).trans hafter) hended⟩

/-! ### The children that have been reaped -/

/-- The first child has not been started. -/
def Parent.Before1 : Parent → Prop
  | mkfifo1 | mkfifo2 | open1 | opened | writeNum1 | writeNum2 | writeCmd | wrote | fork1 => True
  | _ => False

/-- The second child has not been started. -/
def Parent.Before2 : Parent → Prop
  | fork2 => True
  | pc => pc.Before1

theorem Parent.Before1.before2 {pc : Parent} (h : pc.Before1) :
  pc.Before2
  := by
  cases pc <;> first | exact h | trivial

/-- The parent has the log open. -/
def Parent.Logs : Parent → Prop
  | unlink1 _ | unlink2 _ | unlinkFirst | closeLog _ | exit _ | exited _ | killed => False
  | _ => True

/-- A child that has been started and has ended. -/
def State.Ended (s : State) : Process → Prop
  | .parent => False
  | .child1 => s.child1 ≠ .none ∧ s.child1.Alive = false
  | .child2 => s.child2 ≠ .none ∧ s.child2.Alive = false

structure Reaped (s : State) : Prop where
  before1 : s.parent.Before1 → s.child1 = .none
  before2 : s.parent.Before2 → s.child2 = .none
  ended : ∀ p, s.reaped p = true → s.Ended p
  counter : s.childCounter = (s.reaped .child1).toNat + (s.reaped .child2).toNat
  logfile : s.parent.Logs → s.logfile = true
  lines : ∀ p, s.log.count (.exited p) ≤ (s.reaped p).toNat
  complete : s.logfile = true → ∀ p, s.log.count (.exited p) = (s.reaped p).toNat
  success : s.parent = .success ∨ .success ∈ s.log →
    s.log.count (.exited .child1) = 1 ∧ s.log.count (.exited .child2) = 1

theorem Reaped.initial (named1 named2 : Bool) :
  Reaped (.initial named1 named2)
  := by
  constructor <;> simp [State.initial]

section

variable (h : Reaped s) (hgrows : Grows s t) (hreaped : t.reaped = s.reaped)
  (hcounter : t.childCounter = s.childCounter) (hended : ∀ p, s.Ended p → t.Ended p)

include h hgrows hreaped hcounter hended

/-- The parent goes on, and reaps no child. -/
theorem Reaped.of (hbefore1 : t.parent.Before1 → t.child1 = .none)
    (hbefore2 : t.parent.Before2 → t.child2 = .none)
    (hlogfile : t.parent.Logs → t.logfile = true) (hopen : t.logfile = true → s.logfile = true)
    (hsuccess : t.parent = .success →
      s.log.count (.exited .child1) = 1 ∧ s.log.count (.exited .child2) = 1) :
  Reaped t
  := by
  refine ⟨hbefore1, hbefore2, ?_, ?_, hlogfile, ?_, ?_, ?_⟩
  · rw [hreaped]
    exact fun p hp => hended p (h.ended p hp)
  · rw [hcounter, hreaped]
    exact h.counter
  · intro p
    rw [hgrows.count, hreaped]
    exact h.lines p
  · intro hlog p
    rw [hgrows.count, hreaped]
    exact h.complete (hopen hlog) p
  · rw [hgrows.success, hgrows.count, hgrows.count]
    exact fun hor => hor.elim hsuccess fun hmem => h.success (.inr hmem)

/-- The parent stays where it is. -/
theorem Reaped.stay (hparent : t.parent = s.parent) (hlogfile : t.logfile = s.logfile)
    (hchild1 : s.child1 = .none → t.child1 = .none)
    (hchild2 : s.child2 = .none → t.child2 = .none) :
  Reaped t
  := by
  apply h.of hgrows hreaped hcounter hended
  · rw [hparent]
    exact fun hbefore => hchild1 (h.before1 hbefore)
  · rw [hparent]
    exact fun hbefore => hchild2 (h.before2 hbefore)
  · rw [hparent, hlogfile]
    exact h.logfile
  · rw [hlogfile]
    exact id
  · rw [hparent]
    exact fun hsuccess => h.success (.inl hsuccess)

end

/-- The parent goes on after it has started the children. -/
theorem Reaped.move (h : Reaped s) (hgrows : Grows s t) (hreaped : t.reaped = s.reaped)
    (hcounter : t.childCounter = s.childCounter) (hchild1 : t.child1 = s.child1)
    (hchild2 : t.child2 = s.child2) (hbefore : ¬ t.parent.Before2)
    (hlogs : t.parent.Logs → t.logfile = true) (hopen : t.logfile = true → s.logfile = true)
    (hne : t.parent ≠ .success) :
  Reaped t
  := by
  apply h.of hgrows hreaped hcounter ?_ (fun hb => absurd hb.before2 hbefore)
    (fun hb => absurd hb hbefore) hlogs hopen (fun heq => absurd heq hne)
  intro p
  cases p <;> simp only [State.Ended, hchild1, hchild2] <;> exact id

theorem Reaped.main (h : Reaped s) {fails : Bool} (hstep : s.main num1 num2 fails = some t) :
  Reaped t
  := by
  have hbefore1 := h.before1
  have hbefore2 := h.before2
  have hlogfile := h.logfile
  unfold State.main at hstep
  cases hpc : s.parent with
  | mkfifo1 | mkfifo2 | open1 | writeNum1 | writeNum2 | writeCmd =>
      simp only [hpc] at hstep hbefore1 hbefore2 hlogfile
      split_ifs at hstep <;> cases hstep
      · exact h.move (.writeMsgToLog rfl rfl) rfl rfl rfl rfl id nofun id nofun
      · exact h.of (.same rfl) rfl rfl (fun _ => id) (fun _ => hbefore1 trivial)
          (fun _ => hbefore2 trivial) (fun _ => hlogfile trivial) id nofun
  | opened | wrote =>
      simp only [hpc] at hstep hbefore1 hbefore2 hlogfile
      cases hstep
      exact h.of (.writeMsgToLog rfl rfl) rfl rfl (fun _ => id) (fun _ => hbefore1 trivial)
        (fun _ => hbefore2 trivial) (fun _ => hlogfile trivial) id nofun
  | fork1 =>
      simp only [hpc] at hstep hbefore1 hbefore2 hlogfile
      split_ifs at hstep <;> cases hstep
      · exact h.move (.writeMsgToLog rfl rfl) rfl rfl rfl rfl id nofun id nofun
      · refine h.of (.same rfl) rfl rfl ?_ nofun
          (fun _ => hbefore2 trivial) (fun _ => hlogfile trivial) id nofun
        intro p hp
        cases p with
        | parent => exact hp
        | child1 => exact absurd (hbefore1 trivial) hp.1
        | child2 => exact hp
  | fork2 =>
      simp only [hpc] at hstep hbefore2 hlogfile
      split_ifs at hstep <;> cases hstep
      · exact h.move (.writeMsgToLog rfl rfl) rfl rfl rfl rfl id nofun id nofun
      · refine h.of (.same rfl) rfl rfl ?_ nofun nofun (fun _ => hlogfile trivial) id nofun
        intro p hp
        cases p with
        | parent => exact hp
        | child1 => exact hp
        | child2 => exact absurd (hbefore2 trivial) hp.1
  | install signal =>
      simp only [hpc] at hstep hlogfile
      split_ifs at hstep <;> cases hstep
      · exact h.move (.writeMsgToLog rfl rfl) rfl rfl rfl rfl id nofun id nofun
      · cases signal <;>
          exact h.move (.same rfl) rfl rfl rfl rfl id (fun _ => hlogfile trivial) id nofun
  | installChild =>
      simp only [hpc] at hstep hlogfile
      split_ifs at hstep <;> cases hstep
      · exact h.move (.writeMsgToLog rfl rfl) rfl rfl rfl rfl id nofun id nofun
      · exact h.move (.same rfl) rfl rfl rfl rfl id (fun _ => hlogfile trivial) id nofun
  | test =>
      simp only [hpc] at hstep hlogfile
      cases hstep
      split_ifs with hcounter
      · exact h.move (.same rfl) rfl rfl rfl rfl id (fun _ => hlogfile trivial) id nofun
      · refine h.of (.same rfl) rfl rfl (fun _ => id) nofun nofun (fun _ => hlogfile trivial) id ?_
        intro _
        have hlines := h.complete (hlogfile trivial)
        rw [h.counter] at hcounter
        rw [hlines, hlines]
        have h1 := Bool.toNat_le (s.reaped .child1)
        have h2 := Bool.toNat_le (s.reaped .child2)
        omega
  | proceed =>
      simp only [hpc] at hstep hlogfile
      split_ifs at hstep <;> cases hstep
      · exact h.move (.trans (t := s.writeMsgToLog .proceeding) (.writeMsgToLog rfl rfl)
          (.writeMsgToLog rfl rfl)) rfl rfl rfl rfl id nofun id nofun
      · exact h.move (.writeMsgToLog rfl rfl) rfl rfl rfl rfl id (fun _ =>
          hlogfile trivial) id nofun
  | success =>
      simp only [hpc] at hstep hlogfile
      cases hstep
      have hlog : (s.writeMsgToLog .success).log = s.log ++ [.success] := if_pos (hlogfile trivial)
      have hcount : ∀ p, (s.writeMsgToLog .success).log.count (.exited p)
          = s.log.count (.exited p) := by
        intro p
        rw [hlog, List.count_append, Nat.add_eq_left]
        rfl
      refine ⟨nofun, nofun, h.ended, h.counter, fun _ => hlogfile trivial, ?_, ?_, ?_⟩
      · intro p
        rw [hcount]
        exact h.lines p
      · intro hopen p
        rw [hcount]
        exact h.complete hopen p
      · intro _
        rw [hcount, hcount]
        exact h.success (.inl hpc)
  | close1 | closeLog _ =>
      simp only [hpc] at hstep
      cases hstep
      exact h.move (.same rfl) rfl rfl rfl rfl id nofun nofun nofun
  | unlink1 _ | unlink2 _ | unlinkFirst =>
      simp only [hpc] at hstep
      split_ifs at hstep <;> cases hstep <;>
        exact h.move (.same rfl) rfl rfl rfl rfl id nofun id nofun
  | exit _ =>
      simp only [hpc] at hstep
      cases hstep
      exact h.move (.same rfl) rfl rfl rfl rfl id nofun id nofun
  | exited _ | killed =>
      simp only [hpc] at hstep
      cases hstep

/-- The first child goes on while it is alive. -/
theorem Reaped.child1 (h : Reaped s) (hst : Beside .child1 s t) (halive : s.child1.Alive = true) :
  Reaped t
  := by
  have hchild2 := hst.child2 nofun
  apply h.stay hst.log hst.reaped hst.childCounter ?_ hst.parent hst.logfile
  · intro hnone
    rw [hnone] at halive
    cases halive
  · exact hchild2.trans
  · intro p hp
    cases p with
    | parent => exact hp
    | child1 => cases halive.symm.trans hp.2
    | child2 => rwa [State.Ended, hchild2]

theorem Reaped.child2 (h : Reaped s) (hst : Beside .child2 s t) (halive : s.child2.Alive = true) :
  Reaped t
  := by
  have hchild1 := hst.child1 nofun
  apply h.stay hst.log hst.reaped hst.childCounter ?_ hst.parent hst.logfile
  · exact hchild1.trans
  · intro hnone
    rw [hnone] at halive
    cases halive
  · intro p hp
    cases p with
    | parent => exact hp
    | child1 => rwa [State.Ended, hchild1]
    | child2 => cases halive.symm.trans hp.2

theorem ended_of_zombie {p : Process} (h : s.Zombie p = true) :
  s.Ended p ∧ s.reaped p = false
  := by
  cases p <;> simp_all [State.Zombie, State.Ended]

/-- The line of the log about a child that is reaped. -/
theorem count_sigchldHandler (p q : Process) :
  (s.sigchldHandler p).log.count (.exited q)
    = s.log.count (.exited q) + if s.logfile = true ∧ q = p then 1 else 0
  := by
  have hlog : (s.sigchldHandler p).log = if s.logfile then s.log ++ [.exited p] else s.log := rfl
  rw [hlog]
  cases s.logfile with
  | false => simp
  | true =>
      by_cases hq : q = p
      · simp [hq]
      · simp [hq, Ne.symm hq]

theorem reaped_sigchldHandler {p : Process} (hp : s.reaped p = false) (q : Process) :
  ((s.sigchldHandler p).reaped q).toNat = (s.reaped q).toNat + if q = p then 1 else 0
  := by
  have hreaped : (s.sigchldHandler p).reaped = Function.update s.reaped p true := rfl
  rw [hreaped]
  by_cases hq : q = p
  · rw [hq, Function.update_self, hp, if_pos rfl]
    rfl
  · rw [Function.update_of_ne hq, if_neg hq, Nat.add_zero]

theorem Reaped.reap {p : Process} (h : Reaped s) (hp : s.Zombie p = true) :
  Reaped (s.sigchldHandler p)
  := by
  obtain ⟨hended, hnot⟩ := ended_of_zombie hp
  have hreaped := reaped_sigchldHandler hnot
  refine ⟨h.before1, h.before2, ?_, ?_, h.logfile, ?_, ?_, ?_⟩
  · intro q hq
    by_cases heq : q = p
    · rw [heq]
      exact hended
    · exact h.ended q ((Function.update_of_ne heq _ _).symm.trans hq)
  · have hcounter : (s.sigchldHandler p).childCounter = s.childCounter + 1 := rfl
    rw [hcounter, h.counter, hreaped, hreaped]
    cases p with
    | parent => exact hended.elim
    | child1 | child2 =>
        simp
        omega
  · intro q
    rw [count_sigchldHandler, hreaped]
    apply Nat.add_le_add (h.lines q)
    split_ifs with hlog hq hq
    · exact le_rfl
    · exact absurd hlog.2 hq
    · exact Nat.zero_le 1
    · exact le_rfl
  · intro hopen q
    have hlog : s.logfile = true := hopen
    rw [count_sigchldHandler, hreaped, h.complete hlog, if_congr (and_iff_right hlog) rfl rfl]
  · intro hsuccess
    have hboth : s.log.count (.exited .child1) = 1 ∧ s.log.count (.exited .child2) = 1 := by
      apply h.success
      apply hsuccess.imp_right
      intro hmem
      have hlog : (s.sigchldHandler p).log = if s.logfile then s.log ++ [.exited p] else s.log :=
        rfl
      rw [hlog] at hmem
      split_ifs at hmem
      · simpa using hmem
      · exact hmem
    -- both children have been reaped, and this is one of them
    have hone : s.log.count (.exited p) = 1 := by
      cases p with
      | parent => exact hended.elim
      | child1 => exact hboth.1
      | child2 => exact hboth.2
    have hline := h.lines p
    rw [hnot, hone] at hline
    cases hline

theorem Reaped.step (h : Reaped s) (hstep : s.step num1 num2 a = some t) :
  Reaped t
  := by
  cases a with
  | parent fails =>
      simp only [State.step] at hstep
      split_ifs at hstep
      exact h.main hstep
  | child1 fails => exact h.child1 (childProcess1_beside hstep) (childProcess1_alive hstep)
  | child2 fails => exact h.child2 (childProcess2_beside hstep) (childProcess2_alive hstep)
  | kill1 => exact h.child1 (kill1_beside hstep).1 (kill1_beside hstep).2
  | kill2 => exact h.child2 (kill2_beside hstep).1 (kill2_beside hstep).2
  | sigchld | deliver | handled =>
      simp only [State.step] at hstep
      split_ifs at hstep
      cases hstep
      exact ⟨h.before1, h.before2, h.ended, h.counter, h.logfile, h.lines, h.complete, h.success⟩
  | reap p =>
      simp only [State.step] at hstep
      split_ifs at hstep with hzombie
      cases hstep
      exact h.reap (Bool.and_eq_true_iff.mp hzombie).2
  | signal signal =>
      simp only [State.step] at hstep
      split_ifs at hstep
      cases hstep
      unfold State.daemonSignalHandler
      split_ifs
      · exact h.move (.writeMsgToLog rfl rfl) rfl rfl rfl rfl id nofun id nofun
      · exact h.move (.same rfl) rfl rfl rfl rfl id nofun id nofun

theorem Reachable.reaped (h : Reachable num1 num2 s) :
  Reaped s
  := by
  obtain ⟨named1, named2, hrun⟩ := h
  apply Transition.invariant ?_ hrun (.initial named1 named2)
  rintro s t hreaped ⟨a, hstep⟩
  exact hreaped.step hstep

/-- A child is reported once, after it has ended, and a success after both children. -/
theorem reported_once (h : Reachable num1 num2 s) :
  (∀ p, s.log.count (.exited p) ≤ 1 ∧ (.exited p ∈ s.log → s.Ended p))
    ∧ (.success ∈ s.log → .exited .child1 ∈ s.log ∧ .exited .child2 ∈ s.log)
  := by
  have hreaped := h.reaped
  refine ⟨?_, ?_⟩
  · intro p
    have hline := hreaped.lines p
    refine ⟨hline.trans (Bool.toNat_le _), ?_⟩
    intro hmem
    have hpos := List.count_pos_iff.mpr hmem
    apply hreaped.ended
    cases hp : s.reaped p with
    | true => rfl
    | false =>
        rw [hp] at hline
        exact absurd (hpos.trans_le hline) (lt_irrefl 0)
  · intro hsuccess
    obtain ⟨h1, h2⟩ := hreaped.success (.inr hsuccess)
    exact ⟨List.count_pos_iff.mp (h1 ▸ Nat.one_pos), List.count_pos_iff.mp (h2 ▸ Nat.one_pos)⟩

/-- The daemon is successful although its children have not exchanged anything. -/
theorem reported_once_killed :
  ∃ s : State, s.log = [.created, .parentOpened, .parentWrote 3 5, .exited .child1,
      .exited .child2, .success]
    ∧ (∀ p, s.log.count (.exited p) ≤ 1) ∧ s.Ended .child1 ∧ s.Ended .child2
  := by
  let actions := started ++ [.kill1, .kill2, .deliver, .reap .child1, .reap .child2, .handled,
    .parent false, .parent false]
  have hlog : ((State.initial false false).run 3 5 actions).map (·.log) =
      some [.created, .parentOpened, .parentWrote 3 5, .exited .child1, .exited .child2,
        .success] := by
    decide
  obtain ⟨s, hs, hlog⟩ := Option.map_eq_some_iff.mp hlog
  have hreachable : Reachable 3 5 s := ⟨false, false, State.run_reaches hs⟩
  obtain ⟨honce, hsuccess⟩ := reported_once hreachable
  obtain ⟨h1, h2⟩ := hsuccess (hlog ▸ by decide)
  exact ⟨s, hlog, fun p => (honce p).1, (honce .child1).2 h1, (honce .child2).2 h2⟩

/-! ### A signal that is lost -/

/-- The parent has not installed `sigchld_handler`. -/
def Parent.Early : Parent → Prop
  | install _ | installChild => True
  | pc => pc.Before2

structure Early (s : State) : Prop where
  parent : s.parent.Early → s.childHandler = false
  nothing : s.childHandler = false →
    s.pending = false ∧ s.handling = false ∧ s.childCounter = 0

theorem Early.beside {p : Process} (h : Early s) (hst : Beside p s t) :
  Early t
  := by
  refine ⟨?_, ?_⟩
  · rw [hst.parent, hst.childHandler]
    exact h.parent
  · rw [hst.childHandler, hst.handling, hst.childCounter]
    intro hnot
    obtain ⟨h1, h2, h3⟩ := h.nothing hnot
    refine ⟨?_, h2, h3⟩
    rcases hst.pending with heq | heq
    · rw [heq, h1]
    · rw [heq, h1, hnot]
      rfl

theorem Early.main (h : Early s) {fails : Bool} (hstep : s.main num1 num2 fails = some t) :
  Early t
  := by
  obtain ⟨hparent, hnothing⟩ := h
  unfold State.main at hstep
  cases hpc : s.parent with
  | mkfifo1 | mkfifo2 | open1 | writeNum1 | writeNum2 | writeCmd | fork1 | fork2 | proceed =>
      simp only [hpc] at hstep hparent
      split_ifs at hstep <;> cases hstep <;>
        first | exact ⟨fun _ => hparent trivial, hnothing⟩ | exact ⟨nofun, hnothing⟩
  | opened | wrote | success | close1 | closeLog _ | exit _ =>
      simp only [hpc] at hstep hparent
      cases hstep
      first | exact ⟨fun _ => hparent trivial, hnothing⟩ | exact ⟨nofun, hnothing⟩
  | unlink1 _ | unlink2 _ | unlinkFirst =>
      simp only [hpc] at hstep
      split_ifs at hstep <;> cases hstep <;> exact ⟨nofun, hnothing⟩
  | install signal =>
      simp only [hpc] at hstep hparent
      split_ifs at hstep <;> cases hstep
      · exact ⟨nofun, hnothing⟩
      · exact ⟨fun _ => hparent trivial, hnothing⟩
  | installChild =>
      simp only [hpc] at hstep
      split_ifs at hstep <;> cases hstep
      · exact ⟨nofun, hnothing⟩
      · exact ⟨nofun, nofun⟩
  | test =>
      simp only [hpc] at hstep
      cases hstep
      refine ⟨?_, hnothing⟩
      split_ifs <;> nofun
  | exited _ | killed =>
      simp only [hpc] at hstep
      cases hstep

theorem Early.step (h : Early s) (hstep : s.step num1 num2 a = some t) :
  Early t
  := by
  cases a with
  | parent fails =>
      simp only [State.step] at hstep
      split_ifs at hstep
      exact h.main hstep
  | child1 fails => exact h.beside (childProcess1_beside hstep)
  | child2 fails => exact h.beside (childProcess2_beside hstep)
  | kill1 => exact h.beside (kill1_beside hstep).1
  | kill2 => exact h.beside (kill2_beside hstep).1
  | sigchld =>
      simp only [State.step] at hstep
      split_ifs at hstep
      cases hstep
      refine ⟨h.parent, ?_⟩
      intro hnot
      have hnot : s.childHandler = false := hnot
      obtain ⟨h1, h2, h3⟩ := h.nothing hnot
      exact ⟨by rw [h1, hnot]; rfl, h2, h3⟩
  | deliver =>
      simp only [State.step] at hstep
      split_ifs at hstep with hpending
      cases hstep
      refine ⟨h.parent, ?_⟩
      intro hnot
      simp [(h.nothing hnot).1] at hpending
  | reap p =>
      simp only [State.step] at hstep
      split_ifs at hstep with hhandling
      cases hstep
      refine ⟨h.parent, ?_⟩
      intro hnot
      have hnot : s.childHandler = false := hnot
      simp [(h.nothing hnot).2.1] at hhandling
  | handled =>
      simp only [State.step] at hstep
      split_ifs at hstep
      cases hstep
      exact ⟨h.parent, fun hnot => ⟨(h.nothing hnot).1, rfl, (h.nothing hnot).2.2⟩⟩
  | signal signal =>
      simp only [State.step] at hstep
      split_ifs at hstep
      cases hstep
      unfold State.daemonSignalHandler
      split_ifs <;>
        exact ⟨nofun, fun hnot => ⟨(h.nothing hnot).1, rfl, (h.nothing hnot).2.2⟩⟩

/-- Both children have ended, and no signal of theirs will tell the parent about it. -/
structure Missed (s : State) : Prop where
  parent : ¬ s.parent.Before2 ∧ s.parent ≠ .success
  child1 : s.child1.Alive = false
  child2 : s.child2.Alive = false
  counter : s.childCounter < 2
  quiet : s.pending = false ∧ s.handling = false
  log : .success ∉ s.log

/-- The parent goes on without its children. -/
theorem Missed.of (h : Missed s) (hgrows : Grows s t) (hchild1 : t.child1 = s.child1)
    (hchild2 : t.child2 = s.child2) (hcounter : t.childCounter = s.childCounter)
    (hquiet : t.pending = s.pending ∧ t.handling = false)
    (hparent : ¬ t.parent.Before2 ∧ t.parent ≠ .success) :
  Missed t
  := by
  refine ⟨hparent, ?_, ?_, ?_, ⟨?_, hquiet.2⟩, ?_⟩
  · rw [hchild1]
    exact h.child1
  · rw [hchild2]
    exact h.child2
  · rw [hcounter]
    exact h.counter
  · rw [hquiet.1]
    exact h.quiet.1
  · rw [hgrows.success]
    exact h.log

theorem Missed.main (h : Missed s) {fails : Bool} (hstep : s.main num1 num2 fails = some t) :
  Missed t
  := by
  have hparent := h.parent
  have hhandling := h.quiet.2
  unfold State.main at hstep
  cases hpc : s.parent with
  | mkfifo1 | mkfifo2 | open1 | opened | writeNum1 | writeNum2 | writeCmd | wrote | fork1 | fork2 =>
      rw [hpc] at hparent
      exact absurd trivial hparent.1
  | success => exact absurd hpc hparent.2
  | install signal =>
      simp only [hpc] at hstep
      split_ifs at hstep <;> cases hstep
      · exact h.of (.writeMsgToLog rfl rfl) rfl rfl rfl ⟨rfl, hhandling⟩ ⟨id, nofun⟩
      · cases signal <;> exact h.of (.same rfl) rfl rfl rfl ⟨rfl, hhandling⟩ ⟨id, nofun⟩
  | installChild =>
      simp only [hpc] at hstep
      split_ifs at hstep <;> cases hstep
      · exact h.of (.writeMsgToLog rfl rfl) rfl rfl rfl ⟨rfl, hhandling⟩ ⟨id, nofun⟩
      · exact h.of (.same rfl) rfl rfl rfl ⟨rfl, hhandling⟩ ⟨id, nofun⟩
  | unlink1 _ | unlink2 _ | unlinkFirst =>
      simp only [hpc] at hstep
      split_ifs at hstep <;> cases hstep <;>
        exact h.of (.same rfl) rfl rfl rfl ⟨rfl, hhandling⟩ ⟨id, nofun⟩
  | test =>
      simp only [hpc] at hstep
      cases hstep
      rw [if_pos h.counter]
      exact h.of (.same rfl) rfl rfl rfl ⟨rfl, hhandling⟩ ⟨id, nofun⟩
  | proceed =>
      simp only [hpc] at hstep
      split_ifs at hstep <;> cases hstep
      · exact h.of (.trans (t := s.writeMsgToLog .proceeding) (.writeMsgToLog rfl rfl)
          (.writeMsgToLog rfl rfl)) rfl rfl rfl ⟨rfl, hhandling⟩ ⟨id, nofun⟩
      · exact h.of (.writeMsgToLog rfl rfl) rfl rfl rfl ⟨rfl, hhandling⟩ ⟨id, nofun⟩
  | close1 | closeLog _ | exit _ =>
      simp only [hpc] at hstep
      cases hstep
      exact h.of (.same rfl) rfl rfl rfl ⟨rfl, hhandling⟩ ⟨id, nofun⟩
  | exited _ | killed =>
      simp only [hpc] at hstep
      cases hstep

theorem Missed.step (h : Missed s) (hstep : s.step num1 num2 a = some t) (ha : a ≠ .sigchld) :
  Missed t
  := by
  have hchild1 := h.child1
  have hchild2 := h.child2
  obtain ⟨hpending, hhandling⟩ := h.quiet
  cases a with
  | parent fails =>
      simp only [State.step] at hstep
      split_ifs at hstep
      exact h.main hstep
  | child1 fails => cases hchild1.symm.trans (childProcess1_alive hstep)
  | child2 fails => cases hchild2.symm.trans (childProcess2_alive hstep)
  | kill1 => cases hchild1.symm.trans (kill1_beside hstep).2
  | kill2 => cases hchild2.symm.trans (kill2_beside hstep).2
  | sigchld => exact absurd rfl ha
  | deliver | handled | reap p =>
      simp [State.step, hpending, hhandling] at hstep
  | signal signal =>
      simp only [State.step] at hstep
      split_ifs at hstep
      cases hstep
      unfold State.daemonSignalHandler
      split_ifs
      · exact h.of (.writeMsgToLog rfl rfl) rfl rfl rfl ⟨rfl, rfl⟩ ⟨id, nofun⟩
      · exact h.of (.same rfl) rfl rfl rfl ⟨rfl, rfl⟩ ⟨id, nofun⟩

theorem Reachable.early (h : Reachable num1 num2 s) :
  Early s
  := by
  obtain ⟨named1, named2, hrun⟩ := h
  apply Transition.invariant ?_ hrun ⟨fun _ => rfl, fun _ => ⟨rfl, rfl, rfl⟩⟩
  rintro s t hearly ⟨a, hstep⟩
  exact hearly.step hstep

/-- If both children have ended when `sigchld_handler` is installed, the daemon never learns of it
as long as nobody sends it a `SIGCHLD`. -/
theorem never_success (h : Reachable num1 num2 s) (hparent : s.parent = .installChild)
    (hchild1 : s.Ended .child1) (hchild2 : s.Ended .child2)
    (hrun : ReflTransGen (fun s t => ∃ a, s.step num1 num2 a = some t ∧ a ≠ .sigchld) s t) :
  .success ∉ t.log
  := by
  have hhandler := h.early.parent (hparent ▸ trivial)
  obtain ⟨hpending, hhandling, hcounter⟩ := h.early.nothing hhandler
  have hreaped := h.reaped
  have hmissed : Missed s := by
    refine ⟨hparent ▸ ⟨id, nofun⟩, hchild1.2, hchild2.2, ?_, ⟨hpending, hhandling⟩, ?_⟩
    · rw [hcounter]
      exact Nat.two_pos
    · intro hsuccess
      obtain ⟨h1, -⟩ := hreaped.success (.inr hsuccess)
      have hline := hreaped.lines .child1
      rw [h1] at hline
      have hzero := hreaped.counter
      omega
  exact (Transition.invariant (fun s t hs ⟨a, hstep, ha⟩ => hs.step hstep ha) hrun hmissed).log

/-- The children are killed as soon as they have been started. -/
theorem never_success_killed :
  ∃ s : State, s.parent = .installChild ∧ s.Ended .child1 ∧ s.Ended .child2
    ∧ ∀ t, ReflTransGen (fun s t => ∃ a, s.step 3 5 a = some t ∧ a ≠ .sigchld) s t →
      .success ∉ t.log
  := by
  let actions : List Action := List.replicate 10 (.parent false) ++ [.kill1, .kill2]
    ++ List.replicate 3 (.parent false)
  have hend : ((State.initial false false).run 3 5 actions).map
      (fun s => (s.parent, s.child1, s.child2)) = some (.installChild, .killed, .killed) := by
    decide
  obtain ⟨s, hs, heq⟩ := Option.map_eq_some_iff.mp hend
  obtain ⟨hparent, hchild1, hchild2⟩ : s.parent = .installChild ∧ s.child1 = .killed
      ∧ s.child2 = .killed := by simpa using heq
  have hreachable : Reachable 3 5 s := ⟨false, false, State.run_reaches hs⟩
  have hended1 : s.Ended .child1 := by simp [State.Ended, hchild1, Child1.Alive]
  have hended2 : s.Ended .child2 := by simp [State.Ended, hchild2, Child2.Alive]
  exact ⟨s, hparent, hended1, hended2,
    fun t hrun => never_success hreachable hparent hended1 hended2 hrun⟩

end Daemon
