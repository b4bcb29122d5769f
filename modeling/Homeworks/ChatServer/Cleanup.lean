import Homeworks.ChatServer.Entries
import Homeworks.ChatServer.Handlers
import Homeworks.ChatServer.Membership
import Homeworks.Transition.Runs

/-!
# The cleanup of a session

Until its client has been cleaned up or its socket closed, a handler owns the entry of its
client and its descriptor.  After that it calls `cleanup_client` once more.  While this call
finds the entry inactive, the handler touches nothing that belongs to a later session.
-/

open Relation

namespace ChatServer

open Server

/-- The handler owns the entry of its client and its descriptor. -/
def Pc.owning : Pc → Bool
  | .cleaning .last | .cleaningUp .last | .done => false
  | _ => true

/-! ### What a handler does to the entries -/

/-- A handler changes the entry of its own client only. -/
theorem Handles.others {i : Slot} {s s' : Server} {pc pc' : Pc} {closed : Option Int}
    (h : Handles i s pc s' pc' closed) :
  ∀ j, j ≠ i → s'.clients j = s.clients j
  := by
  cases h with
  | accepted => apply (login_entry s i _).1
  | moved => apply (leaveRegion_entry s i _).1
  | left => apply (leaveRegion_entry s i _).1
  | inserted hj => apply (joinRegion_entry hj).1
  | cleaned => apply cleanupRegion_others
  | _ => exact fun _ _ => rfl

/-- A handler that goes on to own its entry has closed nothing, and the entry is that of the
same connection. -/
theorem Handles.owner {i : Slot} {s s' : Server} {pc pc' : Pc} {closed : Option Int}
    (h : Handles i s pc s' pc' closed) (hpc : pc'.owning = true) :
  pc.owning = true ∧ closed = none ∧ (s'.clients i).socket = (s.clients i).socket
    ∧ (s'.clients i).active = (s.clients i).active
  := by
  cases h with
  | accepted => exact ⟨rfl, rfl, (login_entry s i _).2⟩
  | moved => exact ⟨rfl, rfl, (leaveRegion_entry s i _).2⟩
  | left => exact ⟨rfl, rfl, (leaveRegion_entry s i _).2⟩
  | inserted hj => exact ⟨rfl, rfl, (joinRegion_entry hj).2⟩
  | closed => cases hpc
  | inactive => cases hpc
  | @clean call =>
      cases call with
      | unnamed => cases hpc
      | lost => cases hpc
      | last => cases hpc
  | @notClean call =>
      cases call with
      | unnamed => exact ⟨rfl, rfl, rfl, rfl⟩
      | lost => exact ⟨rfl, rfl, rfl, rfl⟩
      | last => cases hpc
  | @cleaned call =>
      cases call with
      | unnamed => cases hpc
      | lost => cases hpc
      | last => cases hpc
  | _ => exact ⟨rfl, rfl, rfl, rfl⟩

/-- What a handler closes is the descriptor in its entry, and it closes at most one. -/
theorem Handles.closes {i : Slot} {s s' : Server} {pc pc' : Pc} {closed : Option Int}
    (h : Handles i s pc s' pc' closed) :
  closed = none ∨ closed = some (s.clients i).socket
    ∧ (pc.owning = true ∨ pc = .cleaningUp .last) ∧ pc'.owning = false
  := by
  cases h with
  | closed => exact .inr ⟨rfl, .inl rfl, rfl⟩
  | @cleaned call =>
      cases call with
      | unnamed => exact .inr ⟨rfl, .inl rfl, rfl⟩
      | lost => exact .inr ⟨rfl, .inl rfl, rfl⟩
      | last => exact .inr ⟨rfl, .inr rfl, rfl⟩
  | _ => exact .inl rfl

/-- A handler that owns its entry does not go into the last call past its test. -/
theorem Handles.not_last {i : Slot} {s s' : Server} {pc pc' : Pc} {closed : Option Int}
    (h : Handles i s pc s' pc' closed) (hpc : pc.owning = true) :
  pc' ≠ .cleaningUp .last
  := by
  cases h with
  | @clean call => cases call <;> rintro ⟨⟩
  | @notClean call =>
      cases call with
      | last => cases hpc
      | _ => rintro ⟨⟩
  | @cleaned call => cases call <;> rintro ⟨⟩
  | _ => rintro ⟨⟩

/-- The test of the last call is made once. -/
theorem Handles.tested {i : Slot} {s s' : Server} {pc' : Pc} {closed : Option Int}
    (h : Handles i s (.cleaning .last) s' pc' closed) :
  pc' ≠ .cleaning .last
  := by
  cases h with
  | clean => rintro ⟨⟩
  | notClean => rintro ⟨⟩

/-- A handler that owns nothing, with an entry that is not active, has nothing left to do. -/
theorem Handles.idle {i : Slot} {s s' : Server} {pc pc' : Pc} {closed : Option Int}
    (h : Handles i s pc s' pc' closed) (hpc : pc.owning = false) (hlast : pc ≠ .cleaningUp .last)
    (hactive : pc = .cleaning .last → (s.clients i).active = false) :
  s' = s ∧ pc' = .done ∧ closed = none
  := by
  cases h with
  | @clean call _ =>
      cases call with
      | unnamed => cases hpc
      | lost => cases hpc
      | last => exact ⟨rfl, rfl, rfl⟩
  | @notClean call ha =>
      cases call with
      | unnamed => cases hpc
      | lost => cases hpc
      | last =>
          rw [hactive rfl] at ha
          cases ha
  | @cleaned call =>
      cases call with
      | unnamed => cases hpc
      | lost => cases hpc
      | last => exact absurd rfl hlast
  | _ => cases hpc

namespace System

variable {x x' : System} {k : Nat}

/-- A handler tests the entry in its last call of `cleanup_client` only when the entry is not
active. -/
def Finished (x x' : System) : Prop :=
  ∀ (k : Nat) (session : Session), x.sessions[k]? = some session → session.pc = .cleaning .last →
    x'.sessions[k]? ≠ some session → (x.server.clients session.slot).active = false

/-- What the handlers own, and that no later session has been given it. -/
structure Owned (x : System) : Prop where
  owner : ∀ (k : Nat) (session : Session), x.sessions[k]? = some session →
    session.pc.owning = true → session.closings = 0
      ∧ (x.server.clients session.slot).active = true
      ∧ (x.server.clients session.slot).socket = session.socket
      ∧ x.descriptors session.socket = some k
  slots : ∀ (k k' : Nat) (session session' : Session), x.sessions[k]? = some session →
    x.sessions[k']? = some session' → k < k' → session.pc.owning = true →
    session'.slot ≠ session.slot
  once : ∀ (k : Nat) (session : Session), x.sessions[k]? = some session → session.closings ≤ 1
  idle : ∀ (k : Nat) (session : Session), x.sessions[k]? = some session →
    session.pc ≠ .cleaningUp .last

/-- What a step of the handler of a session changes. -/
structure Handled (k : Nat) (x x' : System) (session session' : Session) : Prop where
  before : x.sessions[k]? = some session
  sessions : x'.sessions = x.sessions.set k session'
  slot : session'.slot = session.slot
  clients : ∀ i, i ≠ session.slot → x'.server.clients i = x.server.clients i
  unowned : session.pc.owning = false → x'.server = x.server
  descriptors : ∀ fd k', k' ≠ k → x.descriptors fd = some k' → x'.descriptors fd = some k'
  owner : session'.pc.owning = true → session.pc.owning = true ∧ session'.closings = 0
    ∧ (x'.server.clients session.slot).active = true
    ∧ (x'.server.clients session.slot).socket = session'.socket
    ∧ x'.descriptors session'.socket = some k
  once : session'.closings ≤ 1
  idle : session'.pc ≠ .cleaningUp .last

theorem Owned.handled (h : Owned x) (hstep : HandlerStep k x x') (hf : Finished x x') :
  ∃ session session', Handled k x x' session session'
  := by
  obtain @⟨session, s', pc', closed, hk, hh⟩ := hstep
  rcases Bool.eq_false_or_eq_true session.pc.owning with hpc | hpc
  · obtain ⟨hclosings, hactive, hsocket, hdescriptor⟩ := h.owner k session hk hpc
    have hcloses := hh.closes
    rw [hsocket] at hcloses
    refine ⟨session, _, hk, rfl, rfl, hh.others, ?_, ?_, ?_, ?_, hh.not_last hpc⟩
    · intro hnot
      rw [hpc] at hnot
      cases hnot
    · intro fd k' hne hfd
      obtain rfl | ⟨rfl, -⟩ := hcloses
      · exact hfd
      · have hother : fd ≠ session.socket := by
          rintro rfl
          rw [hdescriptor] at hfd
          exact hne (Option.some.inj hfd).symm
        simpa [close, hother] using hfd
    · intro hpc'
      obtain ⟨-, rfl, hsocket', hactive'⟩ := hh.owner hpc'
      exact ⟨hpc, hclosings, hactive'.trans hactive, hsocket'.trans hsocket, hdescriptor⟩
    · obtain rfl | ⟨rfl, -⟩ := hcloses
      · simp [hclosings]
      · simp [hclosings]
  · have hactive : session.pc = .cleaning .last →
        (x.server.clients session.slot).active = false := by
      intro hlast
      apply hf k session hk hlast
      dsimp only
      rw [get_set hk]
      intro hsame
      rw [hlast] at hh
      apply hh.tested
      rw [← hlast, ← Option.some.inj hsame]
    obtain ⟨rfl, rfl, rfl⟩ := hh.idle hpc (h.idle k session hk) hactive
    refine ⟨session, _, hk, rfl, rfl, fun _ _ => rfl, fun _ => rfl, fun _ _ _ hfd => hfd, ?_,
      h.once k session hk, ?_⟩
    · rintro ⟨⟩
    · rintro ⟨⟩

/-- What belongs to another session stays as it is. -/
theorem Owned.other (h : Owned x) {session session' : Session}
    (hh : Handled k x x' session session') {k' : Nat} {other : Session}
    (hk' : x.sessions[k']? = some other) (hne : k' ≠ k)
    (hslot : k' < k → other.pc.owning = true) :
  x'.server.clients other.slot = x.server.clients other.slot
  := by
  rcases Bool.eq_false_or_eq_true session.pc.owning with hpc | hpc
  · apply hh.clients
    rcases lt_or_gt_of_ne hne with hlt | hlt
    · apply (h.slots k' k other session hk' hh.before hlt (hslot hlt)).symm
    · apply h.slots k k' session other hh.before hk' hlt hpc
  · rw [hh.unowned hpc]

/-- The sessions after a step of one handler. -/
theorem Handled.get {session session' : Session} (hh : Handled k x x' session session')
    {k' : Nat} {after : Session} (hk' : x'.sessions[k']? = some after) :
  (k' = k ∧ after = session') ∨ (k' ≠ k ∧ x.sessions[k']? = some after)
  := by
  rw [hh.sessions] at hk'
  rcases eq_or_ne k' k with rfl | hne
  · rw [get_set hh.before] at hk'
    exact .inl ⟨rfl, (Option.some.inj hk').symm⟩
  · rw [List.getElem?_set_ne hne.symm] at hk'
    exact .inr ⟨hne, hk'⟩

theorem Owned.handler (h : Owned x) {session session' : Session}
    (hh : Handled k x x' session session') :
  Owned x'
  := by
  constructor
  case owner =>
    intro k' after hk' hpc
    obtain ⟨rfl, rfl⟩ | ⟨hne, hget⟩ := hh.get hk'
    · rw [hh.slot]
      apply (hh.owner hpc).2
    · obtain ⟨hclosings, hactive, hsocket, hdescriptor⟩ := h.owner k' after hget hpc
      rw [h.other hh hget hne fun _ => hpc]
      exact ⟨hclosings, hactive, hsocket, hh.descriptors _ k' hne hdescriptor⟩
  case slots =>
    intro k₁ k₂ first second h₁ h₂ hlt hpc
    obtain ⟨rfl, rfl⟩ | ⟨-, hget₁⟩ := hh.get h₁
    · obtain ⟨rfl, -⟩ | ⟨-, hget₂⟩ := hh.get h₂
      · exact absurd hlt (lt_irrefl _)
      · rw [hh.slot]
        apply h.slots k₁ k₂ session second hh.before hget₂ hlt (hh.owner hpc).1
    · obtain ⟨rfl, rfl⟩ | ⟨-, hget₂⟩ := hh.get h₂
      · rw [hh.slot]
        apply h.slots k₁ k₂ first session hget₁ hh.before hlt hpc
      · apply h.slots k₁ k₂ first second hget₁ hget₂ hlt hpc
  case once =>
    intro k' after hk'
    obtain ⟨rfl, rfl⟩ | ⟨-, hget⟩ := hh.get hk'
    · apply hh.once
    · apply h.once k' after hget
  case idle =>
    intro k' after hk'
    obtain ⟨rfl, rfl⟩ | ⟨-, hget⟩ := hh.get hk'
    · apply hh.idle
    · apply h.idle k' after hget

theorem Owned.accept (h : Owned x) (hstep : AcceptStep x x') :
  Owned x'
  := by
  obtain @⟨fd, i, s', pc, hfd, hc, hpc⟩ := hstep
  obtain ⟨hfree, hactive, hsocket, hothers⟩ := of_connect hc
  have hget : ∀ {k : Nat} {session : Session},
      (x.sessions ++ [⟨i, pc, fd, 0⟩])[k]? = some session →
      (x.sessions[k]? = some session ∧ k < x.sessions.length)
        ∨ (k = x.sessions.length ∧ session = ⟨i, pc, fd, 0⟩) := by
    intro k session hk
    rcases lt_or_ge k x.sessions.length with hlt | hge
    · rw [List.getElem?_append_left hlt] at hk
      exact .inl ⟨hk, hlt⟩
    · rw [List.getElem?_append_right hge, List.getElem?_singleton] at hk
      split at hk
      · exact .inr ⟨by omega, (Option.some.inj hk).symm⟩
      · cases hk
  constructor
  case owner =>
    intro k session hk hown
    obtain ⟨hk, hlt⟩ | ⟨rfl, rfl⟩ := hget hk
    · obtain ⟨hclosings, ha, hs, hd⟩ := h.owner k session hk hown
      have hslot : session.slot ≠ i := by
        rintro rfl
        rw [hfree] at ha
        cases ha
      have hne : session.socket ≠ fd := by
        rintro rfl
        rw [hfd] at hd
        cases hd
      dsimp only
      rw [hothers _ hslot, Function.update_of_ne hne]
      exact ⟨hclosings, ha, hs, hd⟩
    · exact ⟨rfl, hactive, hsocket, Function.update_self ..⟩
  case slots =>
    intro k k' session session' hk hk' hlt hown
    obtain ⟨hold, -⟩ | ⟨rfl, rfl⟩ := hget hk
    · obtain ⟨hold', -⟩ | ⟨rfl, rfl⟩ := hget hk'
      · apply h.slots k k' session session' hold hold' hlt hown
      · have ha := (h.owner k session hold hown).2.1
        rintro rfl
        rw [hfree] at ha
        cases ha
    · obtain ⟨-, hlt'⟩ | ⟨rfl, -⟩ := hget hk'
      · omega
      · omega
  case once =>
    intro k session hk
    obtain ⟨hk, -⟩ | ⟨rfl, rfl⟩ := hget hk
    · apply h.once k session hk
    · exact Nat.zero_le _
  case idle =>
    intro k session hk
    obtain ⟨hk, -⟩ | ⟨rfl, rfl⟩ := hget hk
    · apply h.idle k session hk
    · obtain rfl | rfl := hpc <;> rintro ⟨⟩

theorem owned_initial :
  Owned initial
  := by
  constructor
  case slots =>
    rintro k k' session session' ⟨⟩
  all_goals rintro k session ⟨⟩

theorem Owned.step (x x' : System) (h : Owned x) (hstep : Step x x' ∧ Finished x x') :
  Owned x'
  := by
  obtain ⟨ha | ⟨k, hh⟩, hf⟩ := hstep
  · apply h.accept ha
  · obtain ⟨session, session', hh⟩ := h.handled hh hf
    apply h.handler hh

/-- In every run in which the last call of `cleanup_client` is made only while the entry is
not active, every handler closes its socket at most once, and no handler changes the entry or
closes the descriptor of a later session. -/
theorem cleanup_own_session (x : System)
    (h : ReflTransGen (fun x x' => Step x x' ∧ Finished x x') initial x) :
  (∀ session ∈ x.sessions, session.closings ≤ 1)
    ∧ ∀ k x', HandlerStep k x x' → Finished x x' → ∀ (k' : Nat) (session : Session),
      x.sessions[k']? = some session → k < k' →
      x'.server.clients session.slot = x.server.clients session.slot
        ∧ ∀ fd, x.descriptors fd = some k' → x'.descriptors fd = some k'
  := by
  have howned := Transition.invariant Owned.step h owned_initial
  constructor
  · intro session hmem
    obtain ⟨k, hk⟩ := List.mem_iff_getElem?.mp hmem
    apply howned.once k session hk
  · intro k x' hstep hf k' session hk' hlt
    obtain ⟨before, after, hh⟩ := howned.handled hstep hf
    constructor
    · apply howned.other hh hk' hlt.ne' fun hgt => absurd hlt hgt.not_gt
    · intro fd hfd
      apply hh.descriptors fd k' hlt.ne' hfd

/-! ### A client alone -/

/-- A handler that is alone is not in its last call, or finds its entry not active. -/
theorem finished_alone {s : Server} {i : Slot} {pc : Pc} {fd : Int} {closings : Nat}
    {descriptors : Int → Option Nat} (h : pc ≠ .cleaning .last ∨ (s.clients i).active = false) :
  Finished ⟨s, [⟨i, pc, fd, closings⟩], descriptors⟩ x'
  := by
  intro k session hk hlast _
  obtain ⟨-, rfl⟩ : k = 0 ∧ session = ⟨i, pc, fd, closings⟩ := by
    cases k with
    | zero => exact ⟨rfl, (Option.some.inj hk).symm⟩
    | succ k => cases hk
  obtain hne | hfree := h
  · exact absurd hlast hne
  · exact hfree

/-- The server with a client that has logged in. -/
def entered : Server := (connected.login 0 "ada".toList).1

/-- A client connects and logs in. -/
theorem run_entered :
  ReflTransGen (fun x x' => Step x x' ∧ Finished x x') initial
    ⟨entered, [⟨0, .waiting, 4, 0⟩], Function.update (fun _ => none) 4 (some 0)⟩
  := by
  have haccept : Step initial
      ⟨connected, [⟨0, .login, 4, 0⟩], Function.update (fun _ => none) 4 (some 0)⟩ :=
    .inl (@AcceptStep.of initial 4 0 connected .login rfl rfl (.inl rfl))
  have hnaming : Handles 0 connected .login connected (.naming "ada".toList) none :=
    .loginValid rfl
  apply ReflTransGen.head ⟨haccept, by rintro k session ⟨⟩⟩
  apply ReflTransGen.head ⟨step_alone _ hnaming, finished_alone (.inl nofun)⟩
  apply ReflTransGen.head ⟨step_alone _ (.accepted rfl), finished_alone (.inl nofun)⟩
  apply ReflTransGen.single ⟨step_alone _ (.active rfl), finished_alone (.inl nofun)⟩

/-- The client disconnects. -/
theorem cleanup_own_session_lost :
  (⟨0, .done, 4, 1⟩ : Session).closings ≤ 1
  := by
  have hrun := run_entered.trans <|
    (ReflTransGen.single ⟨step_alone _ .lost, finished_alone (.inl nofun)⟩).tail
      ⟨step_alone _ (.notClean rfl), finished_alone (.inl nofun)⟩ |>.tail
      ⟨step_alone _ .cleaned, finished_alone (.inl nofun)⟩ |>.tail
      ⟨step_alone _ (.clean rfl), finished_alone (.inr rfl)⟩
  exact (cleanup_own_session _ hrun).1 _ (List.mem_singleton_self _)

/-- A session that is ended by the command `/exit` closes its descriptor twice. -/
theorem exit_closes_twice :
  ¬ ∀ x, Reachable x → (∀ session ∈ x.sessions, session.closings ≤ 1)
    ∧ ∀ k x', HandlerStep k x x' → ∀ (k' : Nat) (session : Session),
      x.sessions[k']? = some session → k < k' →
      x'.server.clients session.slot = x.server.clients session.slot
        ∧ ∀ fd, x.descriptors fd = some k' → x'.descriptors fd = some k'
  := by
  intro hall
  have hentered : Reachable _ := ReflTransGen.mono (fun _ _ h => h.1) _ _ run_entered
  have hrun := ((hentered.tail (step_alone _ .exit)).tail (step_alone _ .closed)).tail
    (step_alone _ (.notClean rfl)) |>.tail (step_alone _ .cleaned)
  have hle := (hall _ hrun).1 _ (List.mem_singleton_self _)
  exact absurd hle (by decide)

end System

end ChatServer
