import Homeworks.ChatServer.Handlers
import Homeworks.ChatServer.Membership
import Mathlib.Data.List.Count

/-!
# The capacity of the rooms

A client is put into a room some time after it has been checked that the room is not full.
The handlers that have passed the check count as users of the room: while these are at most
fifteen together, no room is overfull.
-/

open Relation

namespace ChatServer

/-! ### The users of a room -/

namespace Server

variable {s s' : Server} {i : Slot} {name : Text} {r : Fin MAX_ROOMS}

/-- The number of users of the room with a name. -/
def occupants (s : Server) (name : Text) : Nat :=
  match s.findRoom name with
  | some r => (s.rooms r).users.length
  | none => 0

/-- No two active rooms have the same name, and the other rooms are empty. -/
structure RoomTable (s : Server) : Prop where
  distinct : ∀ r r', (s.rooms r).active = true → (s.rooms r').active = true →
    (s.rooms r).name = (s.rooms r').name → r = r'
  vacant : ∀ r, (s.rooms r).active = false → (s.rooms r).users = []

theorem RoomTable.findRoom (h : RoomTable s) (hr : (s.rooms r).active = true) :
  s.findRoom (s.rooms r).name = some r
  := by
  apply Table.find_eq
  · simp [hr]
  · intro r' hr'
    simp only [Bool.and_eq_true, decide_eq_true_eq] at hr'
    apply h.distinct r' r hr'.1 hr hr'.2

theorem RoomTable.occupants (h : RoomTable s) (hr : (s.rooms r).active = true) :
  s.occupants (s.rooms r).name = (s.rooms r).users.length
  := by
  simp only [Server.occupants, h.findRoom hr]

theorem occupants_of_none (h : ∀ r, (s.rooms r).active = true → (s.rooms r).name ≠ name) :
  s.occupants name = 0
  := by
  unfold occupants
  split
  · rename_i hf
    obtain ⟨hr, hn⟩ := of_findRoom hf
    exact absurd hn (h _ hr)
  · rfl

/-- The rooms of `s'` are rooms of `s` with no more users. -/
structure Shrunk (s s' : Server) : Prop where
  active : ∀ r, (s'.rooms r).active = true → (s.rooms r).active = true
  name : ∀ r, (s'.rooms r).name = (s.rooms r).name
  users : ∀ r, (s'.rooms r).users.length ≤ (s.rooms r).users.length
  vacant : ∀ r, (s'.rooms r).active = false → (s.rooms r).active = true → (s'.rooms r).users = []

theorem shrunk_of_rooms (h : s'.rooms = s.rooms) :
  Shrunk s s'
  := by
  constructor
  · rw [h]
    exact fun _ hr => hr
  · rw [h]
    exact fun _ => rfl
  · rw [h]
    exact fun _ => le_rfl
  · rw [h]
    intro r hr hr'
    rw [hr'] at hr
    cases hr

theorem Shrunk.roomTable (hs : Shrunk s s') (h : RoomTable s) :
  RoomTable s'
  := by
  constructor
  · intro r r' hr hr' hn
    rw [hs.name, hs.name] at hn
    apply h.distinct r r' (hs.active r hr) (hs.active r' hr') hn
  · intro r hr
    cases hold : (s.rooms r).active with
    | true => apply hs.vacant r hr hold
    | false =>
        have hle := hs.users r
        rw [h.vacant r hold] at hle
        apply List.eq_nil_of_length_eq_zero (Nat.le_zero.mp hle)

theorem Shrunk.occupants_le (hs : Shrunk s s') (h : RoomTable s) (name : Text) :
  s'.occupants name ≤ s.occupants name
  := by
  cases hf : s'.findRoom name with
  | none => simp [occupants, hf]
  | some r =>
      obtain ⟨hr, hn⟩ := of_findRoom hf
      have hold := h.occupants (hs.active r hr)
      rw [← hs.name, hn] at hold
      simp only [occupants, hf] at hold ⊢
      rw [hold]
      apply hs.users

theorem Shrunk.of_rooms {s'' : Server} (h : Shrunk s s') (hr : s''.rooms = s'.rooms) :
  Shrunk s s''
  := by
  constructor
  · rw [hr]
    apply h.active
  · rw [hr]
    apply h.name
  · rw [hr]
    apply h.users
  · rw [hr]
    apply h.vacant

theorem Left.shrunk (hl : Left s s' i r) (hr : (s.rooms r).active = true) :
  Shrunk s s'
  := by
  constructor
  · intro r' hr'
    rcases eq_or_ne r' r with rfl | hne
    · apply hr
    · rwa [hl.rooms r' hne] at hr'
  · intro r'
    rcases eq_or_ne r' r with rfl | hne
    · apply hl.name
    · rw [hl.rooms r' hne]
  · intro r'
    rcases eq_or_ne r' r with rfl | hne
    · rw [hl.users]
      apply List.length_filter_le
    · rw [hl.rooms r' hne]
  · intro r' hfree hr'
    rcases eq_or_ne r' r with rfl | hne
    · by_contra hu
      rw [hl.active.mpr hu] at hfree
      cases hfree
    · rw [hl.rooms r' hne, hr'] at hfree
      cases hfree

/-- A client that leaves a room, or tries to, adds no user to any room. -/
theorem shrunk_leaveRegion (s : Server) (i : Slot) (name : Text) :
  Shrunk s (s.leaveRegion i name).1
  := by
  cases hf : s.findRoom name with
  | none =>
      simp only [leaveRegion, hf]
      exact shrunk_of_rooms rfl
  | some r => apply (left_leaveRegion hf i).shrunk (of_findRoom hf).1

theorem shrunk_cleanupRegion (s : Server) (i : Slot) :
  Shrunk s (s.cleanupRegion i).1
  := by
  simp only [cleanupRegion]
  split
  · exact (s.shrunk_leaveRegion i (s.clients i).currentRoom).of_rooms rfl
  · exact shrunk_of_rooms rfl

/-- A client that joins a room adds one user to it and none to the others. -/
theorem Admitted.occupants (hj : Admitted s s' i r name) (h : RoomTable s) :
  RoomTable s' ∧ s'.occupants name = s.occupants name + 1
    ∧ ∀ name', name' ≠ name → s'.occupants name' = s.occupants name'
  := by
  have hother : ∀ r', r' ≠ r → (s'.rooms r').active = true →
      (s.rooms r').active = true ∧ (s.rooms r').name ≠ name := by
    intro r' hne hr'
    rw [hj.rooms r' hne] at hr'
    refine ⟨hr', ?_⟩
    obtain ⟨hr, hname, -⟩ | ⟨-, hnone, -⟩ := hj.users
    · intro hname'
      apply hne (h.distinct r' r hr' hr (hname'.trans hname.symm))
    · apply hnone r' hr'
  have htable : RoomTable s' := by
    constructor
    · intro r₁ r₂ h₁ h₂ hname
      rcases eq_or_ne r₁ r with rfl | hne₁
      · rcases eq_or_ne r₂ r₁ with rfl | hne₂
        · rfl
        · rw [hj.roomName, hj.rooms r₂ hne₂] at hname
          exact absurd hname.symm (hother r₂ hne₂ h₂).2
      · rcases eq_or_ne r₂ r with rfl | hne₂
        · rw [hj.roomName, hj.rooms r₁ hne₁] at hname
          exact absurd hname (hother r₁ hne₁ h₁).2
        · rw [hj.rooms r₁ hne₁, hj.rooms r₂ hne₂] at hname
          apply h.distinct r₁ r₂ (hother r₁ hne₁ h₁).1 (hother r₂ hne₂ h₂).1 hname
    · intro r' hr'
      rcases eq_or_ne r' r with rfl | hne
      · rw [hj.active] at hr'
        cases hr'
      · rw [hj.rooms r' hne] at hr' ⊢
        apply h.vacant r' hr'
  refine ⟨htable, ?_, ?_⟩
  · have hnew := htable.occupants hj.active
    rw [hj.roomName] at hnew
    rw [hnew]
    obtain ⟨hr, hname, hu, -⟩ | ⟨-, hnone, hu, -⟩ := hj.users
    · rw [hu, List.length_append, ← h.occupants hr, hname]
      rfl
    · rw [hu, occupants_of_none hnone]
      rfl
  · intro name' hne
    cases hf : s'.findRoom name' with
    | none =>
        have hnone := of_not_findRoom hf
        rw [occupants_of_none hnone, occupants_of_none]
        intro r' hr' hn'
        rcases eq_or_ne r' r with rfl | hner
        · obtain ⟨-, hname, -⟩ | ⟨hr, -⟩ := hj.users
          · apply hne (hn'.symm.trans hname)
          · rw [hr] at hr'
            cases hr'
        · rw [← hj.rooms r' hner] at hr' hn'
          apply hnone r' hr' hn'
    | some r' =>
        obtain ⟨hr', hn'⟩ := of_findRoom hf
        have hner : r' ≠ r := by
          rintro rfl
          apply hne (hn'.symm.trans hj.roomName)
        have hnew := htable.occupants hr'
        have hold := h.occupants (hother r' hner hr').1
        rw [hn'] at hnew
        rw [hj.rooms r' hner] at hnew hn'
        rw [hn'] at hold
        rw [hnew, hold]

end Server

/-! ### The handlers on their way into a room -/

/-- The handler has passed the check of a room, and its client is not yet in the room. -/
def Pc.pending (name : Text) : Pc → Bool
  | .passed room | .entering room _ | .moving room _ | .movingFrom room _ _ | .inserting room _ =>
      room = name
  | _ => false

open Server in
/-- Apart from the check, no step of a handler adds to the users of a room together with
those on their way into it. -/
theorem Handles.occupants {i : Slot} {s s' : Server} {pc pc' : Pc} {closed : Option Int}
    (h : Handles i s pc s' pc' closed) (ht : RoomTable s) :
  (∃ room, pc = .checking room ∧ pc' = .passed room ∧ s' = s ∧ s.roomIsFull room = false)
    ∨ (RoomTable s' ∧ ∀ name, s'.occupants name + (pc'.pending name).toNat
      ≤ s.occupants name + (pc.pending name).toNat)
  := by
  have hshrunk : ∀ {s' : Server} {pc pc' : Pc}, Shrunk s s' →
      (∀ name, pc'.pending name = true → pc.pending name = true) →
      RoomTable s' ∧ ∀ name, s'.occupants name + (pc'.pending name).toNat
        ≤ s.occupants name + (pc.pending name).toNat := by
    intro s' pc pc' hs hp
    refine ⟨hs.roomTable ht, fun name => Nat.add_le_add (hs.occupants_le ht name) ?_⟩
    apply Bool.toNat_le_toNat
    apply hp name
  cases h with
  | notFull hfull => exact .inl ⟨_, rfl, rfl, rfl, hfull⟩
  | @inserted room rejoining _ sockets hj =>
      right
      obtain ⟨r, hjoined⟩ := joined_joinRegion hj
      obtain ⟨htable, hroom, hother⟩ := hjoined.toAdmitted.occupants ht
      refine ⟨htable, ?_⟩
      intro name
      rcases eq_or_ne name room with rfl | hne
      · rw [hroom]
        simp [Pc.pending]
      · rw [hother name hne]
        simp [Pc.pending, hne.symm]
  | accepted =>
      right
      apply hshrunk
      · apply shrunk_of_rooms
        simp only [Server.login]
        split
        · rfl
        · split
          · rfl
          · rfl
      · intro name h
        exact h
  | moved =>
      right
      apply hshrunk (s.shrunk_leaveRegion i _)
      intro name h
      exact h
  | left =>
      right
      apply hshrunk (s.shrunk_leaveRegion i _)
      intro name h
      exact h
  | @cleaned call =>
      right
      apply hshrunk (s.shrunk_cleanupRegion i)
      intro name h
      cases call <;> exact h
  | @clean call =>
      right
      apply hshrunk (shrunk_of_rooms rfl)
      intro name h
      cases call <;> exact h
  | noRoom =>
      right
      apply hshrunk (shrunk_of_rooms rfl)
      rintro name ⟨⟩
  | _ =>
      right
      apply hshrunk (shrunk_of_rooms rfl)
      intro name h
      exact h

namespace System

open Server

variable {x x' : System}

/-- The number of handlers on their way into a room. -/
def pending (x : System) (name : Text) : Nat :=
  x.sessions.countP fun session => session.pc.pending name

/-- If a handler takes the step that checks a room, and the room is not full, then its users
and the handlers on their way into it number fewer than fifteen. -/
def Uncrowded (x x' : System) : Prop :=
  ∀ (k : Nat) (session : Session) (room : Text), x.sessions[k]? = some session →
    session.pc = .checking room → x'.sessions[k]? ≠ some session →
    x.server.roomIsFull room = false →
    x.server.occupants room + x.pending room < MAX_USERS_PER_ROOM

/-- The users of each room and the handlers on their way into it number at most fifteen. -/
structure Spaced (x : System) : Prop where
  rooms : RoomTable x.server
  capacity : ∀ name, x.server.occupants name + x.pending name ≤ MAX_USERS_PER_ROOM

theorem pending_set {k : Nat} {session session' : Session} {s' : Server}
    {descriptors : Int → Option Nat} (h : x.sessions[k]? = some session) (name : Text) :
  pending ⟨s', x.sessions.set k session', descriptors⟩ name + (session.pc.pending name).toNat
    = x.pending name + (session'.pc.pending name).toNat
  := Table.countP_set h session'

theorem spaced_initial :
  Spaced initial
  := by
  constructor
  · constructor
    · intro r r' h
      cases h
    · intro r _
      rfl
  · intro name
    have hnone : initial.server.occupants name = 0 := by
      apply occupants_of_none
      intro r h
      cases h
    rw [hnone]
    exact Nat.zero_le _

theorem connect_rooms {s s' : Server} {socket : Int} {i : Slot}
    (h : s.connect socket = some (i, s')) :
  s'.rooms = s.rooms
  := by
  unfold connect at h
  split at h
  · cases h
  · cases h
    rfl

theorem Spaced.step (h : Spaced x) (hstep : Step x x') (hu : Uncrowded x x') :
  Spaced x'
  := by
  obtain @⟨fd, i, s', pc, hfd, hc, hpc⟩ | ⟨k, @⟨session, s', pc', closed, hk, hh⟩⟩ := hstep
  · have hs := shrunk_of_rooms (connect_rooms hc)
    refine ⟨hs.roomTable h.rooms, ?_⟩
    intro name
    have hp : pc.pending name = false := by
      obtain rfl | rfl := hpc <;> rfl
    have hle := hs.occupants_le h.rooms name
    have hcap := h.capacity name
    simp only [pending, List.countP_append, List.countP_singleton, hp] at hcap ⊢
    simp only [Bool.false_eq_true, if_false]
    omega
  · have hset : ∀ name, pending ⟨s', x.sessions.set k { session with
        pc := pc'
        closings := session.closings + closed.toList.length }, close x.descriptors closed⟩ name
          + (session.pc.pending name).toNat = x.pending name + (pc'.pending name).toNat :=
      fun name => pending_set hk name
    have hcap := h.capacity
    obtain ⟨room, hpc, rfl, rfl, hfull⟩ | ⟨htable, hle⟩ := hh.occupants h.rooms
    · refine ⟨h.rooms, ?_⟩
      intro name
      have hn := hset name
      rcases eq_or_ne room name with rfl | hne
      · have hroom : x.server.occupants room + x.pending room < MAX_USERS_PER_ROOM := by
          apply hu k session room hk hpc _ hfull
          dsimp only
          rw [get_set hk]
          intro hsame
          rw [← Option.some.inj hsame] at hpc
          cases hpc
        simp only [hpc, Pc.pending, decide_true, Bool.toNat_true, Bool.toNat_false] at hn
        dsimp only
        omega
      · have hold := hcap name
        simp only [hpc, Pc.pending, hne, decide_false, Bool.toNat_false] at hn
        dsimp only
        omega
    · refine ⟨htable, ?_⟩
      intro name
      have hn := hset name
      have hn' := hle name
      have hold := hcap name
      dsimp only at hn ⊢
      omega

/-- In every run in which handlers pass the check of a room only while it is uncrowded, no
room is overfull. -/
theorem rooms_within_capacity (x : System)
    (h : ReflTransGen (fun x x' => Step x x' ∧ Uncrowded x x') initial x) :
  ∀ r, (x.server.rooms r).users.length ≤ MAX_USERS_PER_ROOM
  := by
  have hs : Spaced x := by
    induction h with
    | refl => apply spaced_initial
    | tail _ hstep ih => apply ih.step hstep.1 hstep.2
  intro r
  cases hr : (x.server.rooms r).active with
  | false =>
      rw [hs.rooms.vacant r hr]
      exact Nat.zero_le _
  | true =>
      rw [← hs.rooms.occupants hr]
      apply Nat.le_of_add_right_le (hs.capacity _)

/-! ### Two clients -/

/-- Two handlers among rooms with one user at most are uncrowded. -/
theorem uncrowded_of_few (hrooms : ∀ r, (x.server.rooms r).users.length ≤ 1)
    (hsessions : x.sessions.length ≤ 2) :
  Uncrowded x x'
  := by
  intro k _ room _ _ _ _
  have hoccupants : x.server.occupants room ≤ 1 := by
    rw [occupants]
    split
    · apply hrooms
    · exact Nat.zero_le 1
  have hpending : x.pending room ≤ x.sessions.length := List.countP_le_length
  have hmax : MAX_USERS_PER_ROOM = 15 := rfl
  omega

/-- The last handler takes a step that closes no descriptor. -/
theorem step_last {s s' : Server} {sessions : List Session} {descriptors : Int → Option Nat}
    {i : Slot} {pc pc' : Pc} {fd : Int} (hh : Handles i s pc s' pc' none) :
  Step ⟨s, sessions ++ [⟨i, pc, fd, 0⟩], descriptors⟩
    ⟨s', sessions ++ [⟨i, pc', fd, 0⟩], descriptors⟩
  := by
  have hk : (sessions ++ [(⟨i, pc, fd, 0⟩ : Session)])[sessions.length]? = some ⟨i, pc, fd, 0⟩ := by
    simp
  have hstep : Step ⟨s, sessions ++ [⟨i, pc, fd, 0⟩], descriptors⟩ _ := .inr ⟨_, .of hk hh⟩
  simpa [close] using hstep

/-- A client connects, logs in and joins a room, where another one at most is connected. -/
theorem run_joins {s s₁ s₂ s₃ : Server} {sessions : List Session}
    {descriptors : Int → Option Nat} {i : Slot} {fd : Int} {username room : Text}
    {sockets : List (Option Int)} (hrooms : ∀ r, (s.rooms r).users.length ≤ 1)
    (hsessions : sessions.length ≤ 1) (hfd : descriptors fd = none)
    (hconnect : s.connect fd = some (i, s₁)) (hname : isValidUsername username = true)
    (htaken : s₁.usernameTaken username = false) (hlogin : (s₁.login i username).1 = s₂)
    (hactive : (s₂.clients i).active = true) (hcurrent : (s₂.clients i).currentRoom = [])
    (hrooms₂ : s₂.rooms = s₁.rooms) (hvalid : isValidRoomName room = true) (hroom : [] ≠ room)
    (hfull : s₂.roomIsFull room = false)
    (hjoin : s₂.joinRegion i room (s₂.rejoining i room) = some (s₃, sockets)) :
  ReflTransGen (fun x x' => Step x x' ∧ Uncrowded x x') ⟨s, sessions, descriptors⟩
    ⟨s₃, sessions ++ [⟨i, .loop, fd, 0⟩], Function.update descriptors fd sessions.length⟩
  := by
  have hrooms₁ : ∀ r, (s₁.rooms r).users.length ≤ 1 := by rwa [connect_rooms hconnect]
  have hlength : ∀ session : Session, (sessions ++ [session]).length ≤ 2 := by
    intro session
    rw [List.length_append, List.length_singleton]
    omega
  have hstep : ∀ {s s' : Server} {pc pc' : Pc} {descriptors : Int → Option Nat},
      (∀ r, (s.rooms r).users.length ≤ 1) → Handles i s pc s' pc' none →
      Step ⟨s, sessions ++ [⟨i, pc, fd, 0⟩], descriptors⟩
          ⟨s', sessions ++ [⟨i, pc', fd, 0⟩], descriptors⟩
        ∧ Uncrowded ⟨s, sessions ++ [⟨i, pc, fd, 0⟩], descriptors⟩
          ⟨s', sessions ++ [⟨i, pc', fd, 0⟩], descriptors⟩ :=
    fun hr hh => ⟨step_last hh, uncrowded_of_few hr (hlength _)⟩
  have haccept : ReflTransGen (fun x x' => Step x x' ∧ Uncrowded x x') ⟨s, sessions, descriptors⟩
      ⟨s₁, sessions ++ [⟨i, .login, fd, 0⟩], Function.update descriptors fd sessions.length⟩ :=
    .single ⟨.inl (.of hfd hconnect (.inl rfl)),
      uncrowded_of_few hrooms (Nat.le_succ_of_le hsessions)⟩
  have hloop := (haccept.tail (hstep hrooms₁ (.loginValid hname))).tail
    (hstep hrooms₁ (.accepted htaken))
  rw [hlogin] at hloop
  rw [← hrooms₂] at hrooms₁
  have hjoining := (hloop.tail (hstep hrooms₁ (.active hactive))).tail
    (hstep hrooms₁ (.join hvalid))
  have hpassed := (hjoining.tail (hstep hrooms₁ (.elsewhere (by rwa [hcurrent])))).tail
    (hstep hrooms₁ (.notFull hfull))
  have hinserting := (hpassed.tail (hstep hrooms₁ .looked)).tail
    (hstep hrooms₁ (.wasInNoRoom (by rw [hcurrent]; decide)))
  exact hinserting.tail (hstep hrooms₁ (.inserted hjoin))

/-- The second client joins the room of the first one. -/
theorem rooms_within_capacity_joined :
  (shared.rooms 0).users = [0, 1] ∧ (shared.rooms 0).users.length ≤ MAX_USERS_PER_ROOM
  := by
  have hoccupied : ∀ r, (occupied.rooms r).users.length ≤ 1 := by
    have hrooms : occupied.rooms = Function.update (Function.update initial.server.rooms 0
        ⟨"tea".toList, [], true⟩) 0 ⟨"tea".toList, [0], true⟩ := rfl
    intro r
    rw [hrooms, Function.update_idem]
    rcases eq_or_ne r 0 with rfl | hne
    · exact le_rfl
    · rw [Function.update_of_ne hne]
      exact Nat.zero_le 1
  have hfirst : ReflTransGen (fun x x' => Step x x' ∧ Uncrowded x x') initial
      ⟨occupied, [⟨0, .loop, 4, 0⟩], Function.update (fun _ => none) 4 (some 0)⟩ :=
    @run_joins .initial connected (connected.login 0 "ada".toList).1 occupied [] (fun _ => none) 0 4
      "ada".toList "tea".toList [] (fun _ => Nat.zero_le 1) (Nat.zero_le 1) rfl rfl rfl rfl rfl rfl
      rfl rfl rfl (by decide) rfl rfl
  have hsecond : ReflTransGen (fun x x' => Step x x' ∧ Uncrowded x x') _
      ⟨shared, _, _⟩ :=
    @run_joins occupied visited (visited.login 1 "bob".toList).1 shared [⟨0, .loop, 4, 0⟩]
      (Function.update (fun _ => none) 4 (some 0)) 1 5 "bob".toList "tea".toList [some 4] hoccupied
      le_rfl rfl rfl rfl rfl rfl rfl rfl rfl rfl (by decide) rfl rfl
  exact ⟨rfl, rooms_within_capacity _ (hfirst.trans hsecond) 0⟩

/-! ### A crowd -/

theorem Reachable.last {s s' : Server} {sessions : List Session} {descriptors : Int → Option Nat}
    {i : Slot} {pc pc' : Pc} {fd : Int}
    (h : Reachable ⟨s, sessions ++ [⟨i, pc, fd, 0⟩], descriptors⟩)
    (hh : Handles i s pc s' pc' none) :
  Reachable ⟨s', sessions ++ [⟨i, pc', fd, 0⟩], descriptors⟩
  := h.tail (step_last hh)

/-- The room that the crowd joins. -/
def crowdRoom : Text := "tea".toList

/-- The username of a client in the crowd. -/
def crowdName (n : Nat) : Text := List.replicate (n + 1) 'a'

/-- The first `n` clients are about to join a room, which does not exist. -/
structure Gathered (n : Nat) (x : System) : Prop where
  reachable : Reachable x
  length : x.sessions.length = n
  sessions : ∀ k, k < n → ∃ session, x.sessions[k]? = some session
    ∧ session.pc = .inserting crowdRoom false
  active : ∀ i, (x.server.clients i).active = decide (i.val < n)
  usernames : ∀ i, i.val < n → (x.server.clients i).username = crowdName i.val
  records : ∀ i, (x.server.clients i).previouslyJoinedRooms = []
  rooms : x.server.rooms = initial.server.rooms
  descriptors : ∀ fd : Int, n ≤ fd → x.descriptors fd = none

theorem gathered_initial :
  Gathered 0 initial
  where
  reachable := .refl
  length := rfl
  sessions := by simp
  active := by simp [initial, Server.initial]
  usernames := by simp
  records := by simp [initial, Server.initial]
  rooms := rfl
  descriptors := fun _ _ => rfl

theorem crowdName_valid {n : Nat} (hn : n < 16) :
  isValidUsername (crowdName n) = true
  := by
  have hlength : ¬ (crowdName n).length > MAX_USERNAME_LEN := by
    rw [crowdName, List.length_replicate]
    exact not_lt.mpr hn
  have hne : ¬ (crowdName n).length = 0 := by
    rw [crowdName, List.length_replicate]
    exact Nat.succ_ne_zero n
  have hall : (crowdName n).all Char.isAlphanum = true := by
    rw [crowdName, List.all_replicate]
    rfl
  rw [isValidUsername, decide_eq_false hlength, decide_eq_false hne, hall]
  rfl

/-- The next client is put into the first free entry. -/
theorem Gathered.connects {n : Nat} (h : Gathered n x) {i : Slot} (hin : i.val = n) :
  ∃ s, x.server.connect n = some (i, s)
    ∧ s.clients i = ⟨n, [], [], [], true, (x.server.clients i).receivedFiles⟩
    ∧ (∀ j, j ≠ i → s.clients j = x.server.clients j) ∧ s.rooms = x.server.rooms
  := by
  have hfind : (List.finRange MAX_CLIENTS).find? (fun i => !(x.server.clients i).active)
      = some i := by
    apply Table.find_first
    · simp [h.active, hin]
    · intro j hj
      have hjn : j.val < n := by rw [← hin]; exact hj
      simp [h.active, hjn]
  refine ⟨{ x.server.setClient i ⟨n, [], [], (x.server.clients i).previouslyJoinedRooms, true,
    (x.server.clients i).receivedFiles⟩ with clientCount := x.server.clientCount + 1 }, ?_, ?_, ?_,
    rfl⟩
  · simp only [connect, hfind]
  · simp [setClient, h.records]
  · intro j hj
    simp [setClient, hj]

/-- Its name is free. -/
theorem Gathered.usernameTaken {n : Nat} (h : Gathered n x) {i : Slot} (hin : i.val = n)
    {s : Server} (hclient : (s.clients i).username = [])
    (hclients : ∀ j, j ≠ i → s.clients j = x.server.clients j) :
  s.usernameTaken (crowdName n) = false
  := by
  rw [Server.usernameTaken, List.any_eq_false]
  intro j _
  rcases eq_or_ne j i with rfl | hj
  · simp [hclient, crowdName]
  · rw [hclients j hj, h.active]
    rcases lt_or_ge j.val n with hjn | hjn
    · simp [h.usernames j hjn, crowdName, hjn, hjn.ne]
    · simp [hjn]

/-- A client in no room passes the check of a room that does not exist. -/
theorem checked {sessions : List Session} {descriptors : Int → Option Nat} {i : Slot} {n : Nat}
    {s : Server} (h : Reachable ⟨s, sessions ++ [⟨i, .loop, n, 0⟩], descriptors⟩)
    (hactive : (s.clients i).active = true) (hcurrent : (s.clients i).currentRoom = [])
    (hrecords : (s.clients i).previouslyJoinedRooms = []) (hroom : s.findRoom crowdRoom = none) :
  Reachable ⟨s, sessions ++ [⟨i, .inserting crowdRoom false, n, 0⟩], descriptors⟩
  := by
  have hfull : s.roomIsFull crowdRoom = false := by rw [roomIsFull, hroom]
  have hrecord : s.rejoining i crowdRoom = false := by rw [rejoining, hrecords]; rfl
  have hjoin : Handles i s .waiting s (.joining crowdRoom) none := .join rfl
  have hchecking := ((h.last (.active hactive)).last hjoin).last
    (.elsewhere (by rw [hcurrent]; decide))
  have hlooked := (hchecking.last (.notFull hfull)).last .looked
  rw [hrecord] at hlooked
  exact hlooked.last (.wasInNoRoom (by rw [hcurrent]; decide))

/-- The clients with the next one. -/
theorem Gathered.grow {n : Nat} (h : Gathered n x) {i : Slot} (hin : i.val = n) {s : Server}
    (hreach : Reachable ⟨s, x.sessions ++ [⟨i, .inserting crowdRoom false, n, 0⟩],
      Function.update x.descriptors n (some x.sessions.length)⟩) {files : List Text}
    (hclient : s.clients i = ⟨n, crowdName n, [], [], true, files⟩)
    (hclients : ∀ j, j ≠ i → s.clients j = x.server.clients j)
    (hrooms : s.rooms = initial.server.rooms) :
  Gathered (n + 1) ⟨s, x.sessions ++ [⟨i, .inserting crowdRoom false, n, 0⟩],
    Function.update x.descriptors n (some x.sessions.length)⟩
  where
  reachable := hreach
  length := by simp [h.length]
  sessions := by
    intro k hk
    rcases Nat.lt_succ_iff_lt_or_eq.mp hk with hk | rfl
    · obtain ⟨session, hget, hpc⟩ := h.sessions k hk
      use session
      refine ⟨?_, hpc⟩
      rw [List.getElem?_append_left (by rw [h.length]; exact hk), hget]
    · refine ⟨⟨i, .inserting crowdRoom false, k, 0⟩, ?_, rfl⟩
      simp [← h.length]
  active := by
    intro j
    dsimp only
    rcases eq_or_ne j i with rfl | hj
    · simp [hclient, hin]
    · have hjn : j.val ≠ n := fun hjn => hj (Fin.ext (hjn.trans hin.symm))
      rw [hclients j hj, h.active]
      simp only [decide_eq_decide]
      omega
  usernames := by
    intro j hj
    dsimp only at hj ⊢
    rcases eq_or_ne j i with rfl | hne
    · rw [hclient, hin]
    · have hjn : j.val ≠ n := fun hjn => hne (Fin.ext (hjn.trans hin.symm))
      rw [hclients j hne]
      apply h.usernames j (by omega)
  records := by
    intro j
    dsimp only
    rcases eq_or_ne j i with rfl | hj
    · rw [hclient]
    · rw [hclients j hj, h.records]
  rooms := hrooms
  descriptors := by
    intro fd hfd
    have hne : fd ≠ n := by omega
    dsimp only
    rw [Function.update_of_ne hne]
    apply h.descriptors fd (by omega)

/-- One more client connects, logs in and passes the check. -/
theorem Gathered.next {n : Nat} (h : Gathered n x) (hn : n < 16) :
  ∃ x', Gathered (n + 1) x'
  := by
  generalize hi : (⟨n, hn.trans (by decide)⟩ : Slot) = i
  have hin : i.val = n := by rw [← hi]
  obtain ⟨s, hconnect, hclient, hclients, hrooms⟩ := h.connects hin
  have haccept : Reachable ⟨s, x.sessions ++ [⟨i, .login, n, 0⟩],
      Function.update x.descriptors n (some x.sessions.length)⟩ :=
    h.reachable.tail (.inl (.of (h.descriptors n le_rfl) hconnect (.inl rfl)))
  have htaken := h.usernameTaken hin (by rw [hclient]) hclients
  have hlogin : (s.login i (crowdName n)).1
      = s.setClient i { s.clients i with username := crowdName n } := by
    simp [Server.login, crowdName_valid hn, htaken]
  have hloop := (haccept.last (.loginValid (crowdName_valid hn))).last (.accepted htaken)
  rw [hlogin] at hloop
  generalize hs' : s.setClient i { s.clients i with username := crowdName n } = s' at hloop
  have hclient' : s'.clients i
      = ⟨n, crowdName n, [], [], true, (x.server.clients i).receivedFiles⟩ := by
    simp [← hs', setClient, hclient]
  have hclients' : ∀ j, j ≠ i → s'.clients j = x.server.clients j := by
    intro j hj
    simp [← hs', setClient, hj, hclients]
  have hrooms' : s'.rooms = initial.server.rooms := by
    rw [← hs', ← h.rooms, ← hrooms]
    rfl
  refine ⟨_, h.grow hin (checked hloop ?_ ?_ ?_ ?_) hclient' hclients' hrooms'⟩
  · rw [hclient']
  · rw [hclient']
  · rw [hclient']
  · rw [findRoom, hrooms']
    rfl

theorem gathered {n : Nat} (hn : n ≤ 16) :
  ∃ x, Gathered n x
  := by
  induction n with
  | zero => exact ⟨_, gathered_initial⟩
  | succ n ih =>
      obtain ⟨x, hx⟩ := ih (by omega)
      apply hx.next (by omega)

/-- A client that finds the room, or room for it, joins. -/
theorem joinRegion_some {s : Server} {room : Text} (i : Slot) (rejoining : Bool)
    (h : s.findRoom room = none → ∃ r, (s.rooms r).active = false) :
  ∃ s' sockets, s.joinRegion i room rejoining = some (s', sockets)
  := by
  simp only [joinRegion]
  cases hf : s.findRoom room with
  | some r => exact ⟨_, _, rfl⟩
  | none =>
      simp only [createRoom]
      cases hfree : (List.finRange MAX_ROOMS).find? fun r => !(s.rooms r).active with
      | some r => exact ⟨_, _, rfl⟩
      | none =>
          obtain ⟨r, hr⟩ := h hf
          have hr' := Table.of_not_find hfree r
          rw [hr] at hr'
          cases hr'

/-- The first `n` of the crowd have joined the room, and the others are about to. -/
structure Crowded (n : Nat) (x : System) : Prop where
  reachable : Reachable x
  table : RoomTable x.server
  occupants : x.server.occupants crowdRoom = n
  only : ∀ r, (x.server.rooms r).active = true → (x.server.rooms r).name = crowdRoom
  sessions : ∀ k, n ≤ k → k < 16 → ∃ session, x.sessions[k]? = some session
    ∧ session.pc = .inserting crowdRoom false

theorem Gathered.crowded (h : Gathered 16 x) :
  Crowded 0 x
  where
  reachable := h.reachable
  table := by
    constructor
    · intro r r' hr
      rw [h.rooms] at hr
      cases hr
    · intro r _
      rw [h.rooms]
      rfl
  occupants := by
    apply occupants_of_none
    intro r hr
    rw [h.rooms] at hr
    cases hr
  only := by
    intro r hr
    rw [h.rooms] at hr
    cases hr
  sessions := fun k _ hk => h.sessions k hk

/-- The next one joins. -/
theorem Crowded.next {n : Nat} (h : Crowded n x) (hn : n < 16) :
  ∃ x', Crowded (n + 1) x'
  := by
  obtain ⟨⟨i, pc, socket, closings⟩, hk, hpc⟩ := h.sessions n le_rfl hn
  dsimp only at hpc
  rw [hpc] at hk
  have hspace : x.server.findRoom crowdRoom = none → ∃ r, (x.server.rooms r).active = false := by
    intro hnone
    use 0
    rw [← Bool.not_eq_true]
    intro hr
    apply of_not_findRoom hnone 0 hr (h.only 0 hr)
  obtain ⟨s', sockets, hj⟩ := joinRegion_some i false hspace
  obtain ⟨r, hjoined⟩ := joined_joinRegion hj
  obtain ⟨htable, hroom, -⟩ := hjoined.toAdmitted.occupants h.table
  refine ⟨_, h.reachable.tail (.inr ⟨n, .of hk (.inserted hj)⟩), htable, ?_, ?_, ?_⟩
  · rw [hroom, h.occupants]
  · intro r' hr'
    dsimp only at hr' ⊢
    rcases eq_or_ne r' r with rfl | hne
    · apply hjoined.roomName
    · rw [hjoined.rooms r' hne] at hr' ⊢
      apply h.only r' hr'
  · intro k hnk hk16
    dsimp only
    rw [List.getElem?_set_ne (by omega)]
    apply h.sessions k (by omega) hk16

theorem crowded {n : Nat} (hn : n ≤ 16) :
  ∃ x, Crowded n x
  := by
  induction n with
  | zero =>
      obtain ⟨x, hx⟩ := gathered le_rfl
      exact ⟨x, hx.crowded⟩
  | succ n ih =>
      obtain ⟨x, hx⟩ := ih (by omega)
      apply hx.next (by omega)

/-- Sixteen clients that all pass the check before any of them joins are all in the room. -/
theorem room_beyond_capacity :
  ¬ ∀ x, Reachable x → ∀ r, (x.server.rooms r).users.length ≤ MAX_USERS_PER_ROOM
  := by
  intro hall
  obtain ⟨x, hx⟩ := crowded le_rfl
  have hcount := hx.occupants
  cases hf : x.server.findRoom crowdRoom with
  | none =>
      rw [occupants, hf] at hcount
      cases hcount
  | some r =>
      rw [occupants, hf] at hcount
      have hle := hall x hx.reachable r
      dsimp only at hcount
      rw [hcount] at hle
      exact absurd hle (by decide)

end System

end ChatServer
