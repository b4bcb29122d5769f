import Homeworks.ChatServer.Membership
import Homeworks.Transition.Runs

/-!
# Rejoining a room

When a client joins a room the others are told whether it joins or rejoins it.  The record
this is decided by belongs to the entry of the client: it is kept when the entry is given
to another client, and it holds fifty rooms at most.
-/

open Transition

namespace ChatServer

/-- What is observed in a run: a session begins in an entry, or a room is joined, announced
as rejoined or not. -/
inductive Event where
  | opened (i : Slot)
  | joined (i : Slot) (room : Text) (rejoined : Bool)
  deriving DecidableEq

/-! ### Histories -/

/-- The rooms joined in an entry since the server was started. -/
def slotRooms (i : Slot) (history : List Event) : List Text :=
  history.filterMap fun
    | .joined j room _ => if j = i then some room else none
    | .opened _ => none

/-- The rooms joined in an entry since the last session began in it. -/
def sessionRooms (i : Slot) (history : List Event) : List Text :=
  history.foldl (fun rooms event =>
    match event with
    | .opened j => if j = i then [] else rooms
    | .joined j room _ => if j = i then rooms ++ [room] else rooms) []

/-- The first fifty different rooms joined in an entry since the server was started. -/
def firstRooms (i : Slot) (history : List Event) : List Text :=
  (slotRooms i history).eraseDups.take MAX_ROOMS

theorem firstRooms_append (i : Slot) (history : List Event) (room : Text) (rejoined : Bool) :
  firstRooms i (history ++ [.joined i room rejoined])
    = ((slotRooms i history).eraseDups
        ++ if room ∈ slotRooms i history then [] else [room]).take MAX_ROOMS
  := by
  have hrooms : slotRooms i (history ++ [.joined i room rejoined])
      = slotRooms i history ++ [room] := by simp [slotRooms]
  rw [firstRooms, hrooms, List.eraseDups_append]
  by_cases hmem : room ∈ slotRooms i history
  · have hold : [room].removeAll (slotRooms i history) = [] := by simp [List.removeAll, hmem]
    rw [hold, if_pos hmem, List.eraseDups_nil]
  · have hnew : [room].removeAll (slotRooms i history) = [room] := by simp [List.removeAll, hmem]
    rw [hnew, if_neg hmem]
    rfl

/-- While there are fewer than fifty, a room that is joined and is not one of them is added
to the first rooms. -/
theorem firstRooms_new {i : Slot} {history : List Event} {room : Text} (rejoined : Bool)
    (hnot : room ∉ firstRooms i history) (hlt : (firstRooms i history).length < MAX_ROOMS) :
  firstRooms i (history ++ [.joined i room rejoined]) = firstRooms i history ++ [room]
  := by
  have hlength : (slotRooms i history).eraseDups.length < MAX_ROOMS := by
    rw [firstRooms, List.length_take] at hlt
    omega
  have hfirst : firstRooms i history = (slotRooms i history).eraseDups :=
    List.take_of_length_le hlength.le
  rw [hfirst] at hnot ⊢
  rw [firstRooms_append, if_neg fun h => hnot (List.mem_eraseDups.mpr h),
    List.take_of_length_le]
  rw [List.length_append]
  apply hlength

/-- Otherwise they stay the same. -/
theorem firstRooms_old {i : Slot} {history : List Event} {room : Text} (rejoined : Bool)
    (h : room ∈ firstRooms i history ∨ MAX_ROOMS ≤ (firstRooms i history).length) :
  firstRooms i (history ++ [.joined i room rejoined]) = firstRooms i history
  := by
  rw [firstRooms_append]
  split
  · rw [List.append_nil]
    rfl
  · rename_i hmem
    obtain h | h := h
    · exact absurd (List.mem_eraseDups.mp (List.mem_of_mem_take h)) hmem
    · rw [firstRooms, List.length_take] at h
      apply List.take_append_of_le_length
      omega

theorem firstRooms_other {i j : Slot} (hne : j ≠ i) (history : List Event) (room : Text)
    (rejoined : Bool) :
  firstRooms i (history ++ [.joined j room rejoined]) = firstRooms i history
  := by
  simp [firstRooms, slotRooms, hne]

theorem firstRooms_opened (i j : Slot) (history : List Event) :
  firstRooms i (history ++ [.opened j]) = firstRooms i history
  := by
  simp [firstRooms, slotRooms]

/-! ### The record of an entry -/

namespace Server

variable {s s' : Server} {i : Slot}

/-- No record of `s` has changed in `s'`. -/
def SameRecords (s s' : Server) : Prop :=
  ∀ j, (s'.clients j).previouslyJoinedRooms = (s.clients j).previouslyJoinedRooms

theorem SameRecords.refl (s : Server) : SameRecords s s := fun _ => rfl

theorem SameRecords.trans {s s' s'' : Server} (h : SameRecords s s') (h' : SameRecords s' s'') :
  SameRecords s s''
  := fun j => (h' j).trans (h j)

theorem sameRecords_of_clients (c : Client) (hc : s'.clients = Function.update s.clients i c)
    (h : c.previouslyJoinedRooms = (s.clients i).previouslyJoinedRooms) :
  SameRecords s s'
  := by
  intro j
  rcases eq_or_ne j i with rfl | hne
  · rw [hc, Function.update_self, h]
  · rw [hc, Function.update_of_ne hne]

theorem sameRecords_leaveRoom (s : Server) (i : Slot) :
  SameRecords s (s.leaveRoom i).1
  := sameRecords_of_clients _ (s.leaveRoom_clients i) rfl

theorem sameRecords_leaveRoomIf (s : Server) (i : Slot) :
  SameRecords s (if (s.clients i).currentRoom.length > 0 then s.leaveRoom i else (s, [])).1
  := by
  split
  · apply sameRecords_leaveRoom
  · apply SameRecords.refl

theorem sameRecords_connect {socket : Int} (h : s.connect socket = some (i, s')) :
  SameRecords s s'
  := by
  unfold connect at h
  split at h
  · cases h
  · cases h
    exact sameRecords_of_clients _ rfl rfl

theorem sameRecords_login (s : Server) (i : Slot) (buffer : Text) :
  SameRecords s (s.login i buffer).1
  := by
  unfold login
  split
  · apply SameRecords.refl
  · split
    · apply SameRecords.refl
    · exact sameRecords_of_clients _ rfl rfl

theorem sameRecords_leave (s : Server) (i : Slot) :
  SameRecords s (s.leave i).1
  := by
  unfold leave
  split
  · apply SameRecords.refl
  · apply sameRecords_leaveRoom

theorem sameRecords_cleanupClient (s : Server) (i : Slot) :
  SameRecords s (s.cleanupClient i).1
  := by
  unfold cleanupClient
  split
  · apply SameRecords.refl
  · apply (s.sameRecords_leaveRoomIf i).trans
    exact sameRecords_of_clients _ rfl rfl

/-- A room that is joined is recorded unless this is so already or there is no space. -/
theorem joinRegion_records {name : Text} {rejoining : Bool} {sockets : List (Option Int)}
    (hn : name.length ≤ MAX_ROOM_NAME_LEN)
    (h : s.joinRegion i name rejoining = some (s', sockets)) :
  (∀ j, j ≠ i → (s'.clients j).previouslyJoinedRooms = (s.clients j).previouslyJoinedRooms)
    ∧ (s'.clients i).previouslyJoinedRooms
      = if rejoining = false ∧ (s.clients i).previouslyJoinedRooms.length < MAX_ROOMS then
          (s.clients i).previouslyJoinedRooms ++ [name]
        else
          (s.clients i).previouslyJoinedRooms
  := by
  have htake : name.take MAX_ROOM_NAME_LEN = name := List.take_of_length_le hn
  have hadd : ∀ (s : Server) (r : Fin MAX_ROOMS),
      (∀ j, j ≠ i → ((s.addUser i r name rejoining).clients j).previouslyJoinedRooms
        = (s.clients j).previouslyJoinedRooms)
      ∧ ((s.addUser i r name rejoining).clients i).previouslyJoinedRooms
        = if rejoining = false ∧ (s.clients i).previouslyJoinedRooms.length < MAX_ROOMS then
            (s.clients i).previouslyJoinedRooms ++ [name]
          else
            (s.clients i).previouslyJoinedRooms := by
    intro s r
    constructor
    · intro j hne
      simp [addUser, setClient, setRoom, hne]
    · simp [addUser, setClient, setRoom, htake]
  simp only [joinRegion] at h
  cases hf : s.findRoom name with
  | some r =>
      rw [hf] at h
      cases h
      apply hadd
  | none =>
      rw [hf] at h
      dsimp only at h
      cases hc : s.createRoom name with
      | none =>
          rw [hc] at h
          cases h
      | some p =>
          obtain ⟨r, s₁⟩ := p
          rw [hc] at h
          cases h
          rw [← createRoom_clients hc]
          apply hadd

/-! ### Runs -/

/-- What is observed of the command `/join`: a room that is joined. -/
def joinEvents (s : Server) (i : Slot) (name : Text) : List Event :=
  if isValidRoomName name ∧ (s.clients i).currentRoom ≠ name ∧ s.roomIsFull name = false
      ∧ (s.joinRoom i name).1 then
    [.joined i name (s.rejoining i name)]
  else
    []

/-- A handler runs to completion, with what is observed. -/
inductive Observed (s : Server) : List Event → Server → Prop where
  | connect {i : Slot} {s' : Server} {socket : Int} (h : s.connect socket = some (i, s')) :
    Observed s [.opened i] s'
  | login (i : Slot) (buffer : Text) (ha : (s.clients i).active = true)
      (hu : (s.clients i).username = []) : Observed s [] (s.login i buffer).1
  | join (i : Slot) (name : Text) (ha : (s.clients i).active = true)
      (hu : (s.clients i).username ≠ []) : Observed s (s.joinEvents i name) (s.join i name).1
  | leave (i : Slot) (ha : (s.clients i).active = true) (hu : (s.clients i).username ≠ []) :
    Observed s [] (s.leave i).1
  | exit (i : Slot) (ha : (s.clients i).active = true) (hu : (s.clients i).username ≠ []) :
    Observed s [] (s.exit i).1
  | disconnect (i : Slot) (ha : (s.clients i).active = true) : Observed s [] (s.disconnect i).1

/-- The runs that are observed are those of the server. -/
theorem observed_iff_step :
  (∃ events, Observed s events s') ↔ Step s s'
  := by
  constructor
  · rintro ⟨events, h⟩
    cases h with
    | connect h => apply Step.connect h
    | login i buffer ha hu => apply Step.login i buffer ha hu
    | join i name ha hu => apply Step.join i name ha hu
    | leave i ha hu => apply Step.leave i ha hu
    | exit i ha hu => apply Step.exit i ha hu
    | disconnect i ha => apply Step.disconnect i ha
  · intro h
    cases h with
    | connect h => exact ⟨_, .connect h⟩
    | login i buffer ha hu => exact ⟨_, .login i buffer ha hu⟩
    | join i name ha hu => exact ⟨_, .join i name ha hu⟩
    | leave i ha hu => exact ⟨_, .leave i ha hu⟩
    | exit i ha hu => exact ⟨_, .exit i ha hu⟩
    | disconnect i ha => exact ⟨_, .disconnect i ha⟩

theorem leaveRoom_sent (s : Server) (i : Slot) :
  ∀ sent ∈ (s.leaveRoom i).2, ∃ user room, sent.2 = .userLeft user room
  := by
  intro sent h
  simp only [leaveRoom, List.mem_map] at h
  obtain ⟨socket, -, rfl⟩ := h
  exact ⟨_, _, rfl⟩

/-- The notices that the command `/join` sends agree with what is observed. -/
theorem join_notices {name : Text} {sent : Sent} (h : sent ∈ (s.join i name).2) :
  (∀ user room, sent.2 = .userRejoined user room →
      s.joinEvents i name = [.joined i name true] ∧ room = name)
    ∧ (∀ user room, sent.2 = .userJoined user room →
      s.joinEvents i name = [.joined i name false] ∧ room = name)
  := by
  have hleave : ∀ sent ∈
      (if (s.clients i).currentRoom.length > 0 then s.leaveRoom i else (s, [])).2,
      ∃ user room, sent.2 = .userLeft user room := by
    split
    · apply leaveRoom_sent
    · intro sent h
      cases h
  unfold join at h
  split_ifs at h with hvalid hcurrent hfull
  · simp [List.mem_singleton.mp h, send]
  · simp [List.mem_singleton.mp h, send]
  · simp [List.mem_singleton.mp h, send]
  · simp only [joinRoom] at h
    generalize hg : (if (s.clients i).currentRoom.length > 0 then s.leaveRoom i else (s, []))
      = g at h hleave
    cases hj : g.1.joinRegion i name (s.rejoining i name) with
    | none =>
        simp only [hj, List.mem_append, List.mem_singleton] at h
        obtain h | rfl := h
        · obtain ⟨user, room, hu⟩ := hleave sent h
          simp [hu]
        · simp [send]
    | some p =>
        have hevents : s.joinEvents i name = [.joined i name (s.rejoining i name)] := by
          rw [joinEvents, if_pos]
          refine ⟨by simpa using hvalid, hcurrent, by simpa using hfull, ?_⟩
          simp only [joinRoom, hg, hj]
        simp only [hj, List.mem_append, List.mem_singleton, List.mem_map] at h
        obtain (h | ⟨socket, -, rfl⟩) | rfl := h
        · obtain ⟨user, room, hu⟩ := hleave sent h
          simp [hu]
        · rw [hevents]
          cases s.rejoining i name with
          | false => simp +contextual
          | true => simp +contextual
        · simp [send]

/-- The command `/join` is rejected, or it has the client join the room. -/
theorem join_cases (s : Server) (i : Slot) (name : Text) :
  (s.joinEvents i name = [] ∧ (s.join i name).1 = s)
    ∨ (isValidRoomName name = true ∧ (s.join i name).1 = (s.joinRoom i name).2.1
      ∧ s.joinEvents i name
        = if (s.joinRoom i name).1 then [.joined i name (s.rejoining i name)] else [])
  := by
  unfold join joinEvents
  by_cases hvalid : isValidRoomName name = true
  · by_cases hcurrent : (s.clients i).currentRoom = name
    · left
      simp [hvalid, hcurrent]
    · cases hfull : s.roomIsFull name with
      | true =>
          left
          simp [hvalid, hcurrent]
      | false =>
          right
          refine ⟨hvalid, ?_, by simp [hvalid, hcurrent]⟩
          simp only [hvalid, hcurrent, Bool.not_true, Bool.false_eq_true, if_false]
          generalize s.joinRoom i name = result
          obtain ⟨done, s', sent⟩ := result
          cases done with
          | false => rfl
          | true => rfl
  · left
    simp [hvalid]

/-- A client that joins a room has left the one it was in. -/
theorem joinRoom_cases (s : Server) (i : Slot) (name : Text) :
  ∃ s₁, SameRecords s s₁ ∧
    ((∃ sent, s.joinRoom i name = (false, s₁, sent))
      ∨ ∃ s₂ sent sockets, s.joinRoom i name = (true, s₂, sent)
        ∧ s₁.joinRegion i name (s.rejoining i name) = some (s₂, sockets))
  := by
  have hleave := s.sameRecords_leaveRoomIf i
  simp only [joinRoom]
  generalize (if (s.clients i).currentRoom.length > 0 then s.leaveRoom i else (s, [])) = g
    at hleave
  use g.1, hleave
  cases hj : g.1.joinRegion i name (s.rejoining i name) with
  | none =>
      left
      exact ⟨_, rfl⟩
  | some p =>
      right
      exact ⟨_, _, _, rfl, rfl⟩

/-- The command `/join` records what is observed. -/
theorem join_records (s : Server) (i : Slot) (name : Text) :
  (s.joinEvents i name = [] ∧ SameRecords s (s.join i name).1)
    ∨ (s.joinEvents i name = [.joined i name (s.rejoining i name)]
      ∧ (∀ j, j ≠ i → ((s.join i name).1.clients j).previouslyJoinedRooms
        = (s.clients j).previouslyJoinedRooms)
      ∧ ((s.join i name).1.clients i).previouslyJoinedRooms
        = if s.rejoining i name = false
            ∧ (s.clients i).previouslyJoinedRooms.length < MAX_ROOMS then
            (s.clients i).previouslyJoinedRooms ++ [name]
          else
            (s.clients i).previouslyJoinedRooms)
  := by
  obtain ⟨hevents, hs⟩ | ⟨hvalid, hs, hevents⟩ := s.join_cases i name
  · left
    rw [hs]
    exact ⟨hevents, .refl s⟩
  · rw [hevents, hs]
    obtain ⟨s₁, hsame, ⟨sent, hroom⟩ | ⟨s₂, sent, sockets, hroom, hj⟩⟩ := s.joinRoom_cases i name
    · left
      rw [hroom]
      exact ⟨rfl, hsame⟩
    · right
      obtain ⟨hother, hrecord⟩ := joinRegion_records (of_isValidRoomName hvalid).2 hj
      rw [hroom]
      refine ⟨rfl, fun j hne => (hother j hne).trans (hsame j), ?_⟩
      rw [hsame i] at hrecord
      apply hrecord

/-- The records are the first fifty different rooms joined in the entries. -/
def Recorded (s : Server) (history : List Event) : Prop :=
  ∀ i, (s.clients i).previouslyJoinedRooms = firstRooms i history

/-- Every notice agrees with the rooms in the record. -/
def Noticed (history : List Event) : Prop :=
  ∀ before i room rejoined after, history = before ++ .joined i room rejoined :: after →
    (rejoined = true ↔ room ∈ firstRooms i before)

theorem Recorded.rejoining_iff {history : List Event} (h : Recorded s history) (name : Text) :
  s.rejoining i name = true ↔ name ∈ firstRooms i history
  := by
  simp only [rejoining, h i, List.any_eq_true, decide_eq_true_eq, exists_eq_right]

theorem Recorded.same {history : List Event} (h : Recorded s history) (hs : SameRecords s s') :
  Recorded s' history
  := fun j => (hs j).trans (h j)

/-- A room that is joined is recorded. -/
theorem Recorded.join {history : List Event} (h : Recorded s history) (i : Slot) (name : Text) :
  Recorded (s.join i name).1 (history ++ s.joinEvents i name)
  := by
  obtain ⟨hevents, hsame⟩ | ⟨hevents, hother, hrecord⟩ := s.join_records i name
  · rw [hevents, List.append_nil]
    apply h.same hsame
  · rw [hevents]
    intro j
    rcases eq_or_ne j i with rfl | hne
    · rw [hrecord, h j]
      split
      · rename_i hnew
        rw [firstRooms_new _ _ hnew.2]
        rw [← h.rejoining_iff, hnew.1]
        exact Bool.false_ne_true
      · rename_i hold
        rw [firstRooms_old]
        rw [← h.rejoining_iff]
        cases hr : s.rejoining j name with
        | true => exact .inl rfl
        | false => exact .inr (Nat.not_lt.mp fun hlt => hold ⟨hr, hlt⟩)
    · rw [hother j hne, h j, firstRooms_other hne.symm]

/-- The last notice of a history agrees with the record, and so do the others. -/
theorem Noticed.append {history : List Event} (h : Noticed history) (event : Event)
    (he : ∀ i room rejoined, event = .joined i room rejoined →
      (rejoined = true ↔ room ∈ firstRooms i history)) :
  Noticed (history ++ [event])
  := by
  intro before i room rejoined after hsplit
  rcases after.eq_nil_or_concat with rfl | ⟨after, last, rfl⟩
  · obtain ⟨rfl, hevent⟩ := List.append_inj' hsplit rfl
    apply he i room rejoined (List.singleton_inj.mp hevent)
  · have hsplit' : history ++ [event] = (before ++ .joined i room rejoined :: after) ++ [last] := by
      rw [hsplit]
      simp
    obtain ⟨hhistory, -⟩ := List.append_inj' hsplit' rfl
    apply h before i room rejoined after hhistory

theorem noticed_step {history events : List Event} (h : Recorded s history ∧ Noticed history)
    (hstep : Observed s events s') :
  Recorded s' (history ++ events) ∧ Noticed (history ++ events)
  := by
  obtain ⟨hrec, hnot⟩ := h
  cases hstep with
  | @connect i s' socket hc =>
      constructor
      · intro j
        rw [sameRecords_connect hc j, hrec j, firstRooms_opened]
      · apply hnot.append
        rintro i room rejoined ⟨⟩
  | join i name =>
      refine ⟨hrec.join i name, ?_⟩
      obtain ⟨hevents, -⟩ | ⟨hevents, -⟩ := s.join_records i name
      · rw [hevents, List.append_nil]
        apply hnot
      · rw [hevents]
        apply hnot.append
        rintro j room rejoined ⟨⟩
        apply hrec.rejoining_iff
  | login i buffer =>
      rw [List.append_nil]
      exact ⟨hrec.same (s.sameRecords_login i buffer), hnot⟩
  | leave i =>
      rw [List.append_nil]
      exact ⟨hrec.same (s.sameRecords_leave i), hnot⟩
  | exit i =>
      rw [List.append_nil]
      exact ⟨hrec.same (s.sameRecords_cleanupClient i), hnot⟩
  | disconnect i =>
      rw [List.append_nil]
      exact ⟨hrec.same ((s.sameRecords_cleanupClient i).trans (sameRecords_cleanupClient _ i)),
        hnot⟩

/-- Over every run the notices agree with the first fifty rooms joined in the entry. -/
theorem noticed_trace {history : List Event} (h : Trace Observed initial history s) :
  Noticed history
  := by
  have hinv : Recorded s history ∧ Noticed history := by
    apply h.invariant (I := fun s history => Recorded s history ∧ Noticed history)
    · intro s l l' s' hs hstep
      apply noticed_step hs hstep
    · constructor
      · intro i
        rfl
      · intro before i room rejoined after hnil
        cases before <;> cases hnil
  apply hinv.2

/-- In every run the notices are those of the sessions if and only if a room that a session
joins is among the first fifty joined in its entry exactly if the session has joined it
before. -/
theorem rejoin_notices_iff (s : Server) (history : List Event)
    (h : Trace Observed initial history s) :
  (∀ before i room rejoined after, history = before ++ .joined i room rejoined :: after →
      (rejoined = true ↔ room ∈ sessionRooms i before))
    ↔ (∀ before i room rejoined after, history = before ++ .joined i room rejoined :: after →
      (room ∈ firstRooms i before ↔ room ∈ sessionRooms i before))
  := by
  have hnoticed := noticed_trace h
  constructor
  · intro hall before i room rejoined after hsplit
    rw [← hnoticed before i room rejoined after hsplit]
    apply hall before i room rejoined after hsplit
  · intro hall before i room rejoined after hsplit
    rw [hnoticed before i room rejoined after hsplit]
    apply hall before i room rejoined after hsplit

/-- A client connects, logs in and joins a room. -/
theorem trace_occupied :
  Trace Observed initial [.opened 0, .joined 0 "tea".toList false] occupied
  := by
  have hconnect : Observed initial [.opened 0] connected :=
    @Observed.connect initial 0 connected 4 rfl
  have hlogin : Observed connected [] (connected.login 0 "ada".toList).1 :=
    .login 0 "ada".toList rfl rfl
  have hjoin : Observed (connected.login 0 "ada".toList).1 [.joined 0 "tea".toList false]
    occupied :=
    .join 0 "tea".toList rfl (by decide)
  apply Trace.cons hconnect
  apply Trace.cons hlogin
  apply Trace.single hjoin

theorem rejoin_notices_iff_occupied :
  (∀ before i room rejoined after,
      [.opened 0, .joined 0 "tea".toList false] = before ++ .joined i room rejoined :: after →
      (rejoined = true ↔ room ∈ sessionRooms i before))
    ↔ (∀ before i room rejoined after,
      [.opened 0, .joined 0 "tea".toList false] = before ++ .joined i room rejoined :: after →
      (room ∈ firstRooms i before ↔ room ∈ sessionRooms i before))
  := rejoin_notices_iff occupied _ trace_occupied

/-- The server after the client has disconnected and another one has connected. -/
def reconnected : Server :=
  match (occupied.disconnect 0).1.connect 5 with
  | some (_, s) => s
  | none => occupied

/-- A new client that joins the room a former client of its entry was in is said to rejoin
it. -/
theorem rejoins_without_having_joined :
  ¬ ∀ s history, Trace Observed initial history s →
    ∀ before i room rejoined after, history = before ++ .joined i room rejoined :: after →
      (rejoined = true ↔ room ∈ sessionRooms i before)
  := by
  intro hall
  have hdisconnect : Observed occupied [] (occupied.disconnect 0).1 := .disconnect 0 rfl
  have hconnect : Observed (occupied.disconnect 0).1 [.opened 0] reconnected :=
    @Observed.connect _ 0 reconnected 5 rfl
  have hlogin : Observed reconnected [] (reconnected.login 0 "bob".toList).1 :=
    .login 0 "bob".toList rfl rfl
  have hjoin : Observed (reconnected.login 0 "bob".toList).1 [.joined 0 "tea".toList true]
      ((reconnected.login 0 "bob".toList).1.join 0 "tea".toList).1 :=
    .join 0 "tea".toList rfl (by decide)
  have htrace := trace_occupied.trans
    (.cons hdisconnect (.cons hconnect (.cons hlogin (.single hjoin))))
  have hsession := hall _ _ htrace
    [.opened 0, .joined 0 "tea".toList false, .opened 0] 0 "tea".toList true [] rfl
  exact absurd (hsession.mp rfl) (by decide)

end Server

end ChatServer
