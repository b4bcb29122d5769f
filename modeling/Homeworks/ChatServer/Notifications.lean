import Homeworks.ChatServer.Entries
import Homeworks.ChatServer.Membership
import Mathlib.Data.List.Count

/-!
# Notifications

What the server sends to the members of a room when a client joins it, leaves it, or
broadcasts a message to it.  If different clients have different sockets each of the other
members is sent one message, and nobody else is sent any.
-/

open Relation

namespace ChatServer

namespace Server

/-- The messages that `broadcast_to_room` sends.  The name of the sender that it looks up is
not used. -/
def broadcastToRoom (s : Server) (roomName : Text) (message : Message) (senderSocket : Int) :
    List Sent :=
  match s.findRoom roomName with
  | none => []
  | some r =>
      ((s.rooms r).users.filter fun user => (s.clients user).socket ≠ senderSocket).map
        fun user => s.send user message

/-- The messages that the command `/broadcast` sends. -/
def broadcast (s : Server) (client : Slot) (messageContent : Text) : List Sent :=
  let roomName := (s.clients client).currentRoom
  if roomName.length = 0 then
    [s.send client .notInRoom]
  else
    s.broadcastToRoom roomName (.chatMessage roomName (s.clients client).username messageContent)
        (s.clients client).socket
      ++ [s.send client .messageBroadcasted]

end Server

namespace Message

def isJoinNotice : Message → Bool
  | userJoined _ _ | userRejoined _ _ => true
  | _ => false

def isLeaveNotice : Message → Bool
  | userLeft _ _ => true
  | _ => false

def isChatMessage : Message → Bool
  | chatMessage _ _ _ => true
  | _ => false

end Message

namespace Server

variable {s : Server} {i : Slot} {name : Text} {kind : Message → Bool} {notice : Message}
  {sent other : List Sent} {members members' : Slot → Prop}

/-- Different active clients have different sockets. -/
def DistinctSockets (s : Server) : Prop :=
  ∀ i j, (s.clients i).active = true → (s.clients j).active = true →
    (s.clients i).socket = (s.clients j).socket → i = j

/-- A client is a user of the active room with a name. -/
def InRoom (s : Server) (name : Text) (j : Slot) : Prop :=
  ∃ r, (s.rooms r).active = true ∧ (s.rooms r).name = name ∧ j ∈ (s.rooms r).users

/-- Of the messages of some kind that are sent, every member is sent one, nobody else is
sent any, and all of them are the notice. -/
structure Reaches (s : Server) (sent : List Sent) (kind : Message → Bool) (notice : Message)
    (members : Slot → Prop) : Prop where
  once : ∀ j, members j →
    sent.countP (fun m => m.1 = some (s.clients j).socket ∧ kind m.2 = true) = 1
  only : ∀ m ∈ sent, kind m.2 = true →
    m.2 = notice ∧ ∃ j, members j ∧ m.1 = some (s.clients j).socket

/-- The notice that a client has joined a room. -/
def joinNotice (s : Server) (i : Slot) (name : Text) : Message :=
  if s.rejoining i name then
    .userRejoined (s.clients i).username name
  else
    .userJoined (s.clients i).username name

/-! ### Reaching members -/

theorem Reaches.congr (h : Reaches s sent kind notice members) (hm : ∀ j, members j ↔ members' j) :
  Reaches s sent kind notice members'
  := by
  have heq : members = members' := funext fun j => propext (hm j)
  rwa [← heq]

/-- Messages of other kinds do not matter. -/
theorem Reaches.append (h : Reaches s sent kind notice members)
    (ho : ∀ m ∈ other, kind m.2 = false) :
  Reaches s (sent ++ other) kind notice members
  := by
  constructor
  · intro j hj
    rw [List.countP_append, h.once j hj, List.countP_eq_zero.mpr]
    intro m hm
    simp [ho m hm]
  · intro m hm hkind
    obtain hm | hm := List.mem_append.mp hm
    · exact h.only m hm hkind
    · rw [ho m hm] at hkind
      cases hkind

theorem Reaches.append_left (h : Reaches s sent kind notice members)
    (ho : ∀ m ∈ other, kind m.2 = false) :
  Reaches s (other ++ sent) kind notice members
  := by
  have hswap := h.append ho
  constructor
  · intro j hj
    rw [List.countP_append, Nat.add_comm, ← List.countP_append]
    exact hswap.once j hj
  · intro m hm
    apply hswap.only m
    rw [List.mem_append] at hm ⊢
    exact hm.symm

/-- Each client of a list is sent the notice. -/
theorem reaches_map {users : List Slot} (hd : DistinctSockets s) (hn : users.Nodup)
    (ha : ∀ j ∈ users, (s.clients j).active = true) (hk : kind notice = true) :
  Reaches s (users.map fun j => s.send j notice) kind notice (· ∈ users)
  := by
  constructor
  · intro j hj
    have hsame : users.countP ((fun m : Sent => m.1 = some (s.clients j).socket ∧ kind m.2 = true)
          ∘ fun j => s.send j notice)
        = users.countP (· == j) := by
      apply List.countP_congr
      intro k hk'
      simp only [Function.comp, send, hk, and_true, Option.some.injEq, decide_eq_true_eq,
        beq_iff_eq]
      constructor
      · exact hd k j (ha k hk') (ha j hj)
      · rintro rfl
        rfl
    rw [List.countP_map, hsame]
    exact List.count_eq_one_of_mem hn hj
  · intro m hm _
    obtain ⟨j, hj, rfl⟩ := List.mem_map.mp hm
    exact ⟨rfl, j, hj, rfl⟩

/-- Who is in a room can be read off the clients. -/
theorem Consistent.inRoom_iff (h : Consistent s) (hn : name ≠ []) (j : Slot) :
  s.InRoom name j ↔ (s.clients j).active = true ∧ (s.clients j).currentRoom = name
  := by
  constructor
  · rintro ⟨r, hr, rfl, hj⟩
    exact (h.listed r hr j).mp hj
  · rintro ⟨hj, rfl⟩
    obtain ⟨r, hr, hrn⟩ := h.hosted j hj hn
    exact ⟨r, hr, hrn, (h.listed r hr j).mpr ⟨hj, hrn.symm⟩⟩

/-- The users of a room are those who are in it. -/
theorem Consistent.mem_users (h : Consistent s) {r : Fin MAX_ROOMS}
    (hr : (s.rooms r).active = true) (j : Slot) :
  j ∈ (s.rooms r).users ↔ s.InRoom (s.rooms r).name j
  := by rw [h.inRoom_iff (h.named r hr), h.listed r hr]

theorem Consistent.users_active (h : Consistent s) {r : Fin MAX_ROOMS}
    (hr : (s.rooms r).active = true) :
  ∀ j ∈ (s.rooms r).users, (s.clients j).active = true
  := fun j hj => ((h.listed r hr j).mp hj).1

/-- The notice is sent to each user of a room but one. -/
theorem Consistent.reaches_others (h : Consistent s) (hd : DistinctSockets s) {r : Fin MAX_ROOMS}
    (hr : (s.rooms r).active = true) (i : Slot) (hk : kind notice = true) :
  Reaches s (((s.rooms r).users.filter (· ≠ i)).map fun j => s.send j notice) kind notice
    (fun j => s.InRoom (s.rooms r).name j ∧ j ≠ i)
  := by
  apply (reaches_map hd ((h.nodup r hr).filter _) ?_ hk).congr
  · intro j
    rw [List.mem_filter, h.mem_users hr, decide_eq_true_eq]
  · intro j hj
    exact h.users_active hr j (List.mem_of_mem_filter hj)

/-! ### Leaving -/

/-- The sockets to notify are those of the users that remain. -/
theorem leaveRegion_sockets {r : Fin MAX_ROOMS} (hf : s.findRoom name = some r) (i : Slot) :
  (s.leaveRegion i name).2
    = ((s.rooms r).users.filter (· ≠ i)).map fun j => (s.clients j).socket
  := by
  simp only [leaveRegion, hf, removeUser_all]
  split
  · rfl
  · rfl

/-- A client that leaves its room has the members that remain notified. -/
theorem Consistent.reaches_leaveRoom (h : Consistent s) (hd : DistinctSockets s)
    (ha : (s.clients i).active = true) (hc : (s.clients i).currentRoom ≠ []) :
  Reaches s (s.leaveRoom i).2 Message.isLeaveNotice
    (.userLeft (s.clients i).username (s.clients i).currentRoom)
    (fun j => s.InRoom (s.clients i).currentRoom j ∧ j ≠ i)
  := by
  obtain ⟨r, hr, hn⟩ := h.hosted i ha hc
  have hsent : (s.leaveRoom i).2
      = ((s.rooms r).users.filter (· ≠ i)).map fun j =>
        s.send j (.userLeft (s.clients i).username (s.clients i).currentRoom) := by
    simp only [Server.leaveRoom]
    rw [leaveRegion_sockets (r := r) (by rw [← hn]; exact h.findRoom hr), List.map_map]
    rfl
  have hreaches : Reaches s _ Message.isLeaveNotice
      (.userLeft (s.clients i).username (s.clients i).currentRoom) _ :=
    h.reaches_others hd hr i rfl
  rw [hn] at hreaches
  rw [hsent]
  exact hreaches

/-! ### Joining -/

/-- What the command `/join` does.  It is refused at once, or the client leaves its room and
then joins the other one unless there is no entry for it. -/
theorem join_outcome (s : Server) (i : Slot) (name : Text) :
  ((isValidRoomName name = true → (s.clients i).currentRoom ≠ name → s.roomIsFull name = true)
      ∧ ∃ reply ∈ [Message.invalidRoomName, .alreadyInRoom, .roomIsFull],
        s.join i name = (s, [s.send i reply]))
    ∨ isValidRoomName name = true ∧ (s.clients i).currentRoom ≠ name ∧ s.roomIsFull name = false
      ∧ ∃ s₁ sent, (if (s.clients i).currentRoom.length > 0 then s.leaveRoom i else (s, []))
          = (s₁, sent)
        ∧ (s₁.joinRegion i name (s.rejoining i name) = none
            ∧ s.join i name = (s₁, sent ++ [s₁.send i .invalidRoom])
          ∨ ∃ s₂ sockets, s₁.joinRegion i name (s.rejoining i name) = some (s₂, sockets)
            ∧ s.join i name = (s₂, (sent ++ sockets.map fun socket => (socket, s.joinNotice i name))
              ++ [s₂.send i (.joinRoom name)]))
  := by
  by_cases hvalid : isValidRoomName name = true
  case neg =>
    left
    exact ⟨fun h => absurd h hvalid, .invalidRoomName, by simp, by simp [join, hvalid]⟩
  by_cases hcurrent : (s.clients i).currentRoom = name
  case pos =>
    left
    exact ⟨fun _ h => absurd hcurrent h, .alreadyInRoom, by simp,
      by simp [join, hvalid, hcurrent]⟩
  cases hfull : s.roomIsFull name with
  | true =>
      left
      exact ⟨fun _ _ => rfl, .roomIsFull, by simp, by simp [join, hvalid, hcurrent, hfull]⟩
  | false =>
      right
      refine ⟨hvalid, hcurrent, rfl, ?_⟩
      have husername : ((if (s.clients i).currentRoom.length > 0 then s.leaveRoom i
          else (s, [])).1.clients i).username = (s.clients i).username := by
        split
        · rw [leaveRoom_clients, Function.update_self]
        · rfl
      simp only [join, hvalid, hcurrent, hfull, joinRoom, Bool.not_true, Bool.false_eq_true,
        if_false]
      generalize (if (s.clients i).currentRoom.length > 0 then s.leaveRoom i else (s, [])) = g
        at husername
      obtain ⟨s₁, sent⟩ := g
      refine ⟨s₁, sent, rfl, ?_⟩
      cases hj : s₁.joinRegion i name (s.rejoining i name) with
      | none =>
          left
          exact ⟨rfl, rfl⟩
      | some p =>
          obtain ⟨s₂, sockets⟩ := p
          obtain ⟨r, hjoined⟩ := joined_joinRegion hj
          right
          refine ⟨s₂, sockets, rfl, ?_⟩
          dsimp only at husername
          simp only [joinNotice, hjoined.clientUsername, husername]

/-- The messages of a command that joins are sent to the users of the room that was found or
created, in which the client is the last. -/
theorem joinRegion_sockets {s' : Server} {rejoining : Bool} {sockets : List (Option Int)}
    (h : s.joinRegion i name rejoining = some (s', sockets)) :
  ∃ r users, (s'.rooms r).active = true ∧ (s'.rooms r).name = name
    ∧ (s'.rooms r).users = users ++ [i] ∧ sockets = s'.notified i (users ++ [i])
  := by
  simp only [joinRegion] at h
  cases hf : s.findRoom name with
  | some r =>
      obtain ⟨hr, hname⟩ := of_findRoom hf
      rw [hf] at h
      cases h
      have hroom : ((s.addUser i r name rejoining).rooms r)
          = { s.rooms r with users := (s.rooms r).users ++ [i] } := by
        simp [addUser, setClient, setRoom]
      refine ⟨r, (s.rooms r).users, ?_, ?_, ?_, ?_⟩
      · rw [hroom, hr]
      · rw [hroom, hname]
      · rw [hroom]
      · rw [hroom]
  | none =>
      rw [hf] at h
      simp only [createRoom] at h
      cases hfree : (List.finRange MAX_ROOMS).find? fun r => !(s.rooms r).active with
      | none =>
          rw [hfree] at h
          cases h
      | some r =>
          rw [hfree] at h
          cases h
          refine ⟨r, [], ?_, ?_, ?_, ?_⟩
          all_goals simp [addUser, setClient, setRoom]

/-- The sockets that are notified are those of the other users. -/
theorem notified_append {users : List Slot} (hd : DistinctSockets s)
    (ha : ∀ j ∈ users ++ [i], (s.clients j).active = true) (hi : i ∉ users) :
  s.notified i (users ++ [i]) = users.map fun j => some (s.clients j).socket
  := by
  have hother : ∀ j ∈ users, (s.clients j).socket ≠ (s.clients i).socket := by
    intro j hj heq
    have hji := hd j i (ha j (by simp [hj])) (ha i (by simp)) heq
    exact hi (hji ▸ hj)
  simp only [notified, List.map_append, List.length_append, List.length_singleton,
    Nat.add_sub_cancel]
  rw [List.take_left' (List.length_map _)]
  apply List.map_congr_left
  intro j hj
  rw [if_pos (hother j hj)]

/-- What leaving sends is of one kind. -/
theorem leaveRoomIf_sent {s₁ : Server}
    (hg : (if (s.clients i).currentRoom.length > 0 then s.leaveRoom i else (s, [])) = (s₁, sent)) :
  ∀ m ∈ sent, ∃ user room, m.2 = .userLeft user room
  := by
  intro m hm
  split at hg
  · have hsent : (s.leaveRoom i).2 = sent := by rw [hg]
    rw [← hsent] at hm
    simp only [leaveRoom, List.mem_map] at hm
    obtain ⟨socket, -, rfl⟩ := hm
    exact ⟨_, _, rfl⟩
  · cases hg
    cases hm

/-- A command that is answered with `JOIN_ROOM` has the client join the room. -/
theorem join_succeeds (h : s.send i (.joinRoom name) ∈ (s.join i name).2) :
  ∃ s₁ sent s₂ sockets,
    (if (s.clients i).currentRoom.length > 0 then s.leaveRoom i else (s, [])) = (s₁, sent)
    ∧ s₁.joinRegion i name (s.rejoining i name) = some (s₂, sockets)
    ∧ s.join i name = (s₂, (sent ++ sockets.map fun socket => (socket, s.joinNotice i name))
      ++ [s₂.send i (.joinRoom name)])
  := by
  obtain ⟨-, reply, hreply, hj⟩ | ⟨-, -, -, s₁, sent, hg, ⟨-, hj⟩ | ⟨s₂, sockets, hs₂, hj⟩⟩ :=
    s.join_outcome i name
  · rw [hj, List.mem_singleton] at h
    simp only [send, Prod.mk.injEq, true_and] at h
    rw [← h] at hreply
    simp at hreply
  · rw [hj] at h
    obtain h | h := List.mem_append.mp h
    · obtain ⟨user, room, hu⟩ := leaveRoomIf_sent hg _ h
      simp [send] at hu
    · simp [send] at h
  · exact ⟨s₁, sent, s₂, sockets, hg, hs₂, hj⟩

/-- A client that joins keeps its socket, and the other clients are unchanged. -/
theorem joinRegion_clients {s₁ s₂ : Server} {rejoining : Bool} {sockets : List (Option Int)}
    (hg : (if (s.clients i).currentRoom.length > 0 then s.leaveRoom i else (s, [])) = (s₁, sent))
    (hj : s₁.joinRegion i name rejoining = some (s₂, sockets)) :
  (∀ j, j ≠ i → s₂.clients j = s.clients j)
    ∧ ∀ j, (s₂.clients j).socket = (s.clients j).socket
      ∧ (s₂.clients j).active = (s.clients j).active
  := by
  have hleave : (∀ j, j ≠ i → s₁.clients j = s.clients j)
      ∧ (s₁.clients i).socket = (s.clients i).socket
      ∧ (s₁.clients i).active = (s.clients i).active := by
    split at hg
    · have hs₁ : (s.leaveRoom i).1 = s₁ := by rw [hg]
      rw [← hs₁]
      exact s.leaveRegion_entry i (s.clients i).currentRoom
    · cases hg
      exact ⟨fun _ _ => rfl, rfl, rfl⟩
  obtain ⟨hother, hsocket, hactive⟩ := joinRegion_entry hj
  have hsame : ∀ j, j ≠ i → s₂.clients j = s.clients j := fun j hne =>
    (hother j hne).trans (hleave.1 j hne)
  refine ⟨hsame, fun j => ?_⟩
  rcases eq_or_ne j i with rfl | hne
  · exact ⟨hsocket.trans hleave.2.1, hactive.trans hleave.2.2⟩
  · rw [hsame j hne]
    exact ⟨rfl, rfl⟩

/-- A client that joins a room has the other members notified. -/
theorem Consistent.reaches_join (h : Consistent s) (hd : DistinctSockets s)
    (ha : (s.clients i).active = true) (hjoin : s.send i (.joinRoom name) ∈ (s.join i name).2) :
  Reaches s (s.join i name).2 Message.isJoinNotice (s.joinNotice i name)
    (fun j => s.InRoom name j ∧ j ≠ i)
  := by
  obtain ⟨s₁, sent, s₂, sockets, hg, hs₂, hj⟩ := join_succeeds hjoin
  have hc : Consistent s₂ := by
    have hcj := h.join ha name
    rwa [hj] at hcj
  obtain ⟨hother, hclients⟩ := joinRegion_clients hg hs₂
  obtain ⟨r, users, hr, hn, hu, hsockets⟩ := joinRegion_sockets hs₂
  have hd₂ : DistinctSockets s₂ := by
    intro j k hja hka hsocket
    rw [(hclients j).2] at hja
    rw [(hclients k).2] at hka
    rw [(hclients j).1, (hclients k).1] at hsocket
    exact hd j k hja hka hsocket
  have hnodup := hc.nodup r hr
  rw [hu, List.nodup_append_comm, List.singleton_append, List.nodup_cons] at hnodup
  have hactive : ∀ j ∈ users ++ [i], (s₂.clients j).active = true := by
    rw [← hu]
    exact hc.users_active hr
  have hsent : (sockets.map fun socket => (socket, s.joinNotice i name))
      = users.map fun j => s.send j (s.joinNotice i name) := by
    rw [hsockets, notified_append hd₂ hactive hnodup.1, List.map_map]
    apply List.map_congr_left
    intro j _
    simp [send, (hclients j).1]
  have hmembers : ∀ j, j ∈ users ↔ s.InRoom name j ∧ j ≠ i := by
    intro j
    have hname : name ≠ [] := hn ▸ hc.named r hr
    rcases eq_or_ne j i with rfl | hne
    · simp [hnodup.1]
    · have hmem := hc.mem_users hr j
      rw [hu, hn, hc.inRoom_iff hname, hother j hne, ← h.inRoom_iff hname] at hmem
      simpa [hne] using hmem
  have hkind : (s.joinNotice i name).isJoinNotice = true := by
    unfold joinNotice
    split
    · rfl
    · rfl
  rw [hj, hsent]
  apply Reaches.append
  · apply Reaches.append_left
    · apply (reaches_map hd hnodup.2 ?_ hkind).congr hmembers
      intro j hj'
      rw [← (hclients j).2]
      exact hactive j (List.mem_append_left _ hj')
    · intro m hm
      obtain ⟨user, room, hu'⟩ := leaveRoomIf_sent hg m hm
      rw [hu']
      rfl
  · intro m hm
    rw [List.mem_singleton.mp hm]
    rfl

/-- A client that moves to another room, or fails to, has the members of the room that it
leaves notified. -/
theorem Consistent.reaches_move (h : Consistent s) (hd : DistinctSockets s)
    (ha : (s.clients i).active = true) (hc : (s.clients i).currentRoom ≠ [])
    (hmove : ((s.join i name).1.clients i).currentRoom ≠ (s.clients i).currentRoom) :
  Reaches s (s.join i name).2 Message.isLeaveNotice
    (.userLeft (s.clients i).username (s.clients i).currentRoom)
    (fun j => s.InRoom (s.clients i).currentRoom j ∧ j ≠ i)
  := by
  have hleave := h.reaches_leaveRoom hd ha hc
  have hpos : (s.clients i).currentRoom.length > 0 := List.length_pos_iff.mpr hc
  have hanswer : ∀ (s' : Server) (reply : Message), reply.isLeaveNotice = false →
      ∀ m ∈ [s'.send i reply], m.2.isLeaveNotice = false := by
    intro s' reply hreply m hm
    rw [List.mem_singleton.mp hm]
    exact hreply
  obtain ⟨-, reply, -, hj⟩ | ⟨-, -, -, s₁, sent, hg, ⟨-, hj⟩ | ⟨s₂, sockets, -, hj⟩⟩ :=
    s.join_outcome i name
  · rw [hj] at hmove
    exact absurd rfl hmove
  · rw [if_pos hpos] at hg
    rw [hg] at hleave
    rw [hj]
    exact hleave.append (hanswer s₁ _ rfl)
  · rw [if_pos hpos] at hg
    rw [hg] at hleave
    rw [hj]
    apply Reaches.append
    · apply hleave.append
      intro m hm
      obtain ⟨socket, -, rfl⟩ := List.mem_map.mp hm
      dsimp only [joinNotice]
      split
      · rfl
      · rfl
    · exact hanswer s₂ _ rfl

/-- A client that logs out or is lost has the members of its room notified. -/
theorem Consistent.reaches_cleanupClient (h : Consistent s) (hd : DistinctSockets s)
    (ha : (s.clients i).active = true) (hc : (s.clients i).currentRoom ≠ []) :
  Reaches s (s.cleanupClient i).2 Message.isLeaveNotice
    (.userLeft (s.clients i).username (s.clients i).currentRoom)
    (fun j => s.InRoom (s.clients i).currentRoom j ∧ j ≠ i)
  := by
  have hpos : (s.clients i).currentRoom.length > 0 := List.length_pos_iff.mpr hc
  have hsent : (s.cleanupClient i).2 = (s.leaveRoom i).2 := by
    simp only [Server.cleanupClient, ha, Bool.not_true, Bool.false_eq_true, if_false,
      cleanupRegion, hpos, if_true]
  rw [hsent]
  exact h.reaches_leaveRoom hd ha hc

/-! ### Broadcasting -/

/-- A message to a room is sent to the other members. -/
theorem Consistent.reaches_broadcast (h : Consistent s) (hd : DistinctSockets s)
    (ha : (s.clients i).active = true) (hc : (s.clients i).currentRoom ≠ []) (text : Text) :
  Reaches s (s.broadcast i text) Message.isChatMessage
    (.chatMessage (s.clients i).currentRoom (s.clients i).username text)
    (fun j => s.InRoom (s.clients i).currentRoom j ∧ j ≠ i)
  := by
  obtain ⟨r, hr, hn⟩ := h.hosted i ha hc
  have hlength : (s.clients i).currentRoom.length ≠ 0 := List.length_eq_zero_iff.not.mpr hc
  have hfind : s.findRoom (s.clients i).currentRoom = some r := hn ▸ h.findRoom hr
  have hfilter : (s.rooms r).users.filter
        (fun user => (s.clients user).socket ≠ (s.clients i).socket)
      = (s.rooms r).users.filter (· ≠ i) := by
    apply List.filter_congr
    intro j hj
    have hsocket : (s.clients j).socket = (s.clients i).socket ↔ j = i := by
      constructor
      · exact hd j i (h.users_active hr j hj) ha
      · rintro rfl
        rfl
    simp [hsocket]
  simp only [broadcast, hlength, if_false, broadcastToRoom, hfind, hfilter]
  apply Reaches.append
  · rw [← hn]
    exact h.reaches_others hd hr i rfl
  · intro m hm
    rw [List.mem_singleton.mp hm]
    rfl

/-! ### What is sent to whom -/

/-- When the handlers run one at a time and different clients have different sockets, the
other members of a room, and nobody else, are each notified once of a client that joins the
room or leaves it, and are each sent once what it broadcasts. -/
theorem notices_reach_members (s : Server) (h : Reachable s) (hd : DistinctSockets s) (i : Slot)
    (ha : (s.clients i).active = true) :
  (∀ name, s.send i (.joinRoom name) ∈ (s.join i name).2 →
      Reaches s (s.join i name).2 Message.isJoinNotice (s.joinNotice i name)
        (fun j => s.InRoom name j ∧ j ≠ i))
    ∧ (∀ room, room = (s.clients i).currentRoom → room ≠ [] →
      let left := fun j => s.InRoom room j ∧ j ≠ i
      let notice := Message.userLeft (s.clients i).username room
      Reaches s (s.leave i).2 Message.isLeaveNotice notice left
        ∧ Reaches s (s.exit i).2 Message.isLeaveNotice notice left
        ∧ Reaches s (s.disconnect i).2 Message.isLeaveNotice notice left
        ∧ (∀ name, ((s.join i name).1.clients i).currentRoom ≠ room →
          Reaches s (s.join i name).2 Message.isLeaveNotice notice left)
        ∧ ∀ text, Reaches s (s.broadcast i text) Message.isChatMessage
          (.chatMessage room (s.clients i).username text) left)
  := by
  have hc := h.consistent
  refine ⟨fun name hjoin => hc.reaches_join hd ha hjoin, ?_⟩
  rintro room rfl hroom
  dsimp only
  have hleave := hc.reaches_leaveRoom hd ha hroom
  have hcleanup := hc.reaches_cleanupClient hd ha hroom
  refine ⟨?_, ?_, ?_, fun name hmove => hc.reaches_move hd ha hroom hmove,
    fun text => hc.reaches_broadcast hd ha hroom text⟩
  · have hlength : (s.clients i).currentRoom.length ≠ 0 := List.length_eq_zero_iff.not.mpr hroom
    simp only [leave, hlength, if_false]
    apply hleave.append
    intro m hm
    rw [List.mem_singleton.mp hm]
    rfl
  · have hsent : (s.exit i).2 = [s.send i .logout] ++ (s.cleanupClient i).2 := rfl
    rw [hsent]
    apply hcleanup.append_left
    intro m hm
    rw [List.mem_singleton.mp hm]
    rfl
  · have hfree := (s.cleanupClient_entry i).2.1
    simp only [disconnect]
    apply hcleanup.append
    intro m hm
    rw [Server.cleanupClient, hfree] at hm
    cases hm

theorem reachable_shared :
  Reachable shared
  := by
  have hconnect : Step initial connected := @Step.connect initial 0 connected 4 rfl
  have hlogin : Step connected (connected.login 0 "ada".toList).1 :=
    .login 0 "ada".toList rfl rfl
  have hjoin : Step (connected.login 0 "ada".toList).1 occupied :=
    .join 0 "tea".toList rfl (by decide)
  have hconnect' : Step occupied visited := @Step.connect occupied 1 visited 5 rfl
  have hlogin' : Step visited (visited.login 1 "bob".toList).1 :=
    .login 1 "bob".toList rfl rfl
  have hjoin' : Step (visited.login 1 "bob".toList).1 shared :=
    .join 1 "tea".toList rfl (by decide)
  exact (((((ReflTransGen.single hconnect).tail hlogin).tail hjoin).tail hconnect').tail
    hlogin').tail hjoin'

set_option maxRecDepth 4000 in
theorem distinctSockets_shared :
  DistinctSockets shared
  := by
  have hactive : ∀ i, (shared.clients i).active = true → i = 0 ∨ i = 1 := by decide
  intro i j hi hj hsocket
  obtain rfl | rfl := hactive i hi
  · obtain rfl | rfl := hactive j hj
    · rfl
    · cases hsocket
  · obtain rfl | rfl := hactive j hj
    · cases hsocket
    · rfl

theorem notices_reach_members_shared :
  Reaches shared (shared.broadcast 1 "hello".toList) Message.isChatMessage
      (.chatMessage "tea".toList "bob".toList "hello".toList)
      (fun j => shared.InRoom "tea".toList j ∧ j ≠ 1)
    ∧ shared.InRoom "tea".toList 0
  := by
  refine ⟨?_, 0, rfl, rfl, by decide⟩
  exact ((notices_reach_members shared reachable_shared distinctSockets_shared 1 rfl).2
    "tea".toList rfl (by decide)).2.2.2.2 "hello".toList

end Server

end ChatServer
