import Homeworks.ChatServer.Notifications

/-!
# Commands that are refused

The command `/join` can be refused after the client has left its room, when there is no entry
for another one.  Otherwise a command that is refused changes nothing.
-/

open Relation

namespace ChatServer

namespace Server

variable {s : Server} {i : Slot} {name : Text}

/-- The replies to a command `/join` that is refused. -/
def refusals : List Message := [.invalidRoomName, .alreadyInRoom, .roomIsFull, .invalidRoom]

/-- The command `/join` is refused. -/
def Refused (s : Server) (i : Slot) (name : Text) : Prop :=
  ∃ reply ∈ refusals, s.send i reply ∈ (s.join i name).2

/-- The command `/join` changes neither the room of the client nor the rooms, and only the
client is sent a message. -/
structure Untouched (s : Server) (i : Slot) (name : Text) : Prop where
  currentRoom : ((s.join i name).1.clients i).currentRoom = (s.clients i).currentRoom
  rooms : (s.join i name).1.rooms = s.rooms
  roomCount : (s.join i name).1.roomCount = s.roomCount
  notified : ∀ m ∈ (s.join i name).2, m.1 = some (s.clients i).socket

/-- The client shares its room if there is one, it names a room that does not exist, and there
is no entry for another room. -/
structure Displaced (s : Server) (i : Slot) (name : Text) : Prop where
  valid : isValidRoomName name = true
  inRoom : (s.clients i).currentRoom ≠ []
  moves : (s.clients i).currentRoom ≠ name
  unknown : s.findRoom name = none
  noEntry : ∀ r, (s.rooms r).active = true
  shared : ∀ r, s.findRoom (s.clients i).currentRoom = some r → ∃ j, j ≠ i ∧ j ∈ (s.rooms r).users

theorem findRoom_eq_none_iff :
  s.findRoom name = none ↔ ∀ r, (s.rooms r).active = true → (s.rooms r).name ≠ name
  := by simp [findRoom]

/-- A client cannot join a room that does not exist if there is no entry for it. -/
theorem joinRegion_eq_none_iff {rejoining : Bool} :
  s.joinRegion i name rejoining = none
    ↔ s.findRoom name = none ∧ ∀ r, (s.rooms r).active = true
  := by
  simp only [joinRegion]
  cases hf : s.findRoom name with
  | some r => simp
  | none =>
      simp only [createRoom]
      cases hfree : (List.finRange MAX_ROOMS).find? fun r => !(s.rooms r).active with
      | none =>
          have hall : ∀ r, (s.rooms r).active = true := by
            intro r
            simpa using Table.of_not_find hfree r
          simp [hall]
      | some r =>
          have hr : (s.rooms r).active = false := by simpa using Table.of_find hfree
          simp only [true_and, false_iff, reduceCtorEq]
          intro hall
          rw [hall r] at hr
          cases hr

/-- A client has left its room, and there is still no entry for the room that it names. -/
theorem Left.joinRegion_eq_none_iff {s₁ : Server} {r : Fin MAX_ROOMS} {rejoining : Bool}
    (hl : Left s s₁ i r) (hr : (s.rooms r).active = true) (hname : (s.rooms r).name ≠ name) :
  s₁.joinRegion i name rejoining = none
    ↔ s.findRoom name = none ∧ (∀ r, (s.rooms r).active = true)
      ∧ ∃ j, j ≠ i ∧ j ∈ (s.rooms r).users
  := by
  have hsame : ∀ r', (s₁.rooms r').name = (s.rooms r').name
      ∧ (r' ≠ r → (s₁.rooms r').active = (s.rooms r').active) := by
    intro r'
    rcases eq_or_ne r' r with rfl | hne
    · exact ⟨hl.name, fun h => absurd rfl h⟩
    · rw [hl.rooms r' hne]
      exact ⟨rfl, fun _ => rfl⟩
  have hremain : (s₁.rooms r).active = true ↔ ∃ j, j ≠ i ∧ j ∈ (s.rooms r).users := by
    rw [hl.active, hl.users, Ne, List.filter_eq_nil_iff]
    simp [and_comm]
  rw [Server.joinRegion_eq_none_iff, findRoom_eq_none_iff, findRoom_eq_none_iff, ← hremain]
  constructor
  · rintro ⟨hnone, hall⟩
    refine ⟨fun r' hr' => ?_, fun r' => ?_, hall r⟩
    · rw [← (hsame r').1]
      exact hnone r' (hall r')
    · rcases eq_or_ne r' r with rfl | hne
      · exact hr
      · rw [← (hsame r').2 hne]
        exact hall r'
  · rintro ⟨hnone, hall, hshared⟩
    refine ⟨fun r' _ => ?_, fun r' => ?_⟩
    · rw [(hsame r').1]
      exact hnone r' (hall r')
    · rcases eq_or_ne r' r with rfl | hne
      · exact hshared
      · rw [(hsame r').2 hne]
        exact hall r'

/-- A client has left its room, if there is one. -/
theorem joinRegion_leaveRoom_eq_none_iff {rejoining : Bool}
    (hmoves : (s.clients i).currentRoom ≠ name) :
  (s.leaveRoom i).1.joinRegion i name rejoining = none
    ↔ s.findRoom name = none ∧ (∀ r, (s.rooms r).active = true)
      ∧ ∀ r, s.findRoom (s.clients i).currentRoom = some r → ∃ j, j ≠ i ∧ j ∈ (s.rooms r).users
  := by
  cases hf : s.findRoom (s.clients i).currentRoom with
  | some r =>
      obtain ⟨hr, hn⟩ := of_findRoom hf
      have hl : Left s (s.leaveRoom i).1 i r := left_leaveRegion hf i
      rw [hl.joinRegion_eq_none_iff hr (hn ▸ hmoves)]
      simp
  | none =>
      have hrooms : (s.leaveRoom i).1.rooms = s.rooms := by
        simp only [leaveRoom, leaveRegion, hf, setClient]
      have hfind : (s.leaveRoom i).1.findRoom name = s.findRoom name := by
        rw [findRoom, findRoom, hrooms]
      rw [joinRegion_eq_none_iff, hfind, hrooms]
      simp

/-- A client that is displaced leaves its room before it is refused. -/
theorem Displaced.join_eq (hd : Displaced s i name) :
  s.join i name
    = ((s.leaveRoom i).1, (s.leaveRoom i).2 ++ [(s.leaveRoom i).1.send i .invalidRoom])
  := by
  have hpos : (s.clients i).currentRoom.length > 0 := List.length_pos_iff.mpr hd.inRoom
  have hnone : (s.leaveRoom i).1.joinRegion i name (s.rejoining i name) = none :=
    (joinRegion_leaveRoom_eq_none_iff hd.moves).mpr ⟨hd.unknown, hd.noEntry, hd.shared⟩
  obtain ⟨hrefused, -⟩ | ⟨-, -, -, s₁, sent, hg, ⟨-, hj⟩ | ⟨s₂, sockets, hs₂, -⟩⟩ :=
    s.join_outcome i name
  · have hfull := hrefused hd.valid hd.moves
    simp [roomIsFull, hd.unknown] at hfull
  · rw [if_pos hpos] at hg
    rw [hg, hj]
  · rw [if_pos hpos] at hg
    rw [hg, hs₂] at hnone
    cases hnone

theorem Displaced.refused (hd : Displaced s i name) :
  Refused s i name
  := by
  refine ⟨.invalidRoom, by simp [refusals], ?_⟩
  rw [hd.join_eq]
  simp [send, leaveRoom_clients]

/-- It has left its room. -/
theorem Displaced.not_untouched (hd : Displaced s i name) :
  ¬ Untouched s i name
  := by
  intro hu
  have hroom := hu.currentRoom
  rw [hd.join_eq, leaveRoom_clients, Function.update_self] at hroom
  exact hd.inRoom hroom.symm

/-- A client that is refused otherwise is refused before anything is changed. -/
theorem Refused.untouched (h : Refused s i name) (hd : ¬ Displaced s i name) :
  Untouched s i name
  := by
  have hreply : ∀ {reply : Message} {m : Sent}, m ∈ [s.send i reply] →
      m.1 = some (s.clients i).socket := by
    intro reply m hm
    rw [List.mem_singleton.mp hm, send]
  obtain ⟨-, reply, -, hj⟩ | ⟨hvalid, hmoves, -, s₁, sent, hg,
    ⟨hnone, hj⟩ | ⟨s₂, sockets, hs₂, hj⟩⟩ :=
    s.join_outcome i name
  · constructor <;> rw [hj]
    intro m hm
    exact hreply hm
  · by_cases hroom : (s.clients i).currentRoom = []
    · rw [hroom, if_neg (by decide)] at hg
      cases hg
      constructor <;> rw [hj]
      intro m hm
      exact hreply hm
    · rw [if_pos (List.length_pos_iff.mpr hroom)] at hg
      have hs₁ : (s.leaveRoom i).1 = s₁ := by rw [hg]
      rw [← hs₁, joinRegion_leaveRoom_eq_none_iff hmoves] at hnone
      exact absurd ⟨hvalid, hroom, hmoves, hnone.1, hnone.2.1, hnone.2.2⟩ hd
  · obtain ⟨reply, hreply, hmem⟩ := h
    rw [hj] at hmem
    simp only [List.mem_append, List.mem_map, List.mem_singleton] at hmem
    obtain (hm | ⟨socket, -, hm⟩) | hm := hmem
    · obtain ⟨user, room, hu⟩ := leaveRoomIf_sent hg _ hm
      simp only [send] at hu
      simp [refusals, hu] at hreply
    · have hnotice : s.joinNotice i name = reply := congrArg Prod.snd hm
      unfold joinNotice at hnotice
      split at hnotice
      all_goals
        rw [← hnotice] at hreply
        simp [refusals] at hreply
    · have hanswer : reply = .joinRoom name := congrArg Prod.snd hm
      simp [refusals, hanswer] at hreply

/-- A command `/join` that is refused changes nothing, unless the client shares its room and
there is no entry for another one. -/
theorem refused_join_untouched_iff (s : Server) (i : Slot) (name : Text) :
  (Refused s i name → Untouched s i name) ↔ ¬ Displaced s i name
  := by
  constructor
  · intro hr hd
    exact hd.not_untouched (hr hd.refused)
  · intro hd hr
    exact hr.untouched hd

/-! ### A server with an entry for no other room -/

/-- The name of a client and of its room. -/
def letter (k : Nat) : Text := [Char.ofNat (if k < 26 then 65 + k else 71 + k)]

/-- The first clients are in a room each. -/
def crowd (k : Nat) : Server where
  clients i :=
    if i.val < k then ⟨i.val, letter i, letter i, [letter i], true, []⟩
      else ⟨0, [], [], [], false, []⟩
  rooms r := if r.val < k then ⟨letter r, [r.castLE (by decide)], true⟩ else ⟨[], [], false⟩
  clientCount := k
  roomCount := k

theorem letter_injective {j k : Nat} (hj : j < 51) (hk : k < 51) (h : letter j = letter k) :
  j = k
  := by
  have hchar : ∀ n : Nat, n < 200 → (Char.ofNat n).toNat = n := by
    intro n hn
    have hvalid : n.isValidChar := .inl (by omega)
    rw [Char.ofNat, dif_pos hvalid]
    rfl
  have hcode := congrArg (fun l => (l.headD 'a').toNat) h
  simp only [letter, List.headD_cons] at hcode
  rw [hchar _ (by split <;> omega), hchar _ (by split <;> omega)] at hcode
  split at hcode <;> split at hcode <;> omega

theorem letter_valid {k : Nat} (hk : k < 51) :
  isValidUsername (letter k) = true ∧ isValidRoomName (letter k) = true
  := by
  have h : ∀ k : Fin 51, isValidUsername (letter k) = true ∧ isValidRoomName (letter k) = true := by
    decide
  exact h ⟨k, hk⟩

/-- The entry for one more client. -/
def entry (k : Nat) : Slot := ⟨k % MAX_CLIENTS, Nat.mod_lt k (by decide)⟩

theorem entry_val {k : Nat} (hk : k < 51) :
  (entry k).val = k
  := Nat.mod_eq_of_lt (hk.trans (by decide))

/-- The server after one more client has been put into an entry. -/
def entered (k : Nat) (c : Client) : Server :=
  { (crowd k).setClient (entry k) c with clientCount := k + 1 }

theorem connect_crowd {k : Nat} (hk : k < 51) :
  (crowd k).connect k = some (entry k, entered k ⟨k, [], [], [], true, []⟩)
  := by
  have hval := entry_val hk
  have hfind : (List.finRange MAX_CLIENTS).find? (fun j => !((crowd k).clients j).active)
      = some (entry k) := by
    apply Table.find_first
    · simp [crowd, hval]
    · intro j hj
      have hjk : j.val < k := hval ▸ hj
      simp [crowd, hjk]
  have hentry : (crowd k).clients (entry k) = ⟨0, [], [], [], false, []⟩ := by
    simp [crowd, hval]
  simp only [connect, hfind, hentry]
  rfl

theorem login_entered {k : Nat} (hk : k < 51) :
  ((entered k ⟨k, [], [], [], true, []⟩).login (entry k) (letter k)).1
    = entered k ⟨k, letter k, [], [], true, []⟩
  := by
  have htaken : (entered k ⟨k, [], [], [], true, []⟩).usernameTaken (letter k) = false := by
    rw [usernameTaken, List.any_eq_false]
    intro j _
    rcases eq_or_ne j (entry k) with rfl | hj
    · simp [entered, setClient, letter]
    · simp only [entered, setClient, crowd, Function.update_of_ne hj]
      split
      · rename_i hjk
        have hne : letter j.val ≠ letter k := fun heq =>
          absurd (letter_injective (hjk.trans hk) hk heq) hjk.ne
        simp [hne]
      · simp
  simp only [Server.login, (letter_valid hk).1, htaken]
  simp [entered, setClient]

/-- Adding the client to a new room gives the next server. -/
theorem addUser_entered {k : Nat} (hk : k < 50) :
  Server.addUser
    { (entered k ⟨k, letter k, [], [], true, []⟩).setRoom ⟨k, hk⟩ ⟨letter k, [], true⟩ with
      roomCount := k + 1 }
    (entry k) ⟨k, hk⟩ (letter k) false
    = crowd (k + 1)
  := by
  have hval := entry_val (Nat.lt_succ_of_lt hk)
  have hnext : ∀ j : Nat, j ≠ k → (j < k + 1 ↔ j < k) := by omega
  simp only [addUser, entered, setClient, setRoom, crowd, Function.update_self, Server.mk.injEq]
  refine ⟨funext fun j => ?_, funext fun r => ?_, rfl, rfl⟩
  · rcases eq_or_ne j (entry k) with rfl | hj
    · simp [hval, letter]
    · have hjk : j.val ≠ k := fun hjk => hj (Fin.ext (hjk.trans hval.symm))
      simp [hj, hnext _ hjk]
  · rcases eq_or_ne r ⟨k, hk⟩ with rfl | hr
    · have hentry : entry k = Fin.castLE (by decide) (⟨k, hk⟩ : Fin MAX_ROOMS) := Fin.ext hval
      simp [hentry]
    · have hrk : r.val ≠ k := fun hrk => hr (Fin.ext hrk)
      simp [hr, hnext _ hrk]

theorem join_entered {k : Nat} (hk : k < 50) :
  ((entered k ⟨k, letter k, [], [], true, []⟩).join (entry k) (letter k)).1
    = crowd (k + 1)
  := by
  have hval := entry_val (Nat.lt_succ_of_lt hk)
  generalize hs : entered k ⟨k, letter k, [], [], true, []⟩ = s
  have hclient : s.clients (entry k) = ⟨k, letter k, [], [], true, []⟩ := by
    simp [← hs, entered, setClient]
  have hrooms : s.rooms = (crowd k).rooms := by rw [← hs]; rfl
  have hnone : s.findRoom (letter k) = none := by
    rw [findRoom_eq_none_iff, hrooms]
    intro r hr
    have hrk : r.val < k := by
      by_contra hrk
      simp [crowd, hrk] at hr
    have hne : letter r.val ≠ letter k := fun heq =>
      absurd (letter_injective (by omega) (by omega) heq) hrk.ne
    simpa [crowd, hrk] using hne
  have hfind : (List.finRange MAX_ROOMS).find? (fun r => !(s.rooms r).active) = some ⟨k, hk⟩ := by
    rw [hrooms]
    apply Table.find_first
    · simp [crowd]
    · intro r hr
      have hrk : r.val < k := hr
      simp [crowd, hrk]
  have hfull : s.roomIsFull (letter k) = false := by rw [roomIsFull, hnone]
  have hrejoining : s.rejoining (entry k) (letter k) = false := by rw [rejoining, hclient]; rfl
  have hmoves : [] ≠ letter k := by simp [letter]
  obtain ⟨sockets, hregion⟩ : ∃ sockets,
      s.joinRegion (entry k) (letter k) false = some (crowd (k + 1), sockets) := by
    simp only [joinRegion, hnone, createRoom, hfind]
    refine ⟨_, congrArg some (Prod.ext ?_ rfl)⟩
    rw [← addUser_entered hk]
    simp only [← hs]
    rfl
  simp [join, (letter_valid (Nat.lt_succ_of_lt hk)).2, hclient, hmoves, hfull, joinRoom, hrejoining,
    hregion]

/-- One more client joins a room of its own. -/
theorem reachable_crowd {k : Nat} (hk : k ≤ 50) :
  Reachable (crowd k)
  := by
  induction k with
  | zero =>
      have hinitial : crowd 0 = initial := by simp [crowd, initial]
      rw [hinitial]
      exact .refl
  | succ k ih =>
      have hconnect := (ih (Nat.le_of_succ_le hk)).tail
        (.connect (connect_crowd (Nat.lt_succ_of_lt hk)))
      have hlogin := hconnect.tail (.login (entry k) (letter k)
        (by simp [entered, setClient]) (by simp [entered, setClient]))
      rw [login_entered (Nat.lt_succ_of_lt hk)] at hlogin
      have hjoin := hlogin.tail (.join (entry k) (letter k)
        (by simp [entered, setClient]) (by simp [entered, setClient, letter]))
      rw [join_entered hk] at hjoin
      exact hjoin

/-- There is a room in each entry, and a second client in the first one. -/
def saturated : Server := ((entered 50 ⟨50, letter 50, [], [], true, []⟩).join 50 (letter 0)).1

theorem reachable_saturated :
  Reachable saturated
  := by
  have hconnect := (reachable_crowd le_rfl).tail (.connect (connect_crowd (by decide)))
  have hlogin := hconnect.tail (.login (entry 50) (letter 50) rfl rfl)
  rw [login_entered (by decide)] at hlogin
  exact hlogin.tail (.join 50 (letter 0) rfl (by decide))

set_option maxRecDepth 4000 in
theorem displaced_saturated :
  Displaced saturated 0 "new".toList
  where
  valid := rfl
  inRoom := by decide
  moves := by decide
  unknown := by rfl
  noEntry := by decide
  shared := by decide

set_option maxRecDepth 4000 in
/-- The client is refused, but it has left its room, of which the other client is notified. -/
theorem refused_after_leaving :
  Reachable saturated ∧ Refused saturated 0 "new".toList ∧ ¬ Untouched saturated 0 "new".toList
    ∧ (saturated.clients 0).currentRoom = letter 0
    ∧ ((saturated.join 0 "new".toList).1.clients 0).currentRoom = []
    ∧ saturated.send 50 (.userLeft (letter 0) (letter 0)) ∈ (saturated.join 0 "new".toList).2
  := by
  have hjoin := displaced_saturated.join_eq
  refine ⟨reachable_saturated, displaced_saturated.refused, displaced_saturated.not_untouched,
    by rfl, ?_, ?_⟩
  · rw [hjoin, leaveRoom_clients, Function.update_self]
  · rw [hjoin]
    apply List.mem_append_left
    decide

end Server

end ChatServer
