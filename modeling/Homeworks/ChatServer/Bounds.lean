import Homeworks.ChatServer.Cleanup
import Homeworks.ChatServer.Parsing

/-!
# Commands in bounds

Which commands are parsed without an access outside the buffer or an array, and what commands
that are malformed change.
-/

open CString
open Relation

namespace ChatServer

namespace Server

variable {s : Server} {i : Slot} {name text : Text}

/-! ### Names -/

/-- The clients have valid names and are in rooms with valid names. -/
def Named (s : Server) : Prop :=
  ∀ i, ((s.clients i).username = [] ∨ isValidUsername (s.clients i).username = true)
    ∧ ((s.clients i).currentRoom = [] ∨ isValidRoomName (s.clients i).currentRoom = true)

/-- The entry of a client is replaced by one with valid names. -/
theorem Named.update {s' : Server} {c : Client} (h : Named s)
    (hs : s'.clients = Function.update s.clients i c)
    (hu : c.username = [] ∨ isValidUsername c.username = true)
    (hr : c.currentRoom = [] ∨ isValidRoomName c.currentRoom = true) :
  Named s'
  := by
  intro j
  rw [hs]
  rcases eq_or_ne j i with rfl | hne
  · rw [Function.update_self]
    exact ⟨hu, hr⟩
  · rw [Function.update_of_ne hne]
    exact h j

theorem Named.leaveRoomIf (h : Named s) (i : Slot) :
  Named (if (s.clients i).currentRoom.length > 0 then s.leaveRoom i else (s, [])).1
  := by
  split
  · exact h.update (s.leaveRoom_clients i) (h i).1 (.inl rfl)
  · exact h

theorem Named.leaveRegion (h : Named s) (i : Slot) (name : Text) :
  Named (s.leaveRegion i name).1
  := h.update (s.leaveRegion_clients i name) (h i).1 (.inl rfl)

theorem Named.joinRegion {s' : Server} {rejoining : Bool} {sockets : List (Option Int)}
    (h : Named s) (hvalid : isValidRoomName name = true)
    (hj : s.joinRegion i name rejoining = some (s', sockets)) :
  Named s'
  := by
  obtain ⟨s₀, r, hclients, rfl⟩ := of_joinRegion hj
  have hroom : name.take MAX_ROOM_NAME_LEN = name :=
    List.take_of_length_le (of_isValidRoomName hvalid).2
  apply h.update (i := i) (by rw [← hclients]; rfl)
  · rw [hclients]
    exact (h i).1
  · right
    rw [hroom]
    exact hvalid

theorem Named.login (h : Named s) (i : Slot) (buffer : Text) :
  Named (s.login i buffer).1
  := by
  unfold Server.login
  split
  · exact h
  · rename_i hvalid
    split
    · exact h
    · exact h.update rfl (.inr (by simpa using hvalid)) (h i).2

theorem Named.connect {s' : Server} {socket : Int} (h : Named s)
    (hc : s.connect socket = some (i, s')) :
  Named s'
  := by
  unfold Server.connect at hc
  split at hc
  · cases hc
  · cases hc
    exact h.update rfl (.inl rfl) (.inl rfl)

theorem Named.cleanupRegion (h : Named s) (i : Slot) :
  Named (s.cleanupRegion i).1
  := (h.leaveRoomIf i).update rfl (.inl rfl) (.inl rfl)

end Server

/-- The names that a handler has received are valid. -/
def Pc.Valid : Pc → Prop
  | .naming username => Server.isValidUsername username = true
  | .joining room | .checking room | .passed room | .entering room _ | .moving room _
  | .movingFrom room _ _ | .inserting room _ => Server.isValidRoomName room = true
  | _ => True

/-- A handler keeps names valid. -/
theorem Handles.named {i : Slot} {s s' : Server} {pc pc' : Pc} {closed : Option Int}
    (h : Handles i s pc s' pc' closed) (hs : s.Named) (hpc : pc.Valid) :
  s'.Named ∧ pc'.Valid
  := by
  cases h with
  | accepted => exact ⟨hs.login i _, trivial⟩
  | moved => exact ⟨hs.leaveRegion i _, hpc⟩
  | left => exact ⟨hs.leaveRegion i _, trivial⟩
  | inserted hj => exact ⟨hs.joinRegion hpc hj, trivial⟩
  | cleaned =>
      refine ⟨hs.cleanupRegion i, ?_⟩
      rename_i call
      cases call <;> trivial
  | @clean call =>
      refine ⟨hs, ?_⟩
      cases call <;> trivial
  | loginValid hvalid => exact ⟨hs, hvalid⟩
  | join hvalid => exact ⟨hs, hvalid⟩
  | elsewhere | notFull | looked | wasInRoom | wasInNoRoom | moves => exact ⟨hs, hpc⟩
  | _ => exact ⟨hs, trivial⟩

/-- In the systems that are reached all names are valid. -/
theorem System.Reachable.named {x : System} (h : x.Reachable) :
  x.server.Named ∧ ∀ session ∈ x.sessions, session.pc.Valid
  := by
  induction h with
  | refl => exact ⟨fun _ => ⟨.inl rfl, .inl rfl⟩, by rintro _ ⟨⟩⟩
  | tail _ hstep ih =>
      obtain ⟨hs, hsessions⟩ := ih
      obtain ⟨_, hc, hpc⟩ | ⟨k, hk, hh⟩ := hstep
      · refine ⟨hs.connect hc, ?_⟩
        intro session hmem
        obtain hmem | hmem := List.mem_append.mp hmem
        · exact hsessions session hmem
        · rw [List.mem_singleton.mp hmem]
          obtain rfl | rfl := hpc <;> trivial
      · rename_i session _ _ _
        obtain ⟨hs', hpc'⟩ := hh.named hs (hsessions session (List.mem_of_getElem? hk))
        refine ⟨hs', ?_⟩
        intro session' hmem
        obtain hmem | rfl := List.mem_or_eq_of_mem_set hmem
        · exact hsessions session' hmem
        · exact hpc'

namespace Server

variable {s : Server} {i : Slot} {name text : Text}

/-! ### Arrays -/

/-- The start of a text is copied to an array of that size. -/
theorem strncpy_stored {n size : Nat} (h : n ≤ size) (text : Text) :
  ∃ a, strncpy (localArray size) (stored text) n = .ok a ∧ a.length = size
  := by
  refine ⟨_, strncpy_eq (by simpa using h) text [], ?_⟩
  simp only [List.length_append, List.length_take, List.length_replicate, List.length_drop,
    length_localArray]
  omega

/-- The terminator of the name is written past the end of the array. -/
theorem leaveRoomArray_eq (s : Server) (i : Slot) :
  s.leaveRoomArray i = .error .writeOutside
  := by
  obtain ⟨a, ha, hlength⟩ := strncpy_stored (le_refl MAX_ROOM_NAME_LEN) (s.clients i).currentRoom
  have hwrite : write a MAX_ROOM_NAME_LEN ['\x00'] = .error .writeOutside :=
    write_eq_error hlength.ge (by rw [hlength]; exact Nat.lt_succ_self _)
  simp only [leaveRoomArray, ha, bind, Except.bind, hwrite]

theorem oldRoomArray_eq (s : Server) (i : Slot) :
  s.oldRoomArray i = .ok ()
  := by
  obtain ⟨a, ha, hlength⟩ := strncpy_stored (Nat.le_succ MAX_ROOM_NAME_LEN)
    (s.clients i).currentRoom
  simp only [oldRoomArray, ha, bind, Except.bind]
  rw [write_eq (by rw [hlength]; rfl)]
  rfl

/-- The sockets of the users of a room that is not overfull are those that are notified. -/
theorem clientSockets_eq (users : List Slot) (before : List (Option Int)) {n : Nat}
    (h : users.length ≤ n) :
  s.clientSockets i before.length users (before ++ List.replicate n none)
    = .ok (before ++ (users.map fun user =>
        if (s.clients user).socket ≠ (s.clients i).socket then
          some (s.clients user).socket
        else
          none)
      ++ List.replicate (n - users.length) none)
  := by
  induction users generalizing before n with
  | nil => simp [clientSockets]
  | cons user users ih =>
      cases n with
      | zero => cases h
      | succ n =>
          have hn : users.length ≤ n := Nat.le_of_succ_le_succ h
          have hwrite : ∀ x : Option Int, before ++ x :: List.replicate n none
              = (before ++ [x]) ++ List.replicate n none := by simp
          rw [clientSockets, List.replicate_succ]
          split
          · rename_i hne
            have hbound : before.length + [some (s.clients user).socket].length
                ≤ (before ++ (none : Option Int) :: List.replicate n none).length := by
              simp
            simp only [bind, Except.bind, write_eq hbound]
            have hset : (before ++ (none : Option Int) :: List.replicate n none).take before.length
                  ++ [some (s.clients user).socket]
                  ++ (before ++ none :: List.replicate n none).drop (before.length + 1)
                = (before ++ [some (s.clients user).socket]) ++ List.replicate n none := by
              simp
            have hnext := ih (before ++ [some (s.clients user).socket]) hn
            rw [List.length_append] at hnext
            simp only [List.length_singleton, hset] at hnext ⊢
            rw [hnext]
            simp [hne]
          · rename_i hne
            have hnext := ih (before ++ [none]) hn
            rw [List.length_append] at hnext
            simp only [List.length_singleton] at hnext
            rw [hwrite, hnext]
            simp [hne]

/-- The array of `join_room` holds the sockets that are notified. -/
theorem clientSockets_notified {users : List Slot} (h : users.length ≤ MAX_USERS_PER_ROOM) :
  ∃ sockets, s.clientSockets i 0 users (List.replicate MAX_USERS_PER_ROOM none) = .ok sockets
    ∧ sockets.take (users.length - 1) = s.notified i users
  := by
  refine ⟨_, clientSockets_eq users [] h, ?_⟩
  rw [List.nil_append, notified, List.take_append_of_le_length]
  rw [List.length_map]
  exact Nat.sub_le _ _

/-- A client that joins a room that is not full finds it with no more users than there may
be. -/
theorem length_users_joinRegion {s' : Server} {rejoining : Bool} {sockets : List (Option Int)}
    {r : Fin MAX_ROOMS} (hj : s.joinRegion i name rejoining = some (s', sockets))
    (hfull : s.roomIsFull name = false) (hr : s'.findRoom name = some r) :
  (s'.rooms r).users.length ≤ MAX_USERS_PER_ROOM
  := by
  simp only [joinRegion] at hj
  cases hf : s.findRoom name with
  | some r₀ =>
      rw [hf] at hj
      cases hj
      have hsame : (s.addUser i r₀ name rejoining).findRoom name = s.findRoom name := by
        simp only [findRoom]
        congr 1
        funext r'
        rcases eq_or_ne r' r₀ with rfl | hne
        · simp [addUser, setClient, setRoom]
        · simp [addUser, setClient, setRoom, hne]
      rw [hsame, hf] at hr
      cases hr
      simp only [roomIsFull, hf, Room.full, decide_eq_false_iff_not] at hfull
      simp only [addUser, setClient, setRoom, Function.update_self, List.length_append,
        List.length_singleton]
      omega
  | none =>
      rw [hf] at hj
      simp only [createRoom] at hj
      cases hfree : (List.finRange MAX_ROOMS).find? fun r => !(s.rooms r).active with
      | none =>
          rw [hfree] at hj
          cases hj
      | some r₀ =>
          rw [hfree] at hj
          cases hj
          rcases eq_or_ne r r₀ with rfl | hne
          · simp [addUser, setClient, setRoom, MAX_USERS_PER_ROOM]
          · obtain ⟨hactive, hname⟩ := of_findRoom hr
            simp only [addUser, setClient, setRoom, Function.update_of_ne hne] at hactive hname
            exact absurd hname (of_not_findRoom hf r hactive)

/-- The arrays of `join_room` are large enough unless the client leaves a room. -/
theorem joinRoomArrays_eq (hfull : s.roomIsFull name = false) :
  s.joinRoomArrays i name
    = if (s.clients i).currentRoom = [] then .ok () else .error .writeOutside
  := by
  rw [joinRoomArrays]
  by_cases hroom : (s.clients i).currentRoom = []
  · have hlength : ¬ (s.clients i).currentRoom.length > 0 := by simp [hroom]
    rw [if_neg hlength, if_pos hroom]
    simp only [joinRoom, hlength, if_false]
    cases hj : s.joinRegion i name (s.rejoining i name) with
    | none => rfl
    | some p =>
        obtain ⟨s', sockets⟩ := p
        dsimp only
        cases hf : s'.findRoom name with
        | none => rfl
        | some r =>
            have hle := length_users_joinRegion hj hfull hf
            obtain ⟨written, hwritten, -⟩ := clientSockets_notified (s := s') (i := i) hle
            have hstored : (s'.rooms r).users.length - 1 + [some i].length
                ≤ (List.replicate MAX_USERS_PER_ROOM (none : Option Slot)).length := by
              rw [List.length_replicate, List.length_singleton]
              have hpos : 0 < MAX_USERS_PER_ROOM := by decide
              omega
            simp only [write_eq hstored, readUsers, hle, if_true, hwritten, bind, Except.bind]
            rfl
  · have hlength : (s.clients i).currentRoom.length > 0 := List.length_pos_iff.mpr hroom
    simp only [hlength, hroom, if_true, if_false, oldRoomArray_eq, leaveRoomArray_eq, bind,
      Except.bind]

/-! ### Commands -/

/-- The command `/join` is in bounds unless the client leaves a room. -/
theorem parseJoin_eq (s : Server) (i : Slot) (hterm : '\x00' ∉ name)
    (hlength : name.length < BUFFER_SIZE) :
  s.parseJoin i (name ++ ['\x00'])
    = if isValidRoomName name = true ∧ (s.clients i).currentRoom ≠ name
        ∧ s.roomIsFull name = false ∧ (s.clients i).currentRoom ≠ [] then
        .error .writeOutside
      else
        .ok ⟨(s.join i name).1, (s.join i name).2, none⟩
  := by
  have hstring := string_eq hterm
  have hcopy : strcpy (localArray BUFFER_SIZE) (name ++ ['\x00']) = .ok _ :=
    strcpy_eq (by rw [hstring, length_localArray]; exact hlength) []
  have hread := read_eq name ((localArray BUFFER_SIZE).drop (name.length + 1))
  rw [hstring] at hcopy hread
  simp only [parseJoin, hcopy, bind, Except.bind, hread]
  by_cases hpass : isValidRoomName name = true ∧ (s.clients i).currentRoom ≠ name
      ∧ s.roomIsFull name = false
  · obtain ⟨hvalid, hmoves, hfull⟩ := hpass
    rw [joinRoomArrays_eq hfull]
    by_cases hroom : (s.clients i).currentRoom = []
    · simp [hvalid, hfull, hroom, pure, Except.pure]
    · simp [hvalid, hmoves, hfull, hroom]
  · have hcond : ¬ (isValidRoomName name && decide ((s.clients i).currentRoom ≠ name)
        && !s.roomIsFull name) = true := by
      simpa [and_assoc] using hpass
    rw [if_neg hcond, if_neg fun hall => hpass ⟨hall.1, hall.2.1, hall.2.2.1⟩]
    rfl

/-- The command `/leave` is in bounds unless the client leaves a room. -/
theorem parseLeave_eq (s : Server) (i : Slot) :
  s.parseLeave i
    = if (s.clients i).currentRoom = [] then
        .ok ⟨(s.leave i).1, (s.leave i).2, none⟩
      else
        .error .writeOutside
  := by
  by_cases hroom : (s.clients i).currentRoom = []
  · simp [parseLeave, hroom, pure, Except.pure]
  · simp [parseLeave, hroom, oldRoomArray_eq, leaveRoomArray_eq, bind, Except.bind]

theorem Named.length_username (h : Named s) (i : Slot) :
  (s.clients i).username.length ≤ MAX_USERNAME_LEN
  := by
  obtain hu | hu := (h i).1
  · rw [hu]
    exact Nat.zero_le _
  · simp only [isValidUsername, Bool.and_eq_true] at hu
    have hlength := hu.1
    simp only [Bool.not_eq_true', Bool.or_eq_false_iff, decide_eq_false_iff_not] at hlength
    exact not_lt.mp hlength.1

/-- No room has more users than its array has entries. -/
def Spacious (s : Server) : Prop := ∀ r, (s.rooms r).users.length ≤ MAX_USERS_PER_ROOM

/-- The command `/broadcast` is in bounds while no room is overfull. -/
theorem Named.parseBroadcast_eq (h : Named s) (hs : Spacious s) (i : Slot)
    (hterm : '\x00' ∉ text) :
  s.parseBroadcast i (text ++ ['\x00']) = .ok ⟨s, s.broadcast i text, none⟩
  := by
  have hread := read_eq text []
  rw [string_eq hterm] at hread
  have harray : s.senderNameArray i = .ok () := by
    rw [senderNameArray]
    split
    · rfl
    · rename_i sender _
      have hle : (string (s.clients sender).username).length < MAX_USERNAME_LEN + 1 :=
        Nat.lt_succ_of_le ((List.takeWhile_prefix _).length_le.trans (h.length_username sender))
      have hcopy : strcpy (localArray (MAX_USERNAME_LEN + 1))
          ((s.clients sender).username ++ ['\x00']) = .ok _ :=
        strcpy_eq (by rwa [length_localArray]) []
      simp only [stored, hcopy, bind, Except.bind]
      rfl
  by_cases hroom : (s.clients i).currentRoom.length = 0
  · simp [parseBroadcast, broadcast, hroom, pure, Except.pure]
  · simp only [parseBroadcast, hroom, if_false, hread, harray, bind, Except.bind, pure, Except.pure]
    split
    · rename_i r _
      simp only [readUsers, hs r, if_true]
    · rfl

/-- The command `/whisper` uses a null pointer unless there is a space after the username. -/
theorem parseWhisper_eq_error (s : Server) (i : Slot) (h : ' ' ∉ text) :
  s.parseWhisper i (text ++ ['\x00']) = .error .nullPointer
  := by
  simp only [parseWhisper, strchr_eq_none (by decide) h, bind, Except.bind, difference]

theorem parseWhisper_ok (s : Server) (i : Slot) (hterm : '\x00' ∉ text) (h : ' ' ∈ text) :
  ∃ sent, s.parseWhisper i (text ++ ['\x00']) = .ok ⟨s, sent, none⟩
  := by
  obtain ⟨user, message, rfl, huser⟩ := List.eq_append_cons_of_mem h
  have huserTerm : '\x00' ∉ user := fun hmem => hterm (List.mem_append_left _ hmem)
  have hrest : (user ++ ' ' :: message) ++ ['\x00'] = user ++ ' ' :: (message ++ ['\x00']) := by
    simp
  have hchr : strchr ' ' (user ++ ' ' :: (message ++ ['\x00']))
      = .ok (some (' ' :: (message ++ ['\x00']))) := strchr_eq_some huserTerm huser _
  have hdifference : difference (some (' ' :: (message ++ ['\x00'])))
      (user ++ ' ' :: (message ++ ['\x00'])) = .ok user.length := by
    simp [difference]
  obtain ⟨n, hn⟩ : ∃ n, n = min user.length MAX_USERNAME_LEN := ⟨_, rfl⟩
  have hle : n ≤ MAX_USERNAME_LEN := by omega
  obtain ⟨array, harray, hlength⟩ := strncpy_stored (Nat.le_succ_of_le hle)
    (user ++ ' ' :: message)
  rw [stored, hrest] at harray
  have hwrite : write array n ['\x00'] = .ok (array.take n ++ '\x00' :: array.drop (n + 1)) := by
    rw [write_eq (by rw [hlength]; exact Nat.succ_le_succ hle)]
    simp
  simp only [parseWhisper, hrest, hchr, hdifference, ← hn, harray, hwrite, read_eq, bind,
    Except.bind]
  split
  · exact ⟨_, rfl⟩
  · split
    · exact ⟨_, rfl⟩
    · rw [List.drop_one, List.tail_cons, read_eq]
      exact ⟨_, rfl⟩

/-! ### The command `/sendfile` -/

/-- What is read of the command is made of it. -/
theorem scanWord_sublist {word rest : Text} (h : scanWord text = some (word, rest)) :
  word.Sublist text ∧ rest.Sublist text
  := by
  simp only [scanWord] at h
  split at h
  · cases h
  · cases h
    have hskip := (List.dropWhile_suffix (l := text) isSpace).sublist
    exact ⟨(List.takeWhile_sublist _).trans hskip, (List.dropWhile_sublist _).trans hskip⟩

theorem fields_sublist (params : Text) :
  ((fields params).1.getD []).Sublist params ∧ ((fields params).2.1.getD []).Sublist params
  := by
  simp only [fields]
  cases hf : scanWord params with
  | none => simp
  | some p =>
      obtain ⟨filename, rest⟩ := p
      obtain ⟨hfilename, hrest⟩ := scanWord_sublist hf
      cases ht : scanWord rest with
      | none => simpa [ht] using hfilename
      | some p =>
          obtain ⟨target, rest'⟩ := p
          have htarget := (scanWord_sublist ht).1.trans hrest
          simpa [ht] using ⟨hfilename, htarget⟩

/-- A word is in bounds if it is shorter than the array. -/
theorem scanned_eq {size : Nat} {word : Option Text} (hterm : '\x00' ∉ word.getD []) :
  scanned size word
    = if word = none ∨ (word.getD []).length < size then
        .ok (word.getD [])
      else
        .error .writeOutside
  := by
  cases word with
  | none => simp [scanned]
  | some word =>
      simp only [Option.getD_some] at hterm
      simp only [scanned, reduceCtorEq, false_or, Option.getD_some]
      split
      · rename_i hlt
        have hwrite : write (localArray size) 0 (word ++ ['\x00'])
            = .ok (word ++ '\x00' :: (localArray size).drop (word.length + 1)) := by
          rw [write_eq (by simp; omega)]
          simp
        simp only [hwrite, bind, Except.bind, read_eq, string_eq hterm]
      · rename_i hge
        rw [write_eq_error (Nat.zero_le _) (by simp; omega)]
        rfl

/-- The command `/sendfile` is in bounds unless the username is too long. -/
theorem parseSendfile_eq (s : Server) (i : Slot) (hterm : '\x00' ∉ text)
    (hlength : text.length < BUFFER_SIZE) :
  s.parseSendfile i (text ++ ['\x00'])
    = if ((fields text).2.1.getD []).length ≤ MAX_USERNAME_LEN then
        match s.handleFileTransfer i ((fields text).1.getD []) ((fields text).2.1.getD [])
            ((fields text).2.2.getD 0) with
        | .error reply => .ok ⟨s, [s.send i reply], none⟩
        | .ok target =>
            .ok ⟨s, [], some (target, (fields text).1.getD [], (fields text).2.2.getD 0)⟩
      else
        .error .writeOutside
  := by
  have hread := read_eq text []
  rw [string_eq hterm] at hread
  obtain ⟨hfilename, htarget⟩ := fields_sublist text
  obtain ⟨⟨filename, target, size⟩, hfields⟩ : ∃ result, fields text = result := ⟨_, rfl⟩
  rw [hfields] at hfilename htarget
  have hbound : (filename.getD []).length < BUFFER_SIZE :=
    hfilename.length_le.trans_lt hlength
  have hshort : (target = none ∨ (target.getD []).length < MAX_USERNAME_LEN + 1)
      ↔ (target.getD []).length ≤ MAX_USERNAME_LEN := by
    cases target with
    | none => simp
    | some target =>
        rw [or_iff_right (Option.some_ne_none target), Option.getD_some]
        exact Nat.lt_succ_iff
  simp only [parseSendfile, hread, hfields, bind, Except.bind,
    scanned_eq fun hmem => hterm (hfilename.subset hmem),
    scanned_eq fun hmem => hterm (htarget.subset hmem), hbound, or_true, if_true, hshort]
  by_cases hle : (target.getD []).length ≤ MAX_USERNAME_LEN
  · simp only [hle, if_true]
    rfl
  · simp only [hle, if_false]

/-- What is not the name of a client is the name of none. -/
theorem findClientByUsername_eq_none_iff :
  s.findClientByUsername name = none
    ↔ ∀ j, (s.clients j).active = true → (s.clients j).username ≠ name
  := by simp [findClientByUsername]

/-- A request for a file of no size is accepted if its name is good and it is for another
client. -/
theorem handleFileTransfer_zero (s : Server) (i : Slot) (filename target : Text) :
  (∃ receiver, s.handleFileTransfer i filename target 0 = .ok receiver)
    ↔ (s.clients i).username ≠ target ∧ hasValidExtension filename = true
      ∧ ∃ j, (s.clients j).active = true ∧ (s.clients j).username = target
  := by
  have hsmall : ¬ (0 : Int) > 3 * 1024 * 1024 := by decide
  by_cases hself : (s.clients i).username = target
  · simp [handleFileTransfer, hself]
  cases hext : hasValidExtension filename with
  | false => simp [handleFileTransfer, hself, hext]
  | true =>
      cases hfind : s.findClientByUsername target with
      | none =>
          have hnone := findClientByUsername_eq_none_iff.mp hfind
          simpa [handleFileTransfer, hself, hext, hfind] using hnone
      | some receiver =>
          have hreceiver := Table.of_find hfind
          simp only [Bool.and_eq_true, decide_eq_true_eq] at hreceiver
          simpa [handleFileTransfer, hself, hext, hfind] using ⟨receiver, hreceiver⟩

end Server

namespace Command

/-- A command has the arguments that it needs. -/
def WellFormed : Command → Prop
  | join roomName => Server.isValidRoomName roomName = true
  | leave | broadcast _ | exit => True
  | whisper rest =>
      ∃ username message, rest = username ++ ' ' :: message
        ∧ Server.isValidUsername username = true
  | sendfile params =>
      ∃ filename target size, Server.fields params = (some filename, some target, some size)
        ∧ Server.isValidUsername target = true

end Command

namespace Server

/-- What is received is not a command, or one without the arguments that it needs. -/
def Malformed (text : Text) : Prop := ∀ c, command text = some c → ¬ c.WellFormed

/-- The command is parsed in bounds, and if it is malformed it changes neither the rooms nor
the clients, and no request is queued. -/
def Handled (s : Server) (i : Slot) (text : Text) : Prop :=
  ∃ o, s.parse i (command text) = .ok o ∧ (Malformed text → o.server = s ∧ o.request = none)

/-- A command does not have the client leave a room, there is a space in `/whisper`, and the
username in `/sendfile` is not too long.  If there is no size in `/sendfile` the request would
be rejected anyway. -/
def Sound (s : Server) (i : Slot) : Option Command → Prop
  | some (.join roomName) =>
      (s.clients i).currentRoom = [] ∨ isValidRoomName roomName = false
        ∨ (s.clients i).currentRoom = roomName ∨ s.roomIsFull roomName = true
  | some .leave => (s.clients i).currentRoom = []
  | some (.whisper rest) => ' ' ∈ rest
  | some (.sendfile params) =>
      let filename := (fields params).1.getD []
      let target := (fields params).2.1.getD []
      target.length ≤ MAX_USERNAME_LEN
        ∧ ((fields params).2.2 = none → (s.clients i).username = target
          ∨ hasValidExtension filename = false
          ∨ ∀ j, (s.clients j).active = true → (s.clients j).username ≠ target)
  | none | some (.broadcast _) | some .exit => True

variable {s : Server} {i : Slot} {name text verb args : Text}

/-- The arguments of a command are part of what is received. -/
theorem of_verb_append (h : verb ++ args = text) (hterm : '\x00' ∉ text)
    (hlength : text.length < BUFFER_SIZE) :
  '\x00' ∉ args ∧ args.length < BUFFER_SIZE
  := by
  rw [← h] at hterm hlength
  rw [List.length_append] at hlength
  exact ⟨fun hmem => hterm (List.mem_append_right _ hmem), by omega⟩

theorem handled_join (s : Server) (i : Slot) (hterm : '\x00' ∉ name)
    (hlength : name.length < BUFFER_SIZE) :
  (∃ o, s.parseJoin i (name ++ ['\x00']) = .ok o
      ∧ (¬ isValidRoomName name = true → o.server = s ∧ o.request = none))
    ↔ Sound s i (some (.join name))
  := by
  rw [parseJoin_eq s i hterm hlength]
  split
  · rename_i hleaves
    obtain ⟨hvalid, hmoves, hfull, hroom⟩ := hleaves
    simp [Sound, hvalid, hmoves, hfull, hroom]
  · rename_i hstays
    constructor
    · intro _
      simp only [Sound]
      by_contra hunsound
      simp only [not_or, Bool.not_eq_false, Bool.not_eq_true] at hunsound
      exact hstays ⟨hunsound.2.1, hunsound.2.2.1, hunsound.2.2.2, hunsound.1⟩
    · intro _
      refine ⟨_, rfl, fun hinvalid => ⟨?_, rfl⟩⟩
      simp [Server.join, hinvalid]

theorem handled_leave (s : Server) (i : Slot) :
  (∃ o, s.parseLeave i = .ok o) ↔ (s.clients i).currentRoom = []
  := by
  rw [parseLeave_eq]
  split
  · rename_i hroom
    simp [hroom]
  · rename_i hroom
    simp [hroom]

theorem handled_whisper (s : Server) (i : Slot) (hterm : '\x00' ∉ text) :
  (∃ o, s.parseWhisper i (text ++ ['\x00']) = .ok o ∧ (¬ Command.WellFormed (.whisper text) →
      o.server = s ∧ o.request = none))
    ↔ ' ' ∈ text
  := by
  constructor
  · rintro ⟨o, ho, -⟩
    by_contra hspace
    rw [parseWhisper_eq_error s i hspace] at ho
    cases ho
  · intro hspace
    obtain ⟨sent, hsent⟩ := parseWhisper_ok s i hterm hspace
    exact ⟨_, hsent, fun _ => ⟨rfl, rfl⟩⟩

/-- A word is not empty. -/
theorem scanWord_ne_nil {word rest : Text} (h : scanWord text = some (word, rest)) :
  word ≠ []
  := by
  simp only [scanWord] at h
  split at h
  · cases h
  · rename_i hne
    cases h
    cases hdrop : text.dropWhile isSpace with
    | nil => simp [hdrop] at hne
    | cons c s =>
        have hc : isSpace c = false := by
          have hhead := List.head?_dropWhile_not isSpace text
          simpa [hdrop] using hhead
        simp [hc]

/-- The username of a request with a size is not empty. -/
theorem target_ne_nil (h : (fields text).2.2 ≠ none) :
  ∃ filename target size, fields text = (some filename, some target, some size) ∧ target ≠ []
  := by
  simp only [fields] at h ⊢
  cases hf : scanWord text with
  | none => simp [hf] at h
  | some p =>
      obtain ⟨filename, rest⟩ := p
      rw [hf] at h
      dsimp only at h ⊢
      cases ht : scanWord rest with
      | none => simp [ht] at h
      | some p =>
          obtain ⟨target, rest'⟩ := p
          rw [ht] at h
          dsimp only at h ⊢
          cases hn : (scanLong rest').map Prod.fst with
          | none => exact absurd hn h
          | some n => exact ⟨_, _, _, rfl, scanWord_ne_nil ht⟩

/-- The command `/sendfile` is in bounds and queues no request that is malformed. -/
theorem Named.handled_sendfile (h : Named s) (i : Slot) (hterm : '\x00' ∉ text)
    (hlength : text.length < BUFFER_SIZE) :
  (∃ o, s.parseSendfile i (text ++ ['\x00']) = .ok o
      ∧ (¬ Command.WellFormed (.sendfile text) → o.server = s ∧ o.request = none))
    ↔ Sound s i (some (.sendfile text))
  := by
  rw [parseSendfile_eq s i hterm hlength]
  by_cases hle : ((fields text).2.1.getD []).length ≤ MAX_USERNAME_LEN
  case neg => simp [hle, Sound]
  simp only [hle, if_true, Sound, true_and]
  cases hn : (fields text).2.2 with
  | none =>
      have hmalformed : ¬ Command.WellFormed (.sendfile text) := by
        rintro ⟨filename, target, size, hfields, -⟩
        rw [hfields] at hn
        cases hn
      have hzero := handleFileTransfer_zero s i ((fields text).1.getD [])
        ((fields text).2.1.getD [])
      rw [Option.getD_none]
      cases hresult : s.handleFileTransfer i ((fields text).1.getD [])
          ((fields text).2.1.getD []) 0 with
      | error reply =>
          have hrejected : ¬ ∃ receiver, s.handleFileTransfer i ((fields text).1.getD [])
              ((fields text).2.1.getD []) 0 = .ok receiver := by simp [hresult]
          rw [hzero] at hrejected
          constructor
          · intro _ _
            by_contra hall
            apply hrejected
            simpa using hall
          · intro _
            exact ⟨_, rfl, fun _ => ⟨rfl, rfl⟩⟩
      | ok receiver =>
          have haccepted := hzero.mp ⟨receiver, hresult⟩
          obtain ⟨hself, hext, j, hj, htarget⟩ := haccepted
          constructor
          · rintro ⟨o, ho, hunchanged⟩
            cases ho
            cases (hunchanged hmalformed).2
          · intro hrejected
            obtain hself' | hext' | hnone := hrejected rfl
            · exact absurd hself' hself
            · rw [hext] at hext'
              cases hext'
            · exact absurd htarget (hnone j hj)
  | some size =>
      simp only [reduceCtorEq, false_imp_iff, iff_true]
      cases hresult : s.handleFileTransfer i ((fields text).1.getD [])
          ((fields text).2.1.getD []) ((some size).getD 0) with
      | error reply => exact ⟨_, rfl, fun _ => ⟨rfl, rfl⟩⟩
      | ok receiver =>
          refine ⟨_, rfl, fun hmalformed => absurd ?_ hmalformed⟩
          have hsize : (fields text).2.2 ≠ none := by simp [hn]
          obtain ⟨filename, target, size', hfields, hne⟩ := target_ne_nil hsize
          refine ⟨filename, target, size', hfields, ?_⟩
          have hname := (of_handleFileTransfer hresult).2
          rw [hfields] at hname
          obtain hnil | hvalid := (h receiver).1
          · exact absurd (hname.symm.trans hnil) hne
          · rw [hname] at hvalid
            exact hvalid

theorem malformed_iff {c : Command} (h : command text = some c) :
  Malformed text ↔ ¬ c.WellFormed
  := by simp [Malformed, h]

/-- What is received in one call ends before a terminator. -/
theorem received_bounds {chunk : Text} (h : chunk.length < BUFFER_SIZE) :
  '\x00' ∉ received chunk ∧ (received chunk).length < BUFFER_SIZE
  := by
  refine ⟨fun hmem => ?_, (prefix_received chunk).length_le.trans_lt h⟩
  have hstring : '\x00' ∈ string chunk := (List.takeWhile_prefix _).subset hmem
  simpa using List.mem_takeWhile_imp hstring

theorem spacious_of_run {x : System}
    (h : ReflTransGen (fun x x' : System => x.Step x' ∧ x'.server.Spacious) .initial x) :
  x.server.Spacious
  := by
  cases h with
  | refl => exact fun _ => Nat.zero_le _
  | tail _ hstep => exact hstep.2

/-- In whatever order the handlers have taken steps, as long as no room has been overfull, a
command other than `/exit` that comes next is parsed in bounds, and changes nothing if it is
malformed, just if it is sound. -/
theorem handled_iff_sound (x : System)
    (h : ReflTransGen (fun x x' : System => x.Step x' ∧ x'.server.Spacious) .initial x) (i : Slot)
    (chunk : Text) (hlength : chunk.length < BUFFER_SIZE)
    (hexit : command (received chunk) ≠ some .exit) :
  Handled x.server i (received chunk) ↔ Sound x.server i (command (received chunk))
  := by
  have hreachable : x.Reachable := ReflTransGen.mono (fun _ _ h => h.1) _ _ h
  have hnamed := hreachable.named.1
  have hspacious := spacious_of_run h
  obtain ⟨hterm, hbound⟩ := received_bounds hlength
  generalize received chunk = text at hexit hterm hbound
  cases hcommand : command text with
  | none => simp [Handled, hcommand, parse, Sound]
  | some c =>
      have htext := text_eq hcommand
      rw [Handled, hcommand, malformed_iff hcommand]
      cases c with
      | join roomName =>
          obtain ⟨hterm', hbound'⟩ := of_verb_append htext hterm hbound
          exact handled_join x.server i hterm' hbound'
      | leave => simpa [parse, Command.WellFormed, Sound] using handled_leave x.server i
      | broadcast messageContent =>
          obtain ⟨hterm', -⟩ := of_verb_append htext hterm hbound
          simp [parse, hnamed.parseBroadcast_eq hspacious i hterm', Sound]
      | whisper rest =>
          obtain ⟨hterm', -⟩ := of_verb_append htext hterm hbound
          exact handled_whisper x.server i hterm'
      | sendfile params =>
          obtain ⟨hterm', hbound'⟩ := of_verb_append htext hterm hbound
          exact hnamed.handled_sendfile i hterm' hbound'
      | exit => exact absurd hcommand hexit

/-- A client that has logged in joins a room. -/
def seated : System :=
  ⟨occupied, [⟨0, .waiting, 4, 0⟩], Function.update (fun _ => none) 4 (some 0)⟩

theorem run_seated :
  ReflTransGen (fun x x' : System => x.Step x' ∧ x'.server.Spacious) .initial seated
  := by
  have hstep : ∀ {s s' : Server} {pc pc' : Pc} {descriptors : Int → Option Nat}, s'.Spacious →
      Handles 0 s pc s' pc' none →
      System.Step ⟨s, [⟨0, pc, 4, 0⟩], descriptors⟩ ⟨s', [⟨0, pc', 4, 0⟩], descriptors⟩
        ∧ s'.Spacious :=
    fun hs hh => ⟨System.step_alone _ hh, hs⟩
  have hempty : connected.Spacious := fun _ => Nat.zero_le _
  have hentered : System.entered.Spacious := fun _ => Nat.zero_le _
  have hoccupied : occupied.Spacious := by
    have hrooms : occupied.rooms = Function.update (Function.update initial.rooms 0
        ⟨"tea".toList, [], true⟩) 0 ⟨"tea".toList, [0], true⟩ := rfl
    intro r
    rw [hrooms, Function.update_idem]
    rcases eq_or_ne r 0 with rfl | hne
    · decide
    · rw [Function.update_of_ne hne]
      exact Nat.zero_le _
  have haccept : ReflTransGen (fun x x' : System => x.Step x' ∧ x'.server.Spacious)
      System.initial
      ⟨connected, [⟨0, .login, 4, 0⟩], Function.update (fun _ => none) 4 (some 0)⟩ :=
    .single ⟨.inl (@System.AcceptStep.of .initial 4 0 connected .login rfl rfl (.inl rfl)), hempty⟩
  have hnaming : Handles 0 connected .login connected (.naming "ada".toList) none :=
    .loginValid rfl
  have hjoin : Handles 0 System.entered .waiting System.entered (.joining "tea".toList) none :=
    .join rfl
  have hinserted : Handles 0 System.entered (.inserting "tea".toList false) occupied .loop none :=
    @Handles.inserted 0 System.entered "tea".toList false occupied [] rfl
  have hloop := (haccept.tail (hstep hempty hnaming)).tail (hstep hentered (.accepted rfl))
  have hjoining := (hloop.tail (hstep hentered (.active rfl))).tail (hstep hentered hjoin)
  have hpassed := (hjoining.tail (hstep hentered (.elsewhere (by decide)))).tail
    (hstep hentered (.notFull rfl))
  have hinserting := (hpassed.tail (hstep hentered .looked)).tail
    (hstep hentered (.wasInNoRoom (by decide)))
  exact (hinserting.tail (hstep hoccupied hinserted)).tail (hstep hoccupied (.active rfl))

theorem handled_iff_sound_seated :
  Handled seated.server 0 (received "/whisper bob hello".toList)
  := (handled_iff_sound seated run_seated 0 "/whisper bob hello".toList (by decide)
    (by decide)).mpr (by decide : ' ' ∈ "bob hello".toList)

/-- A client that is in a room whispers to nobody, leaves the room, and names a user in twenty
letters. -/
theorem not_handled_seated :
  seated.Reachable
    ∧ seated.server.parse 0 (command "/whisper bob".toList) = .error .nullPointer
    ∧ seated.server.parse 0 (command "/leave".toList) = .error .writeOutside
    ∧ seated.server.parse 0 (command "/sendfile a.txt aaaaaaaaaaaaaaaaaaaa 1".toList)
      = .error .writeOutside
    ∧ ¬ Handled seated.server 0 (received "/whisper bob".toList)
  := by
  refine ⟨ReflTransGen.mono (fun _ _ h => h.1) _ _ run_seated, by rfl, by rfl, ?_, ?_⟩
  · exact parseSendfile_eq seated.server 0 (by decide) (by decide)
  · rintro ⟨o, ho, -⟩
    cases ho

end Server

end ChatServer
