import Homeworks.ChatServer.Server
import Homeworks.Table.Entries
import Mathlib.Logic.Relation

/-!
# Membership in rooms

That a client is in a room is stored twice: in the room and in the client.  When the
handlers of the server run one at a time the two agree, and no room is empty, overfull or
there twice.
-/

open Relation

namespace ChatServer

namespace Server

/-! ### The loop of `leave_room` -/

theorem removeUser_eq (client : Slot) (before users notify : List Slot) (fuel : Nat)
    (hf : users.length ≤ fuel) :
  removeUser client fuel before.length (before ++ users) notify
    = (before ++ users.filter (· ≠ client), notify ++ users.filter (· ≠ client))
  := by
  induction users generalizing before notify fuel with
  | nil =>
      cases fuel with
      | zero => simp [removeUser]
      | succ fuel => simp [removeUser]
  | cons user users ih =>
      cases fuel with
      | zero => cases hf
      | succ fuel =>
          have hf' : users.length ≤ fuel := Nat.le_of_succ_le_succ hf
          have hget : (before ++ user :: users)[before.length]? = some user := by simp
          simp only [removeUser, hget]
          split
          · rename_i hu
            have herase : (before ++ user :: users).eraseIdx before.length = before ++ users := by
              rw [List.eraseIdx_append_of_length_le le_rfl]
              simp
            rw [herase, ih before notify fuel hf']
            simp [hu]
          · rename_i hu
            have hshift : before ++ user :: users = (before ++ [user]) ++ users := by simp
            have hlength : before.length + 1 = (before ++ [user]).length := by simp
            rw [hshift, hlength, ih _ _ fuel hf']
            simp [hu]

/-- All occurrences of the client are removed, and all other users are notified. -/
theorem removeUser_all (client : Slot) (users : List Slot) :
  removeUser client users.length 0 users []
    = (users.filter (· ≠ client), users.filter (· ≠ client))
  := by
  apply removeUser_eq client [] users [] users.length le_rfl

/-! ### The invariant -/

/-- The rooms agree with the clients. -/
structure Consistent (s : Server) : Prop where
  occupied : ∀ r, (s.rooms r).active = true → 1 ≤ (s.rooms r).users.length
  capacity : ∀ r, (s.rooms r).active = true → (s.rooms r).users.length ≤ MAX_USERS_PER_ROOM
  named : ∀ r, (s.rooms r).active = true → (s.rooms r).name ≠ []
  distinct : ∀ r r', (s.rooms r).active = true → (s.rooms r').active = true →
    (s.rooms r).name = (s.rooms r').name → r = r'
  nodup : ∀ r, (s.rooms r).active = true → (s.rooms r).users.Nodup
  listed : ∀ r, (s.rooms r).active = true → ∀ i,
    i ∈ (s.rooms r).users ↔ (s.clients i).active = true
      ∧ (s.clients i).currentRoom = (s.rooms r).name
  hosted : ∀ i, (s.clients i).active = true → (s.clients i).currentRoom ≠ [] →
    ∃ r, (s.rooms r).active = true ∧ (s.rooms r).name = (s.clients i).currentRoom
  roomCount : s.roomCount = (Table.used fun r => (s.rooms r).active).card
  clientCount : s.clientCount = (Table.used fun i => (s.clients i).active).card
  usernames : ∀ i j, (s.clients i).active = true → (s.clients j).active = true →
    (s.clients i).username = (s.clients j).username → (s.clients i).username ≠ [] → i = j

theorem consistent_initial :
  Consistent initial
  := by
  constructor
  case roomCount => rfl
  case clientCount => rfl
  case distinct | usernames =>
    intro i j h
    cases h
  all_goals
    intro i h
    cases h

/-! ### Leaving a room -/

variable {s : Server} {i : Slot} {name : Text}

/-- The room that is found is active and has the name. -/
theorem of_findRoom {r : Fin MAX_ROOMS} (h : s.findRoom name = some r) :
  (s.rooms r).active = true ∧ (s.rooms r).name = name
  := by
  have h' := Table.of_find h
  simpa using h'

theorem of_not_findRoom (h : s.findRoom name = none) (r : Fin MAX_ROOMS) :
  (s.rooms r).active = true → (s.rooms r).name ≠ name
  := by
  have h' := Table.of_not_find h r
  simpa using h'

/-- The client of a consistent server is found in the room that it is in. -/
theorem Consistent.findRoom (h : Consistent s) {r : Fin MAX_ROOMS}
    (hr : (s.rooms r).active = true) :
  s.findRoom (s.rooms r).name = some r
  := by
  apply Table.find_eq
  · simp [hr]
  · intro r' hr'
    simp only [Bool.and_eq_true, decide_eq_true_eq] at hr'
    apply h.distinct r' r hr'.1 hr hr'.2

/-- `s'` is `s` after the client `i` has left the room `r`. -/
structure Left (s s' : Server) (i : Slot) (r : Fin MAX_ROOMS) : Prop where
  rooms : ∀ r', r' ≠ r → s'.rooms r' = s.rooms r'
  name : (s'.rooms r).name = (s.rooms r).name
  users : (s'.rooms r).users = (s.rooms r).users.filter (· ≠ i)
  active : (s'.rooms r).active = true ↔ (s'.rooms r).users ≠ []
  roomCount : s'.roomCount = if (s'.rooms r).users = [] then s.roomCount - 1 else s.roomCount
  clients : ∀ j, j ≠ i → s'.clients j = s.clients j
  client : s'.clients i = { s.clients i with currentRoom := [] }
  clientCount : s'.clientCount = s.clientCount

/-- A client leaves the room that is found. -/
theorem left_leaveRegion {r : Fin MAX_ROOMS} (hf : s.findRoom name = some r) (i : Slot) :
  Left s (s.leaveRegion i name).1 i r
  := by
  obtain ⟨hr, -⟩ := of_findRoom hf
  simp only [Server.leaveRegion, hf, removeUser_all, List.length_eq_zero_iff]
  generalize hu : (s.rooms r).users.filter (· ≠ i) = users
  split
  · rename_i hnil
    constructor <;> simp +contextual only [setClient, setRoom, Function.update_self,
      Function.update_of_ne, hu, hnil, ne_eq, not_true, if_true, Bool.false_eq_true, implies_true,
      not_false_iff]
  · rename_i hne
    constructor <;> simp +contextual only [setClient, setRoom, Function.update_self,
      Function.update_of_ne, hu, hne, hr, ne_eq, if_false, not_false_iff, implies_true]

/-- A client has left the room that it was in. -/
theorem Left.consistent {s' : Server} {r : Fin MAX_ROOMS} (hl : Left s s' i r) (h : Consistent s)
    (hr : (s.rooms r).active = true) (hi : (s.clients i).currentRoom = (s.rooms r).name) :
  Consistent s'
  := by
  have hactive : ∀ r', (s'.rooms r').active = true → (s.rooms r').active = true := by
    intro r' hr'
    rcases eq_or_ne r' r with rfl | hne
    · apply hr
    · rwa [hl.rooms r' hne] at hr'
  have hname : ∀ r', (s'.rooms r').name = (s.rooms r').name := by
    intro r'
    rcases eq_or_ne r' r with rfl | hne
    · apply hl.name
    · rw [hl.rooms r' hne]
  have hclient : ∀ j, (s'.clients j).active = (s.clients j).active
      ∧ (s'.clients j).username = (s.clients j).username := by
    intro j
    rcases eq_or_ne j i with rfl | hne
    · rw [hl.client]
      exact ⟨rfl, rfl⟩
    · rw [hl.clients j hne]
      exact ⟨rfl, rfl⟩
  constructor
  case occupied =>
    intro r' hr'
    rcases eq_or_ne r' r with rfl | hne
    · apply List.length_pos_iff.mpr (hl.active.mp hr')
    · rw [hl.rooms r' hne] at hr' ⊢
      apply h.occupied r' hr'
  case capacity =>
    intro r' hr'
    rcases eq_or_ne r' r with rfl | hne
    · rw [hl.users]
      apply (List.length_filter_le _ _).trans (h.capacity r' hr)
    · rw [hl.rooms r' hne] at hr' ⊢
      apply h.capacity r' hr'
  case named =>
    intro r' hr'
    rw [hname]
    apply h.named r' (hactive r' hr')
  case distinct =>
    intro r₁ r₂ h₁ h₂ hn
    rw [hname, hname] at hn
    apply h.distinct r₁ r₂ (hactive r₁ h₁) (hactive r₂ h₂) hn
  case nodup =>
    intro r' hr'
    rcases eq_or_ne r' r with rfl | hne
    · rw [hl.users]
      apply (h.nodup r' hr).filter
    · rw [hl.rooms r' hne] at hr' ⊢
      apply h.nodup r' hr'
  case listed =>
    intro r' hr' j
    have hlisted := h.listed r' (hactive r' hr') j
    rw [hname]
    rcases eq_or_ne j i with rfl | hj
    · have hnot : j ∉ (s'.rooms r').users := by
        rcases eq_or_ne r' r with rfl | hne
        · simp [hl.users]
        · rw [hl.rooms r' hne] at hr' ⊢
          rw [hlisted, hi]
          rintro ⟨-, hn⟩
          apply hne (h.distinct r r' hr hr' hn).symm
      simp only [hnot, false_iff, not_and, hl.client]
      intro _ hn
      apply h.named r' (hactive r' hr') hn.symm
    · rw [hl.clients j hj, ← hlisted]
      rcases eq_or_ne r' r with rfl | hne
      · simp [hl.users, hj]
      · rw [hl.rooms r' hne]
  case hosted =>
    intro j hj hn
    rcases eq_or_ne j i with rfl | hne
    · rw [hl.client] at hn
      cases hn rfl
    · rw [hl.clients j hne] at hj hn ⊢
      obtain ⟨r', hr', hn'⟩ := h.hosted j hj hn
      refine ⟨r', ?_, by rw [hname, hn']⟩
      rcases eq_or_ne r' r with rfl | hner
      · apply hl.active.mpr
        rw [hl.users]
        have hmem : j ∈ (s.rooms r').users := (h.listed r' hr' j).mpr ⟨hj, hn'.symm⟩
        apply List.ne_nil_of_mem (List.mem_filter.mpr ⟨hmem, by simpa using hne⟩)
      · rw [hl.rooms r' hner, hr']
  case roomCount =>
    have hcard := Table.card_used (p := fun r => (s.rooms r).active)
      (q := fun r => (s'.rooms r).active) (i := r) fun r' hne => by rw [hl.rooms r' hne]
    rw [hl.roomCount, h.roomCount]
    split
    · rename_i hu
      have hfree : (s'.rooms r).active = false := by
        rw [← Bool.not_eq_true, hl.active, not_not]
        apply hu
      simp only [hr, hfree, Bool.toNat_true, Bool.toNat_false] at hcard
      omega
    · rename_i hu
      simp only [hr, hl.active.mpr hu, Bool.toNat_true] at hcard
      omega
  case clientCount =>
    rw [hl.clientCount, h.clientCount, ← funext fun j => (hclient j).1]
  case usernames =>
    intro j k hj hk hu hne
    rw [(hclient _).1] at hj hk
    rw [(hclient _).2] at hu hne
    rw [(hclient _).2] at hu
    apply h.usernames j k hj hk hu hne

/-- A client that is in a room leaves it. -/
theorem Consistent.leaveRoom (h : Consistent s) (ha : (s.clients i).active = true)
    (hc : (s.clients i).currentRoom ≠ []) :
  ∃ r, (s.rooms r).active = true ∧ (s.rooms r).name = (s.clients i).currentRoom
    ∧ Left s (s.leaveRoom i).1 i r
  := by
  obtain ⟨r, hr, hn⟩ := h.hosted i ha hc
  refine ⟨r, hr, hn, ?_⟩
  apply left_leaveRegion
  rw [← hn]
  apply h.findRoom hr

/-! ### Joining a room -/

/-- The rooms of `s'` are those of `s` after the client `i` has joined the room `r`, which
has been found or created. -/
structure Admitted (s s' : Server) (i : Slot) (r : Fin MAX_ROOMS) (name : Text) : Prop where
  rooms : ∀ r', r' ≠ r → s'.rooms r' = s.rooms r'
  roomName : (s'.rooms r).name = name
  active : (s'.rooms r).active = true
  users : ((s.rooms r).active = true ∧ (s.rooms r).name = name
      ∧ (s'.rooms r).users = (s.rooms r).users ++ [i] ∧ s'.roomCount = s.roomCount)
    ∨ ((s.rooms r).active = false
      ∧ (∀ r', (s.rooms r').active = true → (s.rooms r').name ≠ name)
      ∧ (s'.rooms r).users = [i] ∧ s'.roomCount = s.roomCount + 1)

/-- `s'` is `s` after the client `i` has joined the room `r`. -/
structure Joined (s s' : Server) (i : Slot) (r : Fin MAX_ROOMS) (name : Text) : Prop extends
    Admitted s s' i r name where
  clients : ∀ j, j ≠ i → s'.clients j = s.clients j
  clientActive : (s'.clients i).active = (s.clients i).active
  clientUsername : (s'.clients i).username = (s.clients i).username
  clientRoom : (s'.clients i).currentRoom = name.take MAX_ROOM_NAME_LEN
  clientCount : s'.clientCount = s.clientCount

theorem joined_joinRegion {s' : Server} {sockets : List (Option Int)} {rejoining : Bool}
    (h : s.joinRegion i name rejoining = some (s', sockets)) :
  ∃ r, Joined s s' i r name
  := by
  simp only [joinRegion] at h
  cases hf : s.findRoom name with
  | some r =>
      obtain ⟨hr, hname⟩ := of_findRoom hf
      rw [hf] at h
      cases h
      use r
      constructor
      case toAdmitted => constructor <;> simp +contextual [addUser, setClient, setRoom, hr, hname]
      all_goals simp +contextual [addUser, setClient, setRoom]
  | none =>
      rw [hf] at h
      simp only [createRoom] at h
      cases hfree : (List.finRange MAX_ROOMS).find? fun r => !(s.rooms r).active with
      | none =>
          rw [hfree] at h
          cases h
      | some r =>
          have hr : (s.rooms r).active = false := by simpa using Table.of_find hfree
          have hnone := of_not_findRoom hf
          rw [hfree] at h
          cases h
          use r
          constructor
          case toAdmitted =>
            constructor
            case users =>
              right
              refine ⟨hr, hnone, ?_, ?_⟩
              · simp [addUser, setClient, setRoom]
              · simp [addUser, setClient, setRoom]
            all_goals simp +contextual [addUser, setClient, setRoom]
          all_goals simp +contextual [addUser, setClient, setRoom]

/-- A client that was in no room has joined a room that was not full. -/
theorem Joined.consistent {s' : Server} {r : Fin MAX_ROOMS} (hj : Joined s s' i r name)
    (h : Consistent s) (ha : (s.clients i).active = true)
    (hi : (s.clients i).currentRoom = []) (hn : name ≠ []) (hlen : name.length ≤ MAX_ROOM_NAME_LEN)
    (hfull : ∀ r', (s.rooms r').active = true → (s.rooms r').name = name →
      (s.rooms r').users.length < MAX_USERS_PER_ROOM) :
  Consistent s'
  := by
  have hroom : (s'.clients i).currentRoom = name := by
    rw [hj.clientRoom, List.take_of_length_le hlen]
  have hother : ∀ r', r' ≠ r → (s'.rooms r').active = true →
      (s.rooms r').active = true ∧ (s.rooms r').name ≠ name := by
    intro r' hne hr'
    rw [hj.rooms r' hne] at hr'
    refine ⟨hr', ?_⟩
    obtain ⟨hr, hname, -⟩ | ⟨-, hnone, -⟩ := hj.users
    · intro hname'
      apply hne (h.distinct r' r hr' hr (hname'.trans hname.symm))
    · apply hnone r' hr'
  have hclient : ∀ j, (s'.clients j).active = (s.clients j).active
      ∧ (s'.clients j).username = (s.clients j).username := by
    intro j
    rcases eq_or_ne j i with rfl | hne
    · exact ⟨hj.clientActive, hj.clientUsername⟩
    · rw [hj.clients j hne]
      exact ⟨rfl, rfl⟩
  have hnot : ∀ r', (s.rooms r').active = true → i ∉ (s.rooms r').users := by
    intro r' hr' hmem
    rw [h.listed r' hr', hi] at hmem
    apply h.named r' hr' hmem.2.symm
  constructor
  case occupied =>
    intro r' hr'
    rcases eq_or_ne r' r with rfl | hne
    · obtain ⟨-, -, hu, -⟩ | ⟨-, -, hu, -⟩ := hj.users
      · simp [hu]
      · simp [hu]
    · rw [hj.rooms r' hne]
      apply h.occupied r' (hother r' hne hr').1
  case capacity =>
    intro r' hr'
    rcases eq_or_ne r' r with rfl | hne
    · obtain ⟨hr, hname, hu, -⟩ | ⟨-, -, hu, -⟩ := hj.users
      · rw [hu, List.length_append]
        apply hfull r' hr hname
      · simp [hu, MAX_USERS_PER_ROOM]
    · rw [hj.rooms r' hne]
      apply h.capacity r' (hother r' hne hr').1
  case named =>
    intro r' hr'
    rcases eq_or_ne r' r with rfl | hne
    · rw [hj.roomName]
      apply hn
    · rw [hj.rooms r' hne]
      apply h.named r' (hother r' hne hr').1
  case distinct =>
    intro r₁ r₂ h₁ h₂ hname
    rcases eq_or_ne r₁ r with rfl | hne₁
    · rcases eq_or_ne r₂ r₁ with rfl | hne₂
      · rfl
      · rw [hj.roomName, hj.rooms r₂ hne₂] at hname
        exact absurd hname.symm (hother r₂ hne₂ h₂).2
    · rcases eq_or_ne r₂ r with rfl | hne₂
      · rw [hj.roomName, hj.rooms r₁ hne₁] at hname
        exact absurd hname (hother r₁ hne₁ h₁).2
      · rw [hj.rooms r₁ hne₁, hj.rooms r₂ hne₂] at hname
        apply h.distinct r₁ r₂ (hother r₁ hne₁ h₁).1 (hother r₂ hne₂ h₂).1 hname
  case nodup =>
    intro r' hr'
    rcases eq_or_ne r' r with rfl | hne
    · obtain ⟨hr, -, hu, -⟩ | ⟨-, -, hu, -⟩ := hj.users
      · rw [hu, List.nodup_append_comm, List.singleton_append, List.nodup_cons]
        exact ⟨hnot r' hr, h.nodup r' hr⟩
      · simp [hu]
    · rw [hj.rooms r' hne]
      apply h.nodup r' (hother r' hne hr').1
  case listed =>
    intro r' hr' j
    rw [(hclient j).1]
    rcases eq_or_ne j i with rfl | hji
    · rw [hroom]
      rcases eq_or_ne r' r with rfl | hne
      · have hmem : j ∈ (s'.rooms r').users := by
          obtain ⟨-, -, hu, -⟩ | ⟨-, -, hu, -⟩ := hj.users
          · simp [hu]
          · simp [hu]
        simp [hmem, ha, hj.roomName]
      · obtain ⟨hr, hname⟩ := hother r' hne hr'
        rw [hj.rooms r' hne]
        simp [hnot r' hr, hname.symm]
    · rw [hj.clients j hji]
      rcases eq_or_ne r' r with rfl | hne
      · rw [hj.roomName]
        obtain ⟨hr, hname, hu, -⟩ | ⟨-, hnone, hu, -⟩ := hj.users
        · rw [hu, ← hname, ← h.listed r' hr]
          simp [hji]
        · rw [hu]
          have hnotIn : ¬ ((s.clients j).active = true ∧ (s.clients j).currentRoom = name) := by
            rintro ⟨hja, hjn⟩
            obtain ⟨r₀, hr₀, hn₀⟩ := h.hosted j hja (by rw [hjn]; apply hn)
            apply hnone r₀ hr₀ (hn₀.trans hjn)
          simp [hji, hnotIn]
      · obtain ⟨hr, -⟩ := hother r' hne hr'
        rw [hj.rooms r' hne, h.listed r' hr]
  case hosted =>
    intro j hja hjn
    rcases eq_or_ne j i with rfl | hji
    · use r, hj.active
      rw [hj.roomName, hroom]
    · rw [(hclient j).1] at hja
      rw [hj.clients j hji] at hjn ⊢
      obtain ⟨r₀, hr₀, hn₀⟩ := h.hosted j hja hjn
      rcases eq_or_ne r₀ r with rfl | hne
      · use r₀, hj.active
        obtain ⟨-, hname, -⟩ | ⟨hr, -⟩ := hj.users
        · rw [hj.roomName, ← hname, hn₀]
        · rw [hr] at hr₀
          cases hr₀
      · use r₀
        rw [hj.rooms r₀ hne]
        exact ⟨hr₀, hn₀⟩
  case roomCount =>
    have hcard := Table.card_used (p := fun r => (s.rooms r).active)
      (q := fun r => (s'.rooms r).active) (i := r) fun r' hne => by rw [hj.rooms r' hne]
    rw [hj.active] at hcard
    obtain ⟨hr, -, -, hcount⟩ | ⟨hr, -, -, hcount⟩ := hj.users
    · rw [hr] at hcard
      rw [hcount, h.roomCount]
      omega
    · simp only [hr, Bool.toNat_true, Bool.toNat_false] at hcard
      rw [hcount, h.roomCount]
      omega
  case clientCount =>
    rw [hj.clientCount, h.clientCount, ← funext fun j => (hclient j).1]
  case usernames =>
    intro j k hja hka hu hne
    rw [(hclient _).1] at hja hka
    rw [(hclient _).2] at hu hne
    rw [(hclient _).2] at hu
    apply h.usernames j k hja hka hu hne

/-! ### Changing a client -/

/-- The entry of a client is changed, but not what room it is in. -/
theorem Consistent.ofClient {s' : Server} (h : Consistent s) (hrooms : s'.rooms = s.rooms)
    (hroomCount : s'.roomCount = s.roomCount) (hclients : ∀ j, j ≠ i → s'.clients j = s.clients j)
    (hmember : ∀ name, name ≠ [] →
      ((s'.clients i).active = true ∧ (s'.clients i).currentRoom = name
        ↔ (s.clients i).active = true ∧ (s.clients i).currentRoom = name))
    (hcount : s'.clientCount + ((s.clients i).active.toNat : Int)
      = s.clientCount + ((s'.clients i).active.toNat : Int))
    (huser : (s'.clients i).active = true → (s'.clients i).username ≠ [] →
      ∀ j, j ≠ i → (s.clients j).active = true → (s.clients j).username ≠ (s'.clients i).username) :
  Consistent s'
  := by
  have hin : ∀ j name, name ≠ [] →
      ((s'.clients j).active = true ∧ (s'.clients j).currentRoom = name
        ↔ (s.clients j).active = true ∧ (s.clients j).currentRoom = name) := by
    intro j name hn
    rcases eq_or_ne j i with rfl | hne
    · apply hmember name hn
    · rw [hclients j hne]
  constructor
  case occupied =>
    rw [hrooms]
    apply h.occupied
  case capacity =>
    rw [hrooms]
    apply h.capacity
  case named =>
    rw [hrooms]
    apply h.named
  case distinct =>
    rw [hrooms]
    apply h.distinct
  case nodup =>
    rw [hrooms]
    apply h.nodup
  case listed =>
    intro r hr j
    rw [hrooms] at hr ⊢
    rw [h.listed r hr, hin j _ (h.named r hr)]
  case hosted =>
    intro j hj hn
    rw [hrooms]
    obtain ⟨hj', hn'⟩ := (hin j _ hn).mp ⟨hj, rfl⟩
    rw [← hn'] at hn ⊢
    apply h.hosted j hj' hn
  case roomCount => rw [hroomCount, h.roomCount, hrooms]
  case clientCount =>
    have hcard := Table.card_used (p := fun j => (s.clients j).active)
      (q := fun j => (s'.clients j).active) (i := i) fun j hne => by rw [hclients j hne]
    rw [h.clientCount] at hcount
    omega
  case usernames =>
    intro j k hj hk hu hne
    rcases eq_or_ne j i with rfl | hji
    · rcases eq_or_ne k j with rfl | hki
      · rfl
      · rw [hclients k hki] at hk hu
        exact absurd hu.symm (huser hj hne k hki hk)
    · rcases eq_or_ne k i with rfl | hki
      · rw [hclients j hji] at hj hu hne
        rw [hu] at hne
        exact absurd hu (huser hk hne j hji hj)
      · rw [hclients j hji] at hj hu hne
        rw [hclients k hki] at hk hu
        apply h.usernames j k hj hk hu hne

theorem Consistent.connect {s' : Server} {socket : Int} (h : Consistent s)
    (hc : s.connect socket = some (i, s')) :
  Consistent s'
  := by
  unfold Server.connect at hc
  split at hc
  · cases hc
  · rename_i j hfind
    have hfree : (s.clients j).active = false := by simpa using Table.of_find hfind
    cases hc
    refine h.ofClient (i := i) rfl rfl ?_ ?_ ?_ ?_
    · intro j hne
      simp [setClient, hne]
    · intro name hn
      simp [setClient, hfree, hn.symm]
    · simp [setClient, hfree]
    · simp [setClient]

theorem Consistent.login (h : Consistent s) (buffer : Text) :
  Consistent (s.login i buffer).1
  := by
  unfold Server.login
  split
  · apply h
  · split
    · apply h
    · rename_i htaken
      refine h.ofClient (i := i) rfl rfl ?_ ?_ ?_ ?_
      · intro j hne
        simp [setClient, hne]
      · simp [setClient]
      · simp [setClient]
      · intro _ _ j _ hja
        simp only [usernameTaken, List.any_eq_true, Bool.and_eq_true, decide_eq_true_eq,
          not_exists, not_and] at htaken
        have := htaken j (List.mem_finRange j) hja
        simpa [setClient] using this

/-- A client that is in no room is cleaned up. -/
theorem Consistent.deactivate (h : Consistent s) (ha : (s.clients i).active = true)
    (hi : (s.clients i).currentRoom = []) :
  Consistent { s.setClient i { s.clients i with
      active := false
      username := []
      currentRoom := [] } with
    clientCount := s.clientCount - 1 }
  := by
  refine h.ofClient (i := i) rfl rfl ?_ ?_ ?_ ?_
  · intro j hne
    simp [setClient, hne]
  · intro name hn
    simp [setClient, hi, hn.symm]
  · simp [setClient, ha]
  · simp [setClient]

/-! ### The handlers -/

/-- A client of a consistent server leaves the room that it is in, if any. -/
theorem Consistent.leaveRoomIf (h : Consistent s) (ha : (s.clients i).active = true) :
  let s' := (if (s.clients i).currentRoom.length > 0 then s.leaveRoom i else (s, [])).1
  Consistent s' ∧ (s'.clients i).active = true ∧ (s'.clients i).currentRoom = []
    ∧ (∀ r', (s'.rooms r').active = true → (s.rooms r').active = true
      ∧ (s'.rooms r').name = (s.rooms r').name
      ∧ (s'.rooms r').users.length ≤ (s.rooms r').users.length)
  := by
  split
  · rename_i hc
    obtain ⟨r, hr, hn, hl⟩ := h.leaveRoom ha (List.length_pos_iff.mp hc)
    refine ⟨hl.consistent h hr hn.symm, by rw [hl.client]; exact ha, by rw [hl.client], ?_⟩
    intro r' hr'
    rcases eq_or_ne r' r with rfl | hne
    · refine ⟨hr, hl.name, ?_⟩
      rw [hl.users]
      apply List.length_filter_le
    · rw [hl.rooms r' hne] at hr' ⊢
      exact ⟨hr', rfl, le_rfl⟩
  · rename_i hc
    refine ⟨h, ha, ?_, fun r' hr' => ⟨hr', rfl, le_rfl⟩⟩
    apply List.eq_nil_of_length_eq_zero
    apply Nat.le_zero.mp (Nat.not_lt.mp hc)

theorem Consistent.join (h : Consistent s) (ha : (s.clients i).active = true) (name : Text) :
  Consistent (s.join i name).1
  := by
  unfold Server.join
  split
  · apply h
  · rename_i hvalid
    split
    · apply h
    · split
      · apply h
      · rename_i hfull
        have hname := of_isValidRoomName (by simpa using hvalid)
        obtain ⟨hs, hsa, hsi, hsub⟩ := h.leaveRoomIf ha
        generalize hg : (if (s.clients i).currentRoom.length > 0 then s.leaveRoom i else (s, []))
          = g at hs hsa hsi hsub
        simp only [joinRoom, hg]
        cases hj : g.1.joinRegion i name (s.rejoining i name) with
        | none => apply hs
        | some p =>
            obtain ⟨r, hjoined⟩ := joined_joinRegion hj
            apply hjoined.consistent hs hsa hsi hname.1 hname.2
            intro r' hr' hn'
            obtain ⟨hr, hn, hle⟩ := hsub r' hr'
            have hlt : (s.rooms r').users.length < MAX_USERS_PER_ROOM := by
              simp only [roomIsFull, ← hn', hn, h.findRoom hr, Room.full,
                decide_eq_true_eq] at hfull
              omega
            omega

theorem Consistent.leave (h : Consistent s) (ha : (s.clients i).active = true) :
  Consistent (s.leave i).1
  := by
  unfold Server.leave
  split
  · apply h
  · rename_i hc
    obtain ⟨r, hr, hn, hl⟩ := h.leaveRoom ha fun hnil => hc (by rw [hnil]; rfl)
    apply hl.consistent h hr hn.symm

theorem Consistent.cleanupClient (h : Consistent s) (i : Slot) :
  Consistent (s.cleanupClient i).1
  := by
  unfold Server.cleanupClient
  split
  · apply h
  · rename_i ha
    obtain ⟨hs, hsa, hsi, -⟩ := h.leaveRoomIf (i := i) (by simpa using ha)
    apply hs.deactivate hsa hsi

theorem Consistent.exit (h : Consistent s) (i : Slot) :
  Consistent (s.exit i).1
  := h.cleanupClient i

theorem Consistent.disconnect (h : Consistent s) (i : Slot) :
  Consistent (s.disconnect i).1
  := (h.cleanupClient i).cleanupClient i

/-! ### Runs -/

/-- A handler runs to completion.  Before the username of a client is accepted its handler
waits for a username, and afterwards for commands. -/
inductive Step (s : Server) : Server → Prop where
  | connect {i : Slot} {s' : Server} {socket : Int} (h : s.connect socket = some (i, s')) :
    Step s s'
  | login (i : Slot) (buffer : Text) (ha : (s.clients i).active = true)
      (hu : (s.clients i).username = []) : Step s (s.login i buffer).1
  | join (i : Slot) (name : Text) (ha : (s.clients i).active = true)
      (hu : (s.clients i).username ≠ []) : Step s (s.join i name).1
  | leave (i : Slot) (ha : (s.clients i).active = true) (hu : (s.clients i).username ≠ []) :
    Step s (s.leave i).1
  | exit (i : Slot) (ha : (s.clients i).active = true) (hu : (s.clients i).username ≠ []) :
    Step s (s.exit i).1
  | disconnect (i : Slot) (ha : (s.clients i).active = true) : Step s (s.disconnect i).1

theorem Consistent.step {s' : Server} (h : Consistent s) (hstep : Step s s') :
  Consistent s'
  := by
  cases hstep with
  | connect hc => apply h.connect hc
  | login i buffer => apply h.login
  | join i name ha => apply h.join ha
  | leave i ha => apply h.leave ha
  | exit i => apply h.exit
  | disconnect i => apply h.disconnect

/-- The servers that are reached from the start. -/
def Reachable (s : Server) : Prop := ReflTransGen Step initial s

theorem Reachable.consistent (h : Reachable s) :
  Consistent s
  := by
  induction h with
  | refl => apply consistent_initial
  | tail _ hstep ih => apply ih.step hstep

/-- In the servers that are reached the rooms agree with the clients. -/
theorem rooms_agree_with_clients (s : Server) (h : Reachable s) :
  (∀ r, (s.rooms r).active = true →
      1 ≤ (s.rooms r).users.length ∧ (s.rooms r).users.length ≤ MAX_USERS_PER_ROOM)
    ∧ s.roomCount = (Finset.univ.filter fun r => (s.rooms r).active).card
    ∧ (∀ r r', (s.rooms r).active = true → (s.rooms r').active = true → r ≠ r' →
      (s.rooms r).name ≠ (s.rooms r').name)
    ∧ (∀ r, (s.rooms r).active = true → (s.rooms r).users.Nodup)
    ∧ (∀ i name, name ≠ [] →
      ((∃ r, (s.rooms r).active = true ∧ (s.rooms r).name = name ∧ i ∈ (s.rooms r).users)
        ↔ (s.clients i).active = true ∧ (s.clients i).currentRoom = name))
    ∧ (∀ i r r', (s.rooms r).active = true → i ∈ (s.rooms r).users → (s.rooms r').active = true →
      i ∈ (s.rooms r').users → r = r')
    ∧ s.clientCount = (Finset.univ.filter fun i => (s.clients i).active).card
    ∧ (∀ i j, (s.clients i).active = true → (s.clients j).active = true → i ≠ j →
      (s.clients i).username ≠ [] → (s.clients i).username ≠ (s.clients j).username)
  := by
  have hs := h.consistent
  refine ⟨fun r hr => ⟨hs.occupied r hr, hs.capacity r hr⟩, hs.roomCount, ?_, hs.nodup, ?_, ?_,
    hs.clientCount, ?_⟩
  · intro r r' hr hr' hne hn
    apply hne (hs.distinct r r' hr hr' hn)
  · intro i name hn
    constructor
    · rintro ⟨r, hr, rfl, hmem⟩
      apply (hs.listed r hr i).mp hmem
    · rintro ⟨hi, rfl⟩
      obtain ⟨r, hr, hrn⟩ := hs.hosted i hi hn
      use r, hr, hrn
      apply (hs.listed r hr i).mpr ⟨hi, hrn.symm⟩
  · intro i r r' hr hmem hr' hmem'
    apply hs.distinct r r' hr hr'
    rw [← ((hs.listed r hr i).mp hmem).2, ← ((hs.listed r' hr' i).mp hmem').2]
  · intro i j hi hj hne hu hn
    apply hne (hs.usernames i j hi hj hn hu)

/-- A server with a client that has just been put into an entry. -/
def connected : Server :=
  { initial.setClient 0 ⟨4, [], [], [], true, []⟩ with clientCount := 1 }

/-- A server with a user in a room. -/
def occupied : Server := ((connected.login 0 "ada".toList).1.join 0 "tea".toList).1

theorem rooms_agree_with_clients_occupied :
  ∃ r, (occupied.rooms r).active = true ∧ (occupied.rooms r).name = "tea".toList
    ∧ 0 ∈ (occupied.rooms r).users
  := by
  have hconnect : Step initial connected :=
    @Step.connect initial 0 connected 4 rfl
  have hlogin : Step connected (connected.login 0 "ada".toList).1 :=
    .login 0 "ada".toList rfl rfl
  have hjoin : Step (connected.login 0 "ada".toList).1 occupied :=
    .join 0 "tea".toList rfl (by decide)
  apply ((rooms_agree_with_clients occupied
    (((ReflTransGen.single hconnect).tail hlogin).tail hjoin)).2.2.2.2.1 0 "tea".toList
      (by decide)).mpr
  exact ⟨rfl, rfl⟩

/-- A server with a second client beside the user in a room. -/
def visited : Server := { occupied.setClient 1 ⟨5, [], [], [], true, []⟩ with clientCount := 2 }

/-- A server with two users in a room. -/
def shared : Server := ((visited.login 1 "bob".toList).1.join 1 "tea".toList).1

end Server

end ChatServer
