import Homeworks.ChatServer.Server
import Homeworks.Table.Entries

/-!
# The entries of clients

What the functions of the server change of the entries of clients.  Each changes the entry
of one client only, and only `main` and `cleanup_client` change which entries are active.
-/

namespace ChatServer

namespace Server

/-- What `main` does with a new connection. -/
theorem of_connect {s s' : Server} {fd : Int} {i : Slot} (h : s.connect fd = some (i, s')) :
  (s.clients i).active = false ∧ (s'.clients i).active = true ∧ (s'.clients i).socket = fd
    ∧ ∀ j, j ≠ i → s'.clients j = s.clients j
  := by
  unfold connect at h
  split at h
  · cases h
  · rename_i j hfind
    have hfree : (s.clients j).active = false := by simpa using Table.of_find hfind
    cases h
    refine ⟨hfree, ?_, ?_, ?_⟩
    · simp [setClient]
    · simp [setClient]
    · intro j' hj'
      simp [setClient, hj']

theorem login_entry (s : Server) (i : Slot) (username : Text) :
  (∀ j, j ≠ i → (s.login i username).1.clients j = s.clients j)
    ∧ ((s.login i username).1.clients i).socket = (s.clients i).socket
    ∧ ((s.login i username).1.clients i).active = (s.clients i).active
  := by
  unfold Server.login
  split
  · exact ⟨fun _ _ => rfl, rfl, rfl⟩
  · split
    · exact ⟨fun _ _ => rfl, rfl, rfl⟩
    · refine ⟨?_, ?_, ?_⟩
      · intro j hj
        simp [setClient, hj]
      · simp [setClient]
      · simp [setClient]

theorem leaveRegion_entry (s : Server) (i : Slot) (room : Text) :
  (∀ j, j ≠ i → (s.leaveRegion i room).1.clients j = s.clients j)
    ∧ ((s.leaveRegion i room).1.clients i).socket = (s.clients i).socket
    ∧ ((s.leaveRegion i room).1.clients i).active = (s.clients i).active
  := by
  rw [leaveRegion_clients]
  refine ⟨?_, ?_, ?_⟩
  · intro j hj
    rw [Function.update_of_ne hj]
  · rw [Function.update_self]
  · rw [Function.update_self]

theorem joinRegion_entry {s s' : Server} {i : Slot} {room : Text} {rejoining : Bool}
    {sockets : List (Option Int)} (h : s.joinRegion i room rejoining = some (s', sockets)) :
  (∀ j, j ≠ i → s'.clients j = s.clients j) ∧ (s'.clients i).socket = (s.clients i).socket
    ∧ (s'.clients i).active = (s.clients i).active
  := by
  obtain ⟨s₀, r, hclients, rfl⟩ := of_joinRegion h
  refine ⟨?_, ?_, ?_⟩
  · intro j hj
    simp [addUser, setClient, setRoom, hj, hclients]
  · simp [addUser, setClient, setRoom, hclients]
  · simp [addUser, setClient, setRoom, hclients]

theorem cleanupRegion_others (s : Server) (i : Slot) :
  ∀ j, j ≠ i → (s.cleanupRegion i).1.clients j = s.clients j
  := by
  intro j hj
  simp only [cleanupRegion]
  split
  · simp [setClient, hj, leaveRoom_clients]
  · simp [setClient, hj]

theorem cleanupRegion_socket (s : Server) (i : Slot) :
  ((s.cleanupRegion i).1.clients i).socket = (s.clients i).socket
  := by
  simp only [cleanupRegion]
  split
  · simp [setClient, leaveRoom_clients]
  · simp [setClient]

/-- The entry of a client that is cleaned up is not active, and still has its socket. -/
theorem cleanupClient_entry (s : Server) (i : Slot) :
  (∀ j, j ≠ i → (s.cleanupClient i).1.clients j = s.clients j)
    ∧ ((s.cleanupClient i).1.clients i).active = false
    ∧ ((s.cleanupClient i).1.clients i).socket = (s.clients i).socket
  := by
  unfold cleanupClient
  split
  · rename_i hfree
    refine ⟨fun _ _ => rfl, ?_, rfl⟩
    simpa using hfree
  · refine ⟨cleanupRegion_others s i, ?_, cleanupRegion_socket s i⟩
    simp only [cleanupRegion]
    simp [setClient]

/-- A file is recorded in the entry of its receiver only. -/
theorem addFileToReceiver_entry (s : Server) (receiver : Slot) (filename : Text) (i : Slot) :
  ((s.addFileToReceiver receiver filename).clients i).active = (s.clients i).active
    ∧ ((s.addFileToReceiver receiver filename).clients i).username = (s.clients i).username
    ∧ ((s.addFileToReceiver receiver filename).clients i).socket = (s.clients i).socket
    ∧ (i ≠ receiver → (s.addFileToReceiver receiver filename).clients i = s.clients i)
  := by
  simp only [addFileToReceiver]
  split
  · rcases eq_or_ne i receiver with rfl | hne
    · simp [setClient]
    · simp [setClient, hne]
  · exact ⟨rfl, rfl, rfl, fun _ => rfl⟩

/-- The file that a client is sent is only recorded, in its own entry. -/
theorem transferFile_entry (s : Server) (request : FileTransferRequest) (i : Slot) :
  ((s.transferFile request).1.clients i).active = (s.clients i).active
    ∧ ((s.transferFile request).1.clients i).username = (s.clients i).username
    ∧ ((s.transferFile request).1.clients i).socket = (s.clients i).socket
    ∧ (i ≠ request.receiver → (s.transferFile request).1.clients i = s.clients i)
  := by
  simp only [transferFile]
  split
  · exact ⟨rfl, rfl, rfl, fun _ => rfl⟩
  · apply addFileToReceiver_entry

/-- The receiver of a file is told so, under the username of the sender. -/
theorem of_fileReceived {s : Server} {request : FileTransferRequest} {socket : Option Int}
    {user filename : Text}
    (h : (socket, Message.fileReceived user filename) ∈ (s.transferFile request).2) :
  socket = some (s.clients request.receiver).socket
    ∧ user = (s.clients request.sender).username ∧ filename = request.filename
  := by
  obtain ⟨-, -, hsocket, -⟩ := s.transferFile_entry request request.receiver
  obtain ⟨-, husername, -, -⟩ := s.transferFile_entry request request.sender
  simp only [transferFile] at h hsocket husername
  simp only [send, List.mem_cons, Prod.mk.injEq, Message.fileReceived.injEq, reduceCtorEq,
    and_false,
    List.not_mem_nil, or_false] at h
  obtain ⟨rfl, rfl, rfl⟩ := h
  exact ⟨congrArg some hsocket, husername, rfl⟩

/-- The receiver of a request that is accepted is active and has the username. -/
theorem of_handleFileTransfer {s : Server} {i receiver : Slot} {filename target : Text} {size : Int}
    (h : s.handleFileTransfer i filename target size = .ok receiver) :
  (s.clients receiver).active = true ∧ (s.clients receiver).username = target
  := by
  simp only [handleFileTransfer] at h
  split_ifs at h
  split at h
  · cases h
  · rename_i hfind
    cases h
    have hreceiver := Table.of_find hfind
    simpa using hreceiver

end Server

end ChatServer
