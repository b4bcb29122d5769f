import Homeworks.ChatServer.Entries
import Homeworks.ChatServer.FileQueue
import Homeworks.ChatServer.Membership

/-!
# The delivery of files

A request holds the entries of its sender and its receiver, not their sessions, while it
waits for a free entry of the queue, in the queue, and while it is processed.  An entry keeps
the descriptor of a session that has ended, which the next connection may be given, whatever
entry it is put into.  The queue is the list of its requests.  Of every request it is recorded,
for the statements only, which sessions it is from and to.
-/

open Relation

namespace ChatServer

/-- A request, the sessions of its sender and its receiver when it was accepted, and the
username of its sender. -/
structure Ticket where
  request : FileTransferRequest
  senderSession : Nat
  receiverSession : Nat
  senderUsername : Text

/-- The server, the number of sessions that each entry has had, the open descriptors, each with
the session that it was accepted for, the requests of senders that wait for a free entry of the
queue, the queue, and the request that is processed. -/
structure Exchange where
  server : Server
  sessions : Slot → Nat
  descriptors : Int → Option (Slot × Nat)
  waiting : List Ticket
  queue : List Ticket
  processing : Option Ticket

namespace Exchange

/-- The server when it starts. -/
def initial : Exchange := ⟨.initial, fun _ => 0, fun _ => none, [], [], none⟩

/-- The requests that have been accepted and not yet been carried out. -/
def pending (x : Exchange) : List Ticket := x.waiting ++ x.queue ++ x.processing.toList

/-- A request that is accepted. -/
def ticket (x : Exchange) (sender receiver : Slot) (filename : Text) (fileSize time : Int) :
    Ticket where
  request := FileQueue.stored ⟨sender, receiver, filename, fileSize, time, true⟩ time
  senderSession := x.sessions sender
  receiverSession := x.sessions receiver
  senderUsername := (x.server.clients sender).username

/-- The handler of a client waits for a free entry of the queue. -/
def Waits (x : Exchange) (i : Slot) : Prop := ∃ τ ∈ x.waiting, τ.request.sender = i

/-- A step of the server.  The handler of a client that waits does nothing else. -/
inductive Step (x : Exchange) : Exchange → Prop where
  | connect {i : Slot} {s' : Server} {socket : Int} (hfd : x.descriptors socket = none)
      (h : x.server.connect socket = some (i, s')) :
    Step x { x with
      server := s'
      sessions := Function.update x.sessions i (x.sessions i + 1)
      descriptors := Function.update x.descriptors socket (some (i, x.sessions i + 1)) }
  | login {i : Slot} (buffer : Text) (hi : (x.server.clients i).active = true)
      (hu : (x.server.clients i).username = []) :
    Step x { x with server := (x.server.login i buffer).1 }
  | sendFile {i receiver : Slot} {filename target : Text} {fileSize : Int} (time : Int)
      (hi : (x.server.clients i).active = true) (hu : (x.server.clients i).username ≠ [])
      (hw : ¬ x.Waits i)
      (h : x.server.handleFileTransfer i filename target fileSize = .ok receiver)
      (hq : x.queue.length < MAX_FILE_QUEUE) :
    Step x { x with queue := x.queue ++ [x.ticket i receiver filename fileSize time] }
  | sendFileWaits {i receiver : Slot} {filename target : Text} {fileSize : Int} (time : Int)
      (hi : (x.server.clients i).active = true) (hu : (x.server.clients i).username ≠ [])
      (hw : ¬ x.Waits i)
      (h : x.server.handleFileTransfer i filename target fileSize = .ok receiver)
      (hq : ¬ x.queue.length < MAX_FILE_QUEUE) :
    Step x { x with waiting := x.waiting ++ [x.ticket i receiver filename fileSize time] }
  | enqueue {before after : List Ticket} {τ : Ticket} (time : Int)
      (h : x.waiting = before ++ τ :: after) (hq : x.queue.length < MAX_FILE_QUEUE) :
    Step x { x with
      waiting := before ++ after
      queue := x.queue ++ [{ τ with request := FileQueue.stored τ.request time }] }
  | timedOut {before after : List Ticket} {τ : Ticket} (h : x.waiting = before ++ τ :: after) :
    Step x { x with waiting := before ++ after }
  | disconnect {i : Slot} (hi : (x.server.clients i).active = true) (hw : ¬ x.Waits i) :
    Step x { x with
      server := (x.server.disconnect i).1
      descriptors := Function.update x.descriptors (x.server.clients i).socket none }
  | exit {i : Slot} (hi : (x.server.clients i).active = true) (hw : ¬ x.Waits i) :
    Step x { x with
      server := (x.server.exit i).1
      descriptors := Function.update x.descriptors (x.server.clients i).socket none }
  | process {τ : Ticket} {rest : List Ticket} (h : x.queue = τ :: rest)
      (hp : x.processing = none) :
    Step x { x with queue := rest, processing := some τ }
  | deliver {τ : Ticket} (h : x.processing = some τ) :
    Step x { x with server := (x.server.transferFile τ.request).1, processing := none }

def Reachable (x : Exchange) : Prop := ReflTransGen Step initial x

/-- What is sent and recorded when a request is carried out.  The message `FILE_RECEIVED` goes
to the session that the request is to, or to none when this has ended, and names the sender;
the file is recorded for this session only; and the session that issued the request goes on. -/
structure Faithful (x : Exchange) (τ : Ticket) : Prop where
  received : ∀ socket user filename,
    (socket, Message.fileReceived user filename) ∈ (x.server.transferFile τ.request).2 →
    user = τ.senderUsername ∧ filename = τ.request.filename ∧ ∃ fd, socket = some fd
      ∧ (x.descriptors fd = some (τ.request.receiver, τ.receiverSession)
        ∨ x.descriptors fd = none ∧ (x.server.clients τ.request.receiver).active = false)
  recorded : ∀ i, ((x.server.transferFile τ.request).1.clients i).receivedFiles
      ≠ (x.server.clients i).receivedFiles →
    i = τ.request.receiver ∧ x.sessions i = τ.receiverSession
  issued : (x.server.clients τ.request.sender).active = true
    ∧ x.sessions τ.request.sender = τ.senderSession

/-- No session ends while a request of its own is pending, and while a request to the session of
an entry is pending no connection is put into this entry or is given its descriptor. -/
def Kept (x x' : Exchange) : Prop :=
  ∀ i, ((x.server.clients i).active = true → (x'.server.clients i).active = false →
      ∀ τ ∈ x.pending, τ.request.sender ≠ i)
    ∧ ((x.server.clients i).active = false → (x'.server.clients i).active = true →
      ∀ τ ∈ x.pending, τ.request.receiver ≠ i
        ∧ (x.server.clients τ.request.receiver).socket ≠ (x'.server.clients i).socket)

/-- The entries of a request hold the sessions that it is from and to, of which the sender has
not ended, and no other session has the descriptor of the receiver. -/
structure Held (x : Exchange) (τ : Ticket) : Prop where
  receiver : x.sessions τ.request.receiver = τ.receiverSession
  sender : x.sessions τ.request.sender = τ.senderSession
  active : (x.server.clients τ.request.sender).active = true
  logged : (x.server.clients τ.request.sender).username ≠ []
  username : (x.server.clients τ.request.sender).username = τ.senderUsername
  descriptor : ∀ session,
    x.descriptors (x.server.clients τ.request.receiver).socket = some session →
    session = (τ.request.receiver, τ.receiverSession)

/-- All pending requests are held, and the descriptors of active clients are open for their
sessions. -/
structure Attended (x : Exchange) : Prop where
  held : ∀ τ ∈ x.pending, Held x τ
  opened : ∀ i, (x.server.clients i).active = true →
    x.descriptors (x.server.clients i).socket = some (i, x.sessions i)

variable {x x' : Exchange} {τ : Ticket}

/-- A request that is carried out while it is held is carried out faithfully. -/
theorem Held.faithful (h : Held x τ)
    (hopened : (x.server.clients τ.request.receiver).active = true →
      x.descriptors (x.server.clients τ.request.receiver).socket
        = some (τ.request.receiver, x.sessions τ.request.receiver)) :
  Faithful x τ
  where
  received := by
    intro socket user filename hsent
    obtain ⟨rfl, rfl, rfl⟩ := Server.of_fileReceived hsent
    refine ⟨h.username, rfl, _, rfl, ?_⟩
    cases hd : x.descriptors (x.server.clients τ.request.receiver).socket with
    | some session => exact .inl (congrArg some (h.descriptor session hd))
    | none =>
        right
        refine ⟨rfl, ?_⟩
        rw [← Bool.not_eq_true]
        intro hactive
        rw [hopened hactive] at hd
        cases hd
  recorded := by
    intro i hchanged
    have hi : i = τ.request.receiver := by
      by_contra hne
      apply hchanged
      rw [(x.server.transferFile_entry τ.request i).2.2.2 hne]
    refine ⟨hi, ?_⟩
    rw [hi, h.receiver]
  issued := ⟨h.active, h.sender⟩

/-- Requests are held as long as no session begins or ends. -/
theorem Attended.same (h : Attended x) (hsessions : x'.sessions = x.sessions)
    (hdescriptors : x'.descriptors = x.descriptors)
    (hclients : ∀ i, (x'.server.clients i).active = (x.server.clients i).active
      ∧ (x'.server.clients i).socket = (x.server.clients i).socket
      ∧ ((x.server.clients i).username ≠ [] →
        (x'.server.clients i).username = (x.server.clients i).username))
    (hpending : ∀ τ ∈ x'.pending, Held x τ) :
  Attended x'
  where
  held := by
    intro τ hτ
    obtain ⟨hreceiver, hsender, hactive, hlogged, husername, hdescriptor⟩ := hpending τ hτ
    obtain ⟨hactive', -, husername'⟩ := hclients τ.request.sender
    obtain ⟨-, hsocket', -⟩ := hclients τ.request.receiver
    constructor
    · rwa [hsessions]
    · rwa [hsessions]
    · rwa [hactive']
    · rwa [husername' hlogged]
    · rwa [husername' hlogged]
    · rwa [hdescriptors, hsocket']
  opened := by
    intro i hi
    obtain ⟨hactive', hsocket', -⟩ := hclients i
    rw [hactive'] at hi
    rw [hdescriptors, hsocket', hsessions]
    apply h.opened i hi

/-- A step of the queue keeps the requests that it does not add. -/
theorem Attended.pends (h : Attended x) (hsessions : x'.sessions = x.sessions)
    (hdescriptors : x'.descriptors = x.descriptors) (hserver : x'.server = x.server)
    (hpending : ∀ τ ∈ x'.pending, τ ∈ x.pending ∨ Held x τ) :
  Attended x'
  := by
  refine h.same hsessions hdescriptors ?_ fun τ hτ => (hpending τ hτ).elim (h.held τ) id
  intro i
  rw [hserver]
  exact ⟨rfl, rfl, fun _ => rfl⟩

/-- A session begins in an entry. -/
theorem Attended.begun (h : Attended x) {i : Slot} {s' : Server} {socket : Int}
    (hfd : x.descriptors socket = none) (hc : x.server.connect socket = some (i, s'))
    (hk : Kept x { x with
      server := s'
      sessions := Function.update x.sessions i (x.sessions i + 1)
      descriptors := Function.update x.descriptors socket (some (i, x.sessions i + 1)) }) :
  Attended { x with
    server := s'
    sessions := Function.update x.sessions i (x.sessions i + 1)
    descriptors := Function.update x.descriptors socket (some (i, x.sessions i + 1)) }
  := by
  obtain ⟨hfree, hactive, hsocket, hothers⟩ := Server.of_connect hc
  constructor
  · intro τ hτ
    obtain ⟨hreceiver, hsender, ha, hlogged, husername, hdescriptor⟩ := h.held τ hτ
    have hsi : τ.request.sender ≠ i := by
      intro heq
      rw [heq, hfree] at ha
      cases ha
    obtain ⟨hri, hfd'⟩ := (hk i).2 hfree hactive τ hτ
    dsimp only at hfd'
    rw [hsocket] at hfd'
    constructor
    all_goals dsimp only
    · rwa [Function.update_of_ne hri]
    · rwa [Function.update_of_ne hsi]
    · rwa [hothers _ hsi]
    · rwa [hothers _ hsi]
    · rwa [hothers _ hsi]
    · rwa [hothers _ hri, Function.update_of_ne hfd']
  · intro j hj
    dsimp only at hj ⊢
    rcases eq_or_ne j i with rfl | hji
    · rw [hsocket, Function.update_self, Function.update_self]
    · rw [hothers j hji] at hj ⊢
      have hopened := h.opened j hj
      have hne : (x.server.clients j).socket ≠ socket := by
        intro heq
        rw [heq, hfd] at hopened
        cases hopened
      rwa [Function.update_of_ne hne, Function.update_of_ne hji]

/-- The session in an entry ends. -/
theorem Attended.ended (h : Attended x) {s' : Server} {i : Slot}
    (hi : (x.server.clients i).active = true)
    (hs' : (∀ j, j ≠ i → s'.clients j = x.server.clients j) ∧ (s'.clients i).active = false
      ∧ (s'.clients i).socket = (x.server.clients i).socket)
    (hk : Kept x { x with
      server := s'
      descriptors := Function.update x.descriptors (x.server.clients i).socket none }) :
  Attended { x with
    server := s'
    descriptors := Function.update x.descriptors (x.server.clients i).socket none }
  := by
  obtain ⟨hothers, hfree, hsocket⟩ := hs'
  constructor
  · intro τ hτ
    obtain ⟨hreceiver, hsender, hactive, hlogged, husername, hdescriptor⟩ := h.held τ hτ
    have hne : τ.request.sender ≠ i := (hk i).1 hi hfree τ hτ
    have hsockets : ∀ j, (s'.clients j).socket = (x.server.clients j).socket := by
      intro j
      rcases eq_or_ne j i with rfl | hj
      · exact hsocket
      · rw [hothers j hj]
    refine ⟨hreceiver, hsender, ?_, ?_, ?_, ?_⟩
    · rwa [hothers _ hne]
    · rwa [hothers _ hne]
    · rwa [hothers _ hne]
    · intro session
      dsimp only
      rw [hsockets]
      rcases eq_or_ne (x.server.clients τ.request.receiver).socket (x.server.clients i).socket
        with heq | hne'
      · rw [heq, Function.update_self]
        rintro ⟨⟩
      · rw [Function.update_of_ne hne']
        apply hdescriptor
  · intro j hj
    have hji : j ≠ i := by
      rintro rfl
      dsimp only at hj
      rw [hfree] at hj
      cases hj
    dsimp only at hj ⊢
    rw [hothers j hji] at hj ⊢
    -- two active clients have different descriptors
    have hne : (x.server.clients j).socket ≠ (x.server.clients i).socket := by
      intro heq
      have hj' := h.opened j hj
      rw [heq, h.opened i hi] at hj'
      cases hj'
      exact hji rfl
    rw [Function.update_of_ne hne]
    apply h.opened j hj

/-- A request that is accepted is held. -/
theorem Attended.held_ticket (h : Attended x) {i receiver : Slot} {filename target : Text}
    {fileSize : Int} (time : Int) (hi : (x.server.clients i).active = true)
    (hu : (x.server.clients i).username ≠ [])
    (hr : x.server.handleFileTransfer i filename target fileSize = .ok receiver) :
  Held x (x.ticket i receiver filename fileSize time)
  where
  receiver := rfl
  sender := rfl
  active := hi
  logged := hu
  username := rfl
  descriptor := by
    intro session hsession
    have hopened := h.opened receiver (Server.of_handleFileTransfer hr).1
    exact Option.some.inj (hsession.symm.trans hopened)

theorem disconnect_server (s : Server) (i : Slot) :
  (s.disconnect i).1 = (s.cleanupClient i).1
  := by
  have hfree := (s.cleanupClient_entry i).2
  simp only [Server.disconnect]
  conv_lhs => rw [Server.cleanupClient]
  simp [hfree]

theorem Attended.step (h : Attended x) (hstep : Step x x') (hk : Kept x x') :
  Attended x'
  := by
  cases hstep with
  | connect hfd hc => exact h.begun hfd hc hk
  | @login i buffer hi hu =>
      obtain ⟨hothers, hsocket, hactive⟩ := x.server.login_entry i buffer
      refine h.same rfl rfl ?_ h.held
      intro j
      dsimp only
      rcases eq_or_ne j i with rfl | hj
      · exact ⟨hactive, hsocket, fun hlogged => absurd hu hlogged⟩
      · rw [hothers j hj]
        exact ⟨rfl, rfl, fun _ => rfl⟩
  | @sendFile i receiver filename target fileSize time hi hu hw hx hq =>
      refine h.pends rfl rfl rfl fun τ hτ => ?_
      have hcases : τ ∈ x.pending ∨ τ = x.ticket i receiver filename fileSize time := by
        simp only [pending, List.mem_append, List.mem_singleton] at hτ ⊢
        tauto
      obtain hold | rfl := hcases
      · exact .inl hold
      · exact .inr (h.held_ticket time hi hu hx)
  | @sendFileWaits i receiver filename target fileSize time hi hu hw hx hq =>
      refine h.pends rfl rfl rfl fun τ hτ => ?_
      have hcases : τ ∈ x.pending ∨ τ = x.ticket i receiver filename fileSize time := by
        simp only [pending, List.mem_append, List.mem_singleton] at hτ ⊢
        tauto
      obtain hold | rfl := hcases
      · exact .inl hold
      · exact .inr (h.held_ticket time hi hu hx)
  | @enqueue before after τ time hwaiting hq =>
      refine h.pends rfl rfl rfl fun τ' hτ' => ?_
      have hcases : τ' ∈ x.pending
          ∨ τ' = { τ with request := FileQueue.stored τ.request time } := by
        simp only [pending, hwaiting, List.mem_append, List.mem_cons, List.not_mem_nil] at hτ' ⊢
        tauto
      obtain hold | rfl := hcases
      · exact .inl hold
      · have hτ : τ ∈ x.pending := by simp [pending, hwaiting]
        obtain ⟨hreceiver, hsender, hactive, hlogged, husername, hdescriptor⟩ := h.held τ hτ
        exact .inr ⟨hreceiver, hsender, hactive, hlogged, husername, hdescriptor⟩
  | timedOut hwaiting =>
      refine h.pends rfl rfl rfl fun τ' hτ' => .inl ?_
      simp only [pending, hwaiting, List.mem_append, List.mem_cons] at hτ' ⊢
      tauto
  | @disconnect i hi hw =>
      rw [disconnect_server] at hk ⊢
      exact h.ended hi (x.server.cleanupClient_entry i) hk
  | @exit i hi hw => exact h.ended hi (x.server.cleanupClient_entry i) hk
  | process hqueue hp =>
      refine h.pends rfl rfl rfl fun τ' hτ' => .inl ?_
      simp only [pending, hqueue, hp, List.mem_append, List.mem_cons, Option.toList_some,
        Option.toList_none, List.not_mem_nil] at hτ' ⊢
      tauto
  | @deliver τ hp =>
      refine h.same rfl rfl ?_ ?_
      · intro i
        obtain ⟨hactive, husername, hsocket, -⟩ := x.server.transferFile_entry τ.request i
        exact ⟨hactive, hsocket, fun _ => husername⟩
      · intro τ' hτ'
        apply h.held
        simp only [pending, List.mem_append, Option.mem_toList] at hτ' ⊢
        tauto

/-- In every run in which no session ends while a request of its own is pending, and no entry
or descriptor of a session to which a request is pending is used again, the message that a file
is received goes to the session that the request was addressed to, in whose entry the file is
recorded, and comes from the session that issued it. -/
theorem delivered_to_addressee (x : Exchange)
    (h : ReflTransGen (fun x x' => Step x x' ∧ Kept x x') initial x) :
  ∀ τ, x.processing = some τ → Faithful x τ
  := by
  have hattended : Attended x := by
    apply Transition.invariant (I := Attended) _ h
    · constructor
      · rintro τ ⟨⟩
      · rintro i ⟨⟩
    · intro x x' hx hstep
      apply hx.step hstep.1 hstep.2
  intro τ hτ
  have hheld := hattended.held τ (by simp [pending, hτ])
  exact hheld.faithful (hattended.opened τ.request.receiver)

/-! ### A letter -/

theorem kept_of_idle (h : x.pending = []) :
  Kept x x'
  := by
  intro i
  rw [h]
  constructor
  · rintro - - τ ⟨⟩
  · rintro - - τ ⟨⟩

theorem kept_of_server (h : x'.server = x.server) :
  Kept x x'
  := by
  intro i
  rw [h]
  constructor
  · intro ha hfree
    rw [ha] at hfree
    cases hfree
  · intro hfree ha
    rw [ha] at hfree
    cases hfree

/-- A client has logged in, and another one has connected. -/
def joined : Server :=
  { (Server.connected.login 0 "ada".toList).1.setClient 1 ⟨5, [], [], [], true, []⟩ with
    clientCount := 2 }

/-- Both clients have logged in. -/
def acquainted : Server := (joined.login 1 "bob".toList).1

/-- The server without requests, where the first two entries have had some sessions. -/
def quiet (s : Server) (first second : Nat) (descriptors : Int → Option (Slot × Nat)) : Exchange :=
  ⟨s, Function.update (Function.update (fun _ => 0) 0 first) 1 second, descriptors, [], [], none⟩

/-- The descriptors when the first client has connected. -/
def oneOpen : Int → Option (Slot × Nat) := Function.update (fun _ => none) 4 (some (0, 1))

/-- The descriptors when both have connected. -/
def bothOpen : Int → Option (Slot × Nat) := Function.update oneOpen 5 (some (1, 1))

/-- The request of one client to send the other a file. -/
def letterTicket : Ticket :=
  (quiet acquainted 1 1 bothOpen).ticket 0 1 "letter.txt".toList 100 7

/-- The server with the request in its queue. -/
def accepted : Exchange := { quiet acquainted 1 1 bothOpen with queue := [letterTicket] }

theorem run_accepted :
  ReflTransGen (fun x x' => Step x x' ∧ Kept x x') initial accepted
  := by
  have hinitial : initial = quiet .initial 0 0 fun _ => none := by
    simp only [initial, quiet, Function.update_eq_self]
  have hada : Step (quiet .initial 0 0 fun _ => none) (quiet Server.connected 1 0 oneOpen) := by
    have h := @Step.connect (quiet .initial 0 0 fun _ => none) 0 Server.connected 4 rfl rfl
    have hsecond : Function.update (Function.update (fun _ : Slot => 0) 0 1) 1 0
        = Function.update (fun _ => 0) 0 1 := Function.update_eq_self_iff.mpr rfl
    simp only [quiet, Function.update_eq_self, hsecond] at h ⊢
    exact h
  have hlogin : Step (quiet Server.connected 1 0 oneOpen)
      (quiet (Server.connected.login 0 "ada".toList).1 1 0 oneOpen) := .login "ada".toList rfl rfl
  have hbob : Step (quiet (Server.connected.login 0 "ada".toList).1 1 0 oneOpen)
      (quiet joined 1 1 bothOpen) := by
    have h := @Step.connect (quiet (Server.connected.login 0 "ada".toList).1 1 0 oneOpen) 1 joined 5
      rfl rfl
    simp only [quiet, Function.update_idem, Function.update_self] at h
    exact h
  have hlogin' : Step (quiet joined 1 1 bothOpen) (quiet acquainted 1 1 bothOpen) :=
    .login "bob".toList rfl rfl
  have hsend : Step (quiet acquainted 1 1 bothOpen) accepted := by
    refine @Step.sendFile (quiet acquainted 1 1 bothOpen) 0 1 "letter.txt".toList "bob".toList 100 7
      rfl (by decide) ?_ rfl (by decide)
    rintro ⟨τ, ⟨⟩, -⟩
  rw [hinitial]
  exact ((((ReflTransGen.single ⟨hada, kept_of_idle rfl⟩).tail ⟨hlogin, kept_of_idle rfl⟩).tail
    ⟨hbob, kept_of_idle rfl⟩).tail ⟨hlogin', kept_of_idle rfl⟩).tail ⟨hsend, kept_of_idle rfl⟩

/-- The request is processed. -/
theorem delivered_to_addressee_accepted :
  Faithful { accepted with queue := [], processing := some letterTicket } letterTicket
  := by
  have hprocess : Step accepted { accepted with queue := [], processing := some letterTicket } :=
    .process rfl rfl
  exact delivered_to_addressee _ (run_accepted.tail ⟨hprocess, kept_of_server rfl⟩) _ rfl

/-- A third client is put into the entry of the second, which has disconnected. -/
def replaced : Server :=
  { (acquainted.disconnect 1).1.setClient 1 ⟨6, [], [], [], true, []⟩ with clientCount := 2 }

/-- The file is delivered to a client that it was not addressed to. -/
theorem delivered_to_another :
  ¬ ∀ x, Reachable x → ∀ τ, x.processing = some τ → Faithful x τ
  := by
  intro hall
  have hrun : Reachable accepted := ReflTransGen.mono (fun _ _ h => h.1) _ _ run_accepted
  have hdisconnect := @Step.disconnect accepted 1 rfl (by rintro ⟨τ, ⟨⟩, -⟩)
  have hconnect := @Step.connect { accepted with
    server := (acquainted.disconnect 1).1
    descriptors := Function.update bothOpen 5 none } 1 replaced 6 rfl rfl
  have hrun' := ((hrun.tail hdisconnect).tail hconnect).tail (.process rfl rfl)
  have hfaithful := hall _ hrun' _ rfl
  have hsession := (hfaithful.recorded 1 (by decide)).2
  exact absurd hsession (by decide)

end Exchange

end ChatServer
