import PSM.Channel
import PSM.Handshake
import PSM.HostAddress

/-! A client and the server over the bytes of a connection.

`AgentLink` has the messages in flight as lists. Here a message is serialised when a handler sends
it, its bytes arrive in any pieces, and the peer parses the packets that its logic thread takes out
of the queue. As long as every message fits its frame, each run is one of `AgentLink` with the
deliveries left out (`ByteLink.refines`), so what holds of the lists there holds here when no byte
and no packet is left (`ByteLink.quiet`). -/

namespace PSM
open ByteStr Redis RedisManager Agent Replica

/-! ## Messages that are waiting -/

namespace Server

variable {ι : Type} [DecidableEq ι]

/-- The server with messages that wait on a socket before those that it has sent. -/
def withPending (s : Server ι) (i : ι) (msgs : List ServerMessage) : Server ι :=
  { s with outbox := Function.update s.outbox i (msgs ++ s.outbox i) }

section
variable {s : Server ι} {i j : ι} {msgs : List ServerMessage} {msg : ServerMessage}
  {socket : Option ι} {p : Client HashValue α}

theorem withPending_nil : s.withPending i [] = s := by
  simp only [withPending, List.nil_append, Function.update_eq_self]

theorem send_withPending : (s.withPending i msgs).send j msg = (s.send j msg).withPending i msgs := by
  by_cases h : j = i
  · subst h
    simp [send, withPending]
  · have h' : ¬i = j := fun e => h e.symm
    simp only [send, withPending, Function.update_of_ne h, Function.update_of_ne h']
    rw [Function.update_comm h]

theorem sendTo_withPending :
    (s.withPending i msgs).sendTo socket msg = (s.sendTo socket msg).withPending i msgs := by
  cases socket with
  | none => rfl
  | some j => exact send_withPending

theorem redis_withPending : (s.withPending i msgs).redis p =
    (s.redis p).map fun (a, s) => (a, s.withPending i msgs) := by
  simp only [redis, Option.map_map]
  rfl

@[simp] theorem withPending_store : (s.withPending i msgs).store = s.store := rfl

@[simp] theorem withPending_socket : (s.withPending i msgs).socket = s.socket := rfl

@[simp] theorem withPending_getAgentSocketByToken {token : Int} :
    (s.withPending i msgs).getAgentSocketByToken token = s.getAgentSocketByToken token := rfl

variable {ext : Externals} {now token agentID : Int} {json : JsonCpp} {isMachine : Bool}

theorem registered_withPending {hostIP : Int} {jv : AgentRecord} :
    (s.withPending i msgs).registered j token hostIP jv =
      (s.registered j token hostIP jv).withPending i msgs := by
  unfold registered
  exact send_withPending (s := ({ s with store := setRecord s.store token jv }).setSocket j _)

theorem sendProcessListResponse_withPending :
    (s.withPending i msgs).sendProcessListResponse j =
      (s.sendProcessListResponse j).map (·.withPending i msgs) := by
  rw [sendProcessListResponse, sendProcessListResponse, redis_withPending, withPending_socket]
  cases s.redis (getProcessList (s.socket j).agentID) with
  | none => rfl
  | some result =>
    obtain ⟨processList, s'⟩ := result
    cases processList with
    | none => rfl
    | some processList => exact congrArg some send_withPending

theorem sendCounterListResponse_withPending :
    (s.withPending i msgs).sendCounterListResponse json j isMachine =
      (s.sendCounterListResponse json j isMachine).map (·.withPending i msgs) := by
  rw [sendCounterListResponse, sendCounterListResponse, redis_withPending, withPending_socket]
  change Option.bind (Option.map _ (s.redis (getCounterList json s.counterNameMap
    (s.socket j).agentID isMachine))) _ = _
  cases s.redis (getCounterList json s.counterNameMap (s.socket j).agentID isMachine) with
  | none => rfl
  | some result =>
    obtain ⟨⟨counterList, m⟩, s'⟩ := result
    cases counterList with
    | none => rfl
    | some counterList => exact congrArg some (send_withPending (s := { s' with counterNameMap := m }))

/-- A handler does the same when messages are waiting. -/
theorem packetHandling_withPending {msg : AgentMessage} :
    AgentSocket.packetHandling ext now j (s.withPending i msgs) msg =
      (AgentSocket.packetHandling ext now j s msg).map (·.withPending i msgs) := by
  cases msg with
  | agentIDRequest token hostIP ramSize =>
    cases hfind : s.getAgentSocketByToken token with
    | none =>
      rw [agentIDRequest_eq_accepted hfind,
        agentIDRequest_eq_accepted (s := s.withPending i msgs) hfind, Option.map_map]
      exact congrArg (Option.map · _) (funext fun _ => registered_withPending)
    | some k =>
      rw [agentIDRequest_eq_refused hfind,
        agentIDRequest_eq_refused (s := s.withPending i msgs) hfind, send_withPending]
      rfl
  | processListRequest => exact sendProcessListResponse_withPending
  | counterListRequest isMachine => exact sendCounterListResponse_withPending
  | agentReady =>
    simp only [AgentSocket.packetHandling, redis_withPending, Option.bind_eq_bind,
      Option.bind_map, Option.map_bind, Function.comp_def, send_withPending, Option.map_some]
    rfl
  | recordResponse => rfl
  | healthAck => rfl
  | invalid => rfl
  | _ =>
    simp only [AgentSocket.packetHandling, redis_withPending, Option.bind_eq_bind,
      Option.bind_map, Option.map_bind, Function.comp_def, Option.map_some]
    rfl

/-! ### Commands of the web -/

theorem processCommand_withPending {type : ProcessCommandType} {name : ByteStr} :
    WebCommandSocket.processCommand token type name (s.withPending i msgs) =
      (WebCommandSocket.processCommand token type name s).map
        fun (b, s) => (b, s.withPending i msgs) := by
  rw [WebCommandSocket.processCommand, WebCommandSocket.processCommand, redis_withPending]
  cases s.redis (getAgentID token) with
  | none => rfl
  | some result =>
    obtain ⟨agentID, t⟩ := result
    cases type with
    | addList =>
      simp only [Option.map_some, Option.bind_eq_bind, Option.bind_some, redis_withPending]
      cases t.redis (setProcessName agentID name) with
      | none => rfl
      | some result =>
        obtain ⟨added, u⟩ := result
        cases added with
        | false => rfl
        | true => exact congrArg (fun s => some (true, s)) sendTo_withPending
    | deleteList =>
      simp only [Option.map_some, Option.bind_eq_bind, Option.bind_some, redis_withPending]
      cases t.redis (remProcessName agentID name) with
      | none => rfl
      | some result =>
        obtain ⟨removed, u⟩ := result
        cases removed with
        | false => rfl
        | true => exact congrArg (fun s => some (true, s)) sendTo_withPending
    | _ => rfl

theorem counterCommand_withPending {type : CounterCommandType} {name : ByteStr} :
    WebCommandSocket.counterCommand json agentID socket isMachine type name
        (s.withPending i msgs) =
      (WebCommandSocket.counterCommand json agentID socket isMachine type name s).map
        fun (b, s) => (b, s.withPending i msgs) := by
  cases type with
  | cAddList =>
    rw [WebCommandSocket.counterCommand, WebCommandSocket.counterCommand, redis_withPending]
    change Option.bind (Option.map _ (s.redis (setCounterName json s.webCounterNameMap agentID name
      isMachine))) _ = _
    cases s.redis (setCounterName json s.webCounterNameMap agentID name isMachine) with
    | none => rfl
    | some result =>
      obtain ⟨⟨counter, m⟩, s'⟩ := result
      cases counter with
      | none => rfl
      | some counter =>
        exact congrArg (fun s => some (true, s))
          (sendTo_withPending (s := { s' with webCounterNameMap := m }))
  | cDeleteList =>
    rw [WebCommandSocket.counterCommand, WebCommandSocket.counterCommand, redis_withPending]
    cases s.redis (remCounterName json agentID name isMachine) with
    | none => rfl
    | some result =>
      obtain ⟨counter, s'⟩ := result
      cases counter with
      | none => rfl
      | some counter => exact congrArg (fun s => some (true, s)) sendTo_withPending

theorem counterCommands_withPending {type : CounterCommandType} {names : List ByteStr} :
    WebCommandSocket.counterCommands json agentID socket isMachine type names
        (s.withPending i msgs) =
      (WebCommandSocket.counterCommands json agentID socket isMachine type names s).map
        fun (b, s) => (b, s.withPending i msgs) := by
  induction names generalizing s with
  | nil => rfl
  | cons name names ih =>
    rw [WebCommandSocket.counterCommands, WebCommandSocket.counterCommands,
      counterCommand_withPending]
    cases WebCommandSocket.counterCommand json agentID socket isMachine type name s with
    | none => rfl
    | some result =>
      obtain ⟨done, t⟩ := result
      change Option.bind (WebCommandSocket.counterCommands json agentID socket isMachine type names
        (t.withPending i msgs)) _ = Option.map _ (Option.bind
          (WebCommandSocket.counterCommands json agentID socket isMachine type names t) _)
      rw [ih]
      cases WebCommandSocket.counterCommands json agentID socket isMachine type names t <;> rfl

theorem web_withPending {msg : WebMessage} :
    WebCommandSocket.packetHandling json (s.withPending i msgs) msg =
      (WebCommandSocket.packetHandling json s msg).map
        fun (response, s) => (response, s.withPending i msgs) := by
  cases msg with
  | healthAck => rfl
  | invalid => rfl
  | processCommandRequest token type name =>
    rw [WebCommandSocket.packetHandling, WebCommandSocket.packetHandling,
      processCommand_withPending]
    cases WebCommandSocket.processCommand token type name s <;> rfl
  | counterCommandRequest token isMachine type names =>
    rw [WebCommandSocket.packetHandling, WebCommandSocket.packetHandling, redis_withPending]
    cases s.redis (getAgentID token) with
    | none => rfl
    | some result =>
      obtain ⟨agentID, t⟩ := result
      change Option.bind (WebCommandSocket.counterCommands json agentID
        (t.getAgentSocketByToken token) isMachine type names (t.withPending i msgs)) _ =
          Option.map _ (Option.bind (WebCommandSocket.counterCommands json agentID
            (t.getAgentSocketByToken token) isMachine type names t) _)
      rw [counterCommands_withPending]
      cases WebCommandSocket.counterCommands json agentID (t.getAgentSocketByToken token) isMachine
        type names t <;> rfl

/-! ### Steps -/

theorem agent_withPending {msg : AgentMessage} :
    (s.withPending i msgs).step ext (.agent j now msg) =
      (s.step ext (.agent j now msg)).map (·.withPending i msgs) := packetHandling_withPending

theorem webStep_withPending {msg : WebMessage} :
    (s.withPending i msgs).step ext (.web msg) =
      (s.step ext (.web msg)).map (·.withPending i msgs) := by
  simp only [step, web_withPending, Option.map_map]
  rfl

theorem reorder_withPending {key : ByteStr} {members : MemberSet} :
    (s.withPending i msgs).step ext (.reorder key members) =
      (s.step ext (.reorder key members)).map (·.withPending i msgs) := by
  by_cases h : (s.store.set key).members.Perm members.members
  · have hone (t : Server ι) (ht : t.store = s.store) : t.step ext (.reorder key members) =
        some { t with store := t.store.modifySet key fun _ => members } :=
      if_pos (ht ▸ h)
    rw [hone s rfl, hone (s.withPending i msgs) rfl]
    rfl
  · have hnone (t : Server ι) (ht : t.store = s.store) :
        t.step ext (.reorder key members) = none := if_neg (ht ▸ h)
    rw [hnone s rfl, hnone (s.withPending i msgs) rfl]
    rfl

end

end Server

/-! ## Messages and calls -/

/-- The call that sends a message. Its numbers are converted to the types of the fields. -/
def ServerMessage.call : ServerMessage → ServerCall
  | agentIDResponse agentID alreadyRunning => .agentIDResponse (BitVec.ofInt 32 agentID) alreadyRunning
  | processListResponse processName => .processListResponse processName
  | counterListResponse isMachine counterName => .counterListResponse isMachine counterName
  | startRecord isMachine totalRecordTime responseTime interval delay =>
    .startRecord isMachine (BitVec.ofInt 32 totalRecordTime) (BitVec.ofInt 32 responseTime)
      (BitVec.ofInt 32 interval) (BitVec.ofInt 64 delay)
  | processCommandRequest type processName => .processCommand type processName
  | counterCommandRequest isMachine type counterName => .counterCommand type counterName isMachine

/-- The message that the client's handler is run with. Health checks and `StopRecord` are not among
them. -/
def ServerCall.message? : ServerCall → Option ServerMessage
  | healthCheck => none
  | agentIDResponse agentID alreadyRunning => some (.agentIDResponse agentID.toInt alreadyRunning)
  | processListResponse processList => some (.processListResponse processList)
  | counterListResponse isMachine counterList => some (.counterListResponse isMachine counterList)
  | startRecord isMachine totalRecordTime responseTime interval delay =>
    some (.startRecord isMachine totalRecordTime.toInt responseTime.toInt interval.toInt delay.toInt)
  | stopRecord _ => none
  | processCommand type processName => some (.processCommandRequest type processName)
  | counterCommand type counterName isMachine =>
    some (.counterCommandRequest isMachine type counterName)

/-- The message fits a frame, and its numbers fit their fields. -/
def ServerMessage.Carried (msg : ServerMessage) : Prop :=
  msg.call.wire.FitsFrame ∧ msg.call.message? = some msg

instance ServerMessage.decidableCarried (msg : ServerMessage) : Decidable msg.Carried :=
  inferInstanceAs (Decidable (_ ∧ _))

/-- The message that the server's handler is run with. -/
def AgentSocket.message (packet : CPacket) : AgentMessage :=
  match AgentSocket.received packet with
  | some c => c.message
  | none =>
    if packet.agentType? = some .currentProcessListSend then .currentProcessListSend none
    else .invalid

/-- The senders that the client's handler calls. `isSuccess` is what `Query::StartRecord` returns. -/
def AgentClientSocket.calls (c : AgentClientSocket) (isSuccess : Bool) (msg : ServerMessage) :
    List ClientCall :=
  if c.isConnect then
    match msg with
    | .agentIDResponse _ alreadyRunning => if alreadyRunning then [] else [.processListRequest]
    | .processListResponse _ => [.counterListRequest false]
    | .counterListResponse isMachine _ =>
      [if isMachine then .agentReady else .counterListRequest true]
    | .startRecord isMachine .. =>
      [.recordResponse isMachine true isSuccess (if isSuccess then [] else ascii "already start")]
    | _ => []
  else []

theorem AgentClientSocket.map_calls {c : AgentClientSocket} {isSuccess : Bool}
    {msg : ServerMessage} :
    (c.calls isSuccess msg).map (·.toCase.message) = (c.packetHandling msg).2 := by
  unfold calls
  cases hc : c.isConnect with
  | false =>
    cases msg with
    | agentIDResponse agentID alreadyRunning =>
      cases alreadyRunning <;> simp [packetHandling, sendIfConnected, hc]
    | processCommandRequest type => cases type <;> rfl
    | counterCommandRequest isMachine type => cases type <;> rfl
    | _ => simp [packetHandling, sendIfConnected, hc]
  | true =>
    cases msg with
    | agentIDResponse agentID alreadyRunning =>
      cases alreadyRunning <;>
        simp [packetHandling, sendIfConnected, hc, ClientCall.toCase, AgentCase.message]
    | counterListResponse isMachine =>
      cases isMachine <;>
        simp [packetHandling, sendIfConnected, hc, ClientCall.toCase, AgentCase.message]
    | processCommandRequest type => cases type <;> rfl
    | counterCommandRequest isMachine type => cases type <;> rfl
    | _ => simp [packetHandling, sendIfConnected, hc, ClientCall.toCase, AgentCase.message]

theorem AgentClientSocket.fitsFrame_of_mem_calls {c : AgentClientSocket} {isSuccess : Bool}
    {msg : ServerMessage} {call : ClientCall} (h : call ∈ c.calls isSuccess msg) :
    call.wire.FitsFrame := by
  unfold calls at h
  split at h
  · cases msg with
    | agentIDResponse agentID alreadyRunning =>
      cases alreadyRunning with
      | true => cases h
      | false =>
        cases List.mem_singleton.mp h
        decide
    | processListResponse =>
      cases List.mem_singleton.mp h
      decide
    | counterListResponse isMachine =>
      cases List.mem_singleton.mp h
      cases isMachine <;> decide
    | startRecord isMachine =>
      cases List.mem_singleton.mp h
      cases isMachine <;> cases isSuccess <;> decide
    | _ => cases h
  · cases h

/-! ## The system -/

/-- A client, the server, and a channel in each direction. -/
structure ByteLink (ι : Type) where
  server : Server ι
  client : AgentClientSocket
  toServer : Channel
  toClient : Channel
  processed : List ServerMessage

inductive ByteEvent where
  | web (msg : WebMessage)
  | serve (now : Int)
  | read (isSuccess : Bool)
  | reorder (key : ByteStr) (members : MemberSet)
  | deliverToServer (n : Nat)
  | deliverToClient (n : Nat)

namespace ByteLink

variable {ι : Type} [DecidableEq ι]

/-- What the handlers have sent on the client's socket goes to the wire. -/
def flush (i : ι) (b : ByteLink ι) : Option (ByteLink ι) :=
  ((b.server.outbox i).mapM fun (msg : ServerMessage) => msg.call.sent).map fun bytes =>
    { b with
      server := { b.server with outbox := Function.update b.server.outbox i [] }
      toClient := b.toClient.send bytes.flatten }

/-- A client has connected, and has sent its `AgentIDRequest`. -/
def init (area : Buffer bufSize) (server : Server ι) (client : AgentClientSocket)
    (tempAddr : BitVec 32) (ramSize : BitVec 64) (serverSocket clientSocket : Nat) :
    Option (ByteLink ι) :=
  ((ClientCall.agentIDRequest tempAddr ramSize).sent area).map fun bytes =>
    ⟨server, (client.connProcess false tempAddr.toInt ramSize).1,
      (Channel.init serverSocket).send bytes, Channel.init clientSocket, []⟩

/-- `i` is the client's socket on the server. A packet of the client for which `AgentLink` has no
message is left out. -/
def step (ext : Externals) (area : Buffer bufSize) (i : ι) (b : ByteLink ι) :
    ByteEvent → Option (ByteLink ι)
  | .web msg =>
    if msg.token? = some (-1) then none
    else (b.server.step ext (.web msg)).bind fun server => { b with server }.flush i
  | .serve now => do
    let (packet, toServer) ← b.toServer.take
    let server ← b.server.step ext (.agent i now (AgentSocket.message packet))
    { b with server, toServer }.flush i
  | .read isSuccess => do
    let (packet, toClient) ← b.toClient.take
    let msg ← (AgentClientSocket.received packet).bind ServerCall.message?
    let bytes ← (b.client.calls isSuccess msg).mapM (·.sent area)
    some { b with
      client := (b.client.packetHandling msg).1
      toServer := b.toServer.send bytes.flatten
      toClient
      processed := b.processed ++ [msg] }
  | .reorder key members =>
    (b.server.step ext (.reorder key members)).map fun server => { b with server }
  | .deliverToServer n => (b.toServer.deliver .agentSocket n).map fun toServer => { b with toServer }
  | .deliverToClient n =>
    (b.toClient.deliver .agentClientSocket n).map fun toClient => { b with toClient }

def machine (ext : Externals) (area : Buffer bufSize) (i : ι) :
    EventMachine (ByteLink ι) ByteEvent := ⟨step ext area i⟩

/-- What the handlers send in this step fits. -/
def Fits (ext : Externals) (i : ι) (b : ByteLink ι) : ByteEvent → Prop
  | .web msg => ∀ s' ∈ b.server.step ext (.web msg), ∀ m ∈ s'.outbox i, m.Carried
  | .serve now => ∀ taken ∈ b.toServer.take,
    ∀ s' ∈ b.server.step ext (.agent i now (AgentSocket.message taken.1)),
      ∀ m ∈ s'.outbox i, m.Carried
  | _ => True

instance decidableFits (ext : Externals) (i : ι) (b : ByteLink ι) :
    ∀ e, Decidable (b.Fits ext i e)
  | .web _ => inferInstanceAs (Decidable (∀ s' ∈ _, _))
  | .serve _ => inferInstanceAs (Decidable (∀ taken ∈ _, _))
  | .read _ => isTrue trivial
  | .reorder .. => isTrue trivial
  | .deliverToServer _ => isTrue trivial
  | .deliverToClient _ => isTrue trivial

/-- The event of `AgentLink`. -/
def links : ByteEvent → List LinkEvent
  | .web msg => [.web msg]
  | .serve now => [.serve now]
  | .read _ => [.read]
  | .reorder key members => [.reorder key members]
  | .deliverToServer _ => []
  | .deliverToClient _ => []

/-- The bytes and packets in flight are the messages in flight. -/
structure Shows (i : ι) (b : ByteLink ι) (r : AgentLink ι) : Prop where
  flushed : b.server.outbox i = []
  server : r.server = b.server.withPending i (r.server.outbox i)
  client : r.client = b.client
  processed : r.processed = b.processed
  toServer : ∃ calls : List ClientCall, r.toServer = calls.map (·.toCase.message) ∧
    b.toServer.CarriesAll .agentSocket (calls.map ClientCall.wire)
  toClient : b.toClient.CarriesAll .agentClientSocket ((r.server.outbox i).map (·.call.wire))
  carried : ∀ msg ∈ r.server.outbox i, msg.Carried

/-! ### One step -/

section
variable {ext : Externals} {area : Buffer bufSize} {i : ι} {b b' : ByteLink ι} {r : AgentLink ι}
  {s s' : Server ι} {msgs : List ServerMessage} {msg : ServerMessage} {e : ByteEvent}
  {packet : CPacket} {channel : Channel}

/-- A handler has run, and its messages go to the wire. -/
theorem Shows.flush (h : Shows i b r) (hcarried : ∀ m ∈ s.outbox i, m.Carried)
    (hflush : ByteLink.flush i { b with server := s } = some b') :
    Shows i b' { r with server := s.withPending i (r.server.outbox i) } := by
  obtain ⟨bytes, hbytes, rfl⟩ := Option.map_eq_some_iff.mp hflush
  have houtbox : (s.withPending i (r.server.outbox i)).outbox i =
      r.server.outbox i ++ s.outbox i := Function.update_self ..
  refine ⟨Function.update_self .., ?_, h.client, h.processed, h.toServer, ?_, fun m hm => ?_⟩
  · simp [Server.withPending]
  · rw [houtbox, List.map_append]
    exact h.toClient.sendAll (fun m => m.call.sent_eq) (fun m hm => (hcarried m hm).1) hbytes
  · rw [houtbox] at hm
    exact (List.mem_append.mp hm).elim (h.carried m) (hcarried m)

/-- The packet that the server's logic thread takes is the client's next message. -/
theorem Shows.takeToServer (h : Shows i b r) (htake : b.toServer.take = some (packet, channel)) :
    ∃ rest, r.toServer = AgentSocket.message packet :: rest ∧
      Shows i { b with toServer := channel } { r with toServer := rest } := by
  obtain ⟨calls, htoServer, hcarries⟩ := h.toServer
  obtain ⟨w, ws, hfits, hws, rfl, hrest⟩ := hcarries.take htake
  obtain ⟨call, rest, rfl, rfl, rfl⟩ := List.map_eq_cons_iff.mp hws
  refine ⟨rest.map (·.toCase.message), ?_,
    ⟨h.flushed, h.server, h.client, h.processed, ⟨rest, rfl, hrest⟩, h.toClient, h.carried⟩⟩
  have hreceived : AgentSocket.message (call.wire.packet hfits .agentSocket) = call.toCase.message := by
    rw [AgentSocket.message, call.received_packet hfits]
  rw [htoServer, hreceived]
  rfl

/-- The packet that the client's logic thread takes is the server's next message. -/
theorem Shows.takeToClient (h : Shows i b r) (htake : b.toClient.take = some (packet, channel)) :
    ∃ m rest, r.server.outbox i = m :: rest ∧
      (AgentClientSocket.received packet).bind ServerCall.message? = some m ∧
      channel.CarriesAll .agentClientSocket (rest.map (·.call.wire)) := by
  obtain ⟨w, ws, hfits, hws, rfl, hrest⟩ := h.toClient.take htake
  obtain ⟨m, rest, hmsgs, rfl, rfl⟩ := List.map_eq_cons_iff.mp hws
  refine ⟨m, rest, hmsgs, ?_, hrest⟩
  obtain ⟨-, hmessage⟩ := h.carried m (hmsgs ▸ List.mem_cons_self)
  have hcall : ¬m.call.IsStopRecord := by cases m <;> exact id
  rw [(m.call.received_packet_iff hfits).mpr hcall]
  exact hmessage

theorem Shows.step (h : Shows i b r) (hfits : Fits ext i b e)
    (hstep : (machine ext area i).step b e = some b') :
    ∃ r', (AgentLink.machine ext i).run r (links e) = some r' ∧ Shows i b' r' := by
  cases e with
  | web msg =>
    obtain ⟨hmsg, hstep⟩ := Option.ite_none_left_eq_some.mp hstep
    obtain ⟨s, hserver, hflush⟩ := Option.bind_eq_some_iff.mp hstep
    refine ⟨_, ?_, h.flush (hfits s hserver) hflush⟩
    have hweb : r.server.step ext (.web msg) = some (s.withPending i (r.server.outbox i)) := by
      rw [h.server, Server.webStep_withPending, hserver, ← h.server]
      rfl
    simp [links, AgentLink.machine, AgentLink.step, hmsg, hweb]
  | serve now =>
    obtain ⟨⟨packet, channel⟩, htake, hstep⟩ := Option.bind_eq_some_iff.mp hstep
    obtain ⟨s, hserver, hflush⟩ := Option.bind_eq_some_iff.mp hstep
    obtain ⟨rest, htoServer, hshows⟩ := h.takeToServer htake
    refine ⟨_, ?_, hshows.flush (hfits _ htake s hserver) hflush⟩
    have hagent : r.server.step ext (.agent i now (AgentSocket.message packet)) =
        some (s.withPending i (r.server.outbox i)) := by
      rw [h.server, Server.agent_withPending, hserver, ← h.server]
      rfl
    simp [links, AgentLink.machine, AgentLink.step, htoServer, hagent]
  | read isSuccess =>
    obtain ⟨⟨packet, channel⟩, htake, hstep⟩ := Option.bind_eq_some_iff.mp hstep
    obtain ⟨m, hm, hstep⟩ := Option.bind_eq_some_iff.mp hstep
    obtain ⟨bytes, hbytes, heq⟩ := Option.bind_eq_some_iff.mp hstep
    cases heq
    obtain ⟨m', rest, hmsgs, hm', hcarries⟩ := h.takeToClient htake
    cases hm.symm.trans hm'
    obtain ⟨calls, htoServer, hcalls⟩ := h.toServer
    have hread : (AgentLink.machine ext i).run r [.read] = some ⟨
        { r.server with outbox := Function.update r.server.outbox i rest },
        (r.client.packetHandling m).1, r.toServer ++ (r.client.packetHandling m).2,
        r.processed ++ [m]⟩ := by
      simp [AgentLink.machine, AgentLink.step, hmsgs]
    have hserver : ({ r.server with outbox := Function.update r.server.outbox i rest } : Server ι) =
        b.server.withPending i rest := by
      have heq := h.server
      generalize r.server.outbox i = pending at heq
      rw [heq]
      simp [Server.withPending, h.flushed]
    refine ⟨_, hread, h.flushed, ?_, ?_, ?_, ?_, ?_, ?_⟩
    · change _ = b.server.withPending i (Function.update r.server.outbox i rest i)
      rw [hserver, Function.update_self]
    · rw [h.client]
    · rw [h.processed]
    · refine ⟨calls ++ b.client.calls isSuccess m, ?_, ?_⟩
      · rw [List.map_append, AgentClientSocket.map_calls, htoServer, h.client]
      · rw [List.map_append]
        exact hcalls.sendAll (fun call => call.sent_eq area)
          (fun _ => AgentClientSocket.fitsFrame_of_mem_calls) hbytes
    · change channel.CarriesAll _ ((Function.update r.server.outbox i rest i).map _)
      rw [Function.update_self]
      exact hcarries
    · intro m' hm'
      change m' ∈ Function.update r.server.outbox i rest i at hm'
      rw [Function.update_self] at hm'
      exact h.carried m' (hmsgs ▸ List.mem_cons_of_mem _ hm')
  | reorder key members =>
    obtain ⟨s, hserver, rfl⟩ := Option.map_eq_some_iff.mp hstep
    obtain ⟨-, hs⟩ := Option.ite_none_right_eq_some.mp hserver
    have hreorder : r.server.step ext (.reorder key members) =
        some (s.withPending i (r.server.outbox i)) := by
      rw [h.server, Server.reorder_withPending, hserver, ← h.server]
      rfl
    have houtbox : (s.withPending i (r.server.outbox i)).outbox i = r.server.outbox i := by
      rw [← Option.some.inj hs]
      simp [Server.withPending, h.flushed]
    refine ⟨{ r with server := s.withPending i (r.server.outbox i) }, ?_,
      ?_, ?_, h.client, h.processed, h.toServer, ?_, ?_⟩
    · simp [links, AgentLink.machine, AgentLink.step, hreorder]
    · rw [← Option.some.inj hs]
      exact h.flushed
    · exact congrArg (s.withPending i) houtbox.symm
    · rw [houtbox]
      exact h.toClient
    · rw [houtbox]
      exact h.carried
  | deliverToServer n => 
    obtain ⟨channel, hdeliver, rfl⟩ := Option.map_eq_some_iff.mp hstep
    obtain ⟨calls, htoServer, hcarries⟩ := h.toServer
    exact ⟨r, rfl, h.flushed, h.server, h.client, h.processed,
      ⟨calls, htoServer, hcarries.deliver hdeliver⟩, h.toClient, h.carried⟩
  | deliverToClient n => 
    obtain ⟨channel, hdeliver, rfl⟩ := Option.map_eq_some_iff.mp hstep
    exact ⟨r, rfl, h.flushed, h.server, h.client, h.processed, h.toServer,
      h.toClient.deliver hdeliver, h.carried⟩

/-! ### Runs -/

variable {client : AgentClientSocket} {tempAddr : BitVec 32} {ramSize : BitVec 64}
  {serverSocket clientSocket : Nat} {b₀ : ByteLink ι} {es : List ByteEvent}

theorem shows_init (hs : s.outbox i = []) (hserver : serverSocket ≠ 0) (hclient : clientSocket ≠ 0)
    (hinit : init area s client tempAddr ramSize serverSocket clientSocket = some b) :
    Shows i b (AgentLink.init s client tempAddr.toInt ramSize) := by
  obtain ⟨bytes, hbytes, rfl⟩ := Option.map_eq_some_iff.mp hinit
  refine ⟨hs, ?_, rfl, rfl, ⟨[.agentIDRequest tempAddr ramSize], rfl, ?_⟩, ?_, ?_⟩
  · change s = s.withPending i (s.outbox i)
    rw [hs, Server.withPending_nil]
  · exact (Channel.carriesAll_init hserver).send (fitsFrame_agentIDRequest tempAddr ramSize) hbytes
  · rw [AgentLink.init, hs]
    exact Channel.carriesAll_init hclient
  · intro m hm
    rw [AgentLink.init, hs] at hm
    cases hm

/-- Every run over the bytes is a run of `AgentLink`, with the same handlers in the same order. -/
theorem refines (hs : s.outbox i = []) (hserver : serverSocket ≠ 0) (hclient : clientSocket ≠ 0)
    (hinit : init area s client tempAddr ramSize serverSocket clientSocket = some b₀)
    (hfits : (machine ext area i).Meets (Fits ext i) b₀ es)
    (hrun : (machine ext area i).run b₀ es = some b) :
    ∃ r, (AgentLink.machine ext i).run (AgentLink.init s client tempAddr.toInt ramSize)
      (es.flatMap links) = some r ∧ Shows i b r :=
  hfits.run_simulation links (fun h hfits hstep => h.step hfits hstep)
    (shows_init hs hserver hclient hinit) hrun

/-- When no byte and no packet is left, all has been said, the record says that it is recording, and
the client's list of processes is the stored set. -/
theorem quiet (hs : AgentLink.Connects ext i tempAddr.toInt s)
    (hprocess : client.query.checkProcessList = []) (hserver : serverSocket ≠ 0)
    (hclient : clientSocket ≠ 0)
    (hinit : init area (AgentSocket.acceptProcess false i s) client tempAddr ramSize serverSocket
      clientSocket = some b₀)
    (hfits : (machine ext area i).Meets (Fits ext i) b₀ es)
    (hrun : (machine ext area i).run b₀ es = some b)
    (htoServer : b.toServer.Idle) (htoClient : b.toClient.Idle) :
    talk b.processed = AgentLink.conversation.map some ∧
      ∃ jv, recordAt b.server.store tempAddr.toInt = some jv ∧ b.client.agentID = jv.agentNumber ∧
        jv.isOn = true ∧ jv.isRecording = true ∧ b.client.query.checkProcessList.Nodup ∧
        ∀ x, x ∈ b.client.query.checkProcessList ↔
          x ∈ b.server.store.set (processListKey jv.agentNumber) := by
  have houtbox : (AgentSocket.acceptProcess false i s).outbox i = [] := by
    simp [AgentSocket.acceptProcess]
  obtain ⟨r, hr, h⟩ := refines houtbox hserver hclient hinit hfits hrun
  have hread : r.server.outbox i = [] :=
    List.map_eq_nil_iff.mp (h.toClient.idle_iff.mp htoClient)
  have hserved : r.toServer = [] := by
    obtain ⟨calls, hcalls, hcarries⟩ := h.toServer
    rw [hcalls, List.map_eq_nil_iff.mp (hcarries.idle_iff.mp htoServer), List.map_nil]
  obtain ⟨d, htalks⟩ := AgentLink.run_talks hs hr
  obtain ⟨htalk, jv, hjv, hnumber, hID, hon, now, -, hstarted⟩ := htalks.completes hserved hread
  have hempty : client.query.list .process = [] := hprocess
  obtain ⟨hlinked, hin⟩ :=
    AgentLink.run_inStep_process (hs.linked hempty) (hs.waiting hempty).inStep hr
  have hans : r.Answered i .process := by
    obtain ⟨names, hnames⟩ := AgentLink.mem_processed_of_talk htalk
    exact ⟨_, List.mem_append_left _ hnames, trivial⟩
  have hview : r.view i .process = _ := hin.eq hans
  rw [AgentLink.view_of_read hread] at hview
  rw [h.server] at hjv
  refine ⟨h.processed ▸ htalk, jv, hjv, h.client ▸ hID, hon, hstarted.isRecording,
    h.client ▸ hlinked.nodup, fun x => ?_⟩
  rw [← h.client, hnumber]
  refine (Set.ext_iff.mp hview x).trans ?_
  rw [h.server]
  simp [readings, ListKind.read, Server.stored, ListKind.key]

/-! ### A run -/

/-- A client with the address 7 connects to a server that has just been started. -/
def connected : Option (ByteLink Nat) :=
  init (Buffer.zero bufSize) (AgentSocket.acceptProcess false 0 (.init Store.empty)) {} 7#32 0#64 1 1

/-- The whole conversation, with the packets in pieces. -/
def wholeConversation : List ByteEvent :=
  [.deliverToServer 4, .deliverToServer 8000, .serve 1, .deliverToClient 4, .deliverToClient 8000,
    .read true, .deliverToServer 4, .serve 1, .deliverToClient 4, .deliverToClient 8000, .read true,
    .deliverToServer 4, .deliverToServer 8000, .serve 2, .deliverToClient 4, .deliverToClient 8000,
    .read true, .deliverToServer 3, .deliverToServer 1, .deliverToServer 8000, .serve 2,
    .deliverToClient 4, .deliverToClient 8000, .read true, .deliverToServer 4, .serve 3,
    .deliverToClient 4, .deliverToClient 19, .read true, .deliverToServer 4, .deliverToServer 4,
    .serve 4, .deliverToClient 4, .deliverToClient 10, .deliverToClient 9, .read true,
    .deliverToServer 4, .deliverToServer 4, .serve 5]

theorem wholeConversation_runs : ∃ b₀ ∈ connected,
    (machine (.ofTexts []) (Buffer.zero bufSize) 0).Meets (Fits (.ofTexts []) 0) b₀ wholeConversation ∧
    ∃ b ∈ (machine (.ofTexts []) (Buffer.zero bufSize) 0).run b₀ wholeConversation,
      b.toServer.Idle ∧ b.toClient.Idle := by decide +kernel

theorem connects_init :
    AgentLink.Connects (.ofTexts []) 0 (7#32).toInt (.init Store.empty : Server Nat) :=
  ⟨⟨Store.empty, [], recordsNumbered_empty rfl, rfl⟩, nofun, nofun, by decide⟩

theorem refines_whole : ∃ b₀ ∈ connected,
    ∃ b ∈ (machine (.ofTexts []) (Buffer.zero bufSize) 0).run b₀ wholeConversation,
      ∃ r, (AgentLink.machine (.ofTexts []) 0).run
        (AgentLink.init (AgentSocket.acceptProcess false 0 (.init Store.empty)) {} (7#32).toInt 0#64)
        (wholeConversation.flatMap links) = some r ∧ Shows 0 b r := by
  obtain ⟨b₀, hinit, hfits, b, hrun, -⟩ := wholeConversation_runs
  exact ⟨b₀, hinit, b, hrun, refines rfl (by decide) (by decide) hinit hfits hrun⟩

theorem quiet_whole : ∃ b₀ ∈ connected,
    ∃ b ∈ (machine (.ofTexts []) (Buffer.zero bufSize) 0).run b₀ wholeConversation,
      talk b.processed = AgentLink.conversation.map some ∧
      ∃ jv, recordAt b.server.store (7#32).toInt = some jv ∧ b.client.agentID = jv.agentNumber ∧
        jv.isOn = true ∧ jv.isRecording = true ∧ b.client.query.checkProcessList.Nodup ∧
        ∀ x, x ∈ b.client.query.checkProcessList ↔
          x ∈ b.server.store.set (processListKey jv.agentNumber) := by
  obtain ⟨b₀, hinit, hfits, b, hrun, htoServer, htoClient⟩ := wholeConversation_runs
  exact ⟨b₀, hinit, b, hrun,
    quiet connects_init rfl (by decide) (by decide) hinit hfits hrun htoServer htoClient⟩

end

end ByteLink

end PSM
