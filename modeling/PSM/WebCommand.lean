import PSM.AgentData
import PSM.Channel
import PSM.PsmNet

/-! A command of the web, from the request of a page to the text that the page gets.

`psmnet.py` opens a connection for each command. The request arrives at the server in any pieces,
its packet waits in the logic queue while other handlers run, and the heartbeat sends health checks
meanwhile. `WebLink.carriedOut_once` says that a command is carried out at most once, between two
other handlers, and that the text tells whether it has changed the store. -/

namespace PSM
open ByteStr ProtoWire Agent Redis RedisManager

/-! ## What a command changes -/

namespace Server

variable {ι : Type} [DecidableEq ι] {s s' : Server ι} {json : JsonCpp}

theorem processCommand_store_eq {token : Int} {type : ProcessCommandType} {name : ByteStr}
    (h : WebCommandSocket.processCommand token type name s = some (false, s')) :
    s'.store = s.store := by
  cases type with
  | addList =>
    rw [processCommand_addList_eq] at h
    obtain ⟨agentID, -, heq⟩ := Option.map_eq_some_iff.mp h
    obtain ⟨hname, hs⟩ := Prod.mk.inj heq
    have hmem : name ∈ s.store.set (processListKey agentID) := by simpa using hname
    simp only [hmem, not_true_eq_false, if_false] at hs
    subst hs
    exact Store.modifySet_eq_self (f := (·.add name)) (MemberSet.add_of_mem hmem)
  | deleteList =>
    rw [processCommand_deleteList_eq] at h
    obtain ⟨agentID, -, heq⟩ := Option.map_eq_some_iff.mp h
    obtain ⟨hname, hs⟩ := Prod.mk.inj heq
    have hmem : name ∉ s.store.set (processListKey agentID) := by simpa using hname
    simp only [hmem, if_false] at hs
    subst hs
    exact Store.modifySet_eq_self (f := (·.remove name)) (MemberSet.remove_of_notMem hmem)
  | _ =>
    obtain ⟨_, -, -, rfl⟩ := eq_of_processCommand h (by decide) (by decide)
    rfl

theorem counterCommands_store_eq {agentID : Int} {socket : Option ι} {isMachine : Bool}
    {type : CounterCommandType} {names : List ByteStr}
    (h : WebCommandSocket.counterCommands json agentID socket isMachine type names s =
      some (false, s')) : s'.store = s.store := by
  induction names generalizing s with
  | nil =>
    cases h
    rfl
  | cons name names ih =>
    obtain ⟨⟨done, t⟩, hone, h⟩ := Option.bind_eq_some_iff.mp h
    obtain ⟨⟨resultv, t'⟩, hrest, heq⟩ := Option.bind_eq_some_iff.mp h
    obtain ⟨hfalse, rfl⟩ := Prod.mk.inj (Option.some.inj heq)
    obtain ⟨rfl, rfl⟩ := Bool.or_eq_false_iff.mp hfalse
    rcases (counterCommand_cases hone).2 with ⟨-, hsame, -⟩ | ⟨hdone, -⟩
    · exact (ih hrest).trans hsame
    · cases hdone

/-- The response tells whether the store has changed. -/
theorem success_iff {msg : WebMessage} {response : WebResponse}
    (h : WebCommandSocket.packetHandling json s msg = some (some response, s')) :
    response.success = true ↔ s'.store ≠ s.store := by
  have hiff (b : Bool) (hfalse : b = false → s'.store = s.store)
      (hsame : s'.store = s.store → b = false) : b = true ↔ s'.store ≠ s.store := by
    cases b with
    | false => exact iff_of_false nofun (not_not_intro (hfalse rfl))
    | true => exact iff_of_true rfl fun heq => nomatch hsame heq
  cases msg with
  | healthAck => cases h
  | invalid => cases h
  | processCommandRequest token type name =>
    obtain ⟨⟨b, t⟩, hcommand, heq⟩ := Option.bind_eq_some_iff.mp h
    cases heq
    refine hiff b (fun hb => processCommand_store_eq (hb ▸ hcommand)) ?_
    have hID : ∃ agentID, agentIDAt s.store token = some agentID := by
      rw [WebCommandSocket.processCommand, redis_getAgentID] at hcommand
      obtain ⟨_, hget, -⟩ := Option.bind_eq_some_iff.mp hcommand
      obtain ⟨agentID, hID, -⟩ := Option.map_eq_some_iff.mp hget
      exact ⟨agentID, hID⟩
    obtain ⟨agentID, hID⟩ := hID
    have hsame : _ ∧ (s'.store = s.store → b = false) :=
      @processCommand_leavesAlone_iff _ _ _ _ json _ _ _ _ _ hID hcommand
    exact hsame.2
  | counterCommandRequest token isMachine type names =>
    obtain ⟨agentID, b, -, heq, hcommands⟩ := counterCommandRequest_cases h
    cases heq
    exact hiff b (fun hb => counterCommands_store_eq (hb ▸ hcommands))
      (counterCommands_leavesAlone hcommands).2.2

end Server

/-! ## The bytes of the server -/

namespace WebCommandSocket
open Web

/-- The message that the handler is run with. A message that does not parse is dropped like a type
without a case. -/
def message (packet : CPacket) : WebMessage :=
  if packet.type = PsmType.healthAck.number then .healthAck
  else if packet.type = PsmType.processCommandRequest.number then
    match packet.parse WsProcessCommandRequest.messageType with
    | some msg => .processCommandRequest msg.token.toInt msg.type msg.processName
    | none => .invalid
  else if packet.type = PsmType.counterCommandRequest.number then
    match packet.parse WsCounterCommandRequest.messageType with
    | some msg => .counterCommandRequest msg.token.toInt msg.ismachine msg.type msg.countername
    | none => .invalid
  else .invalid

/-- The sender that the handler calls. -/
def sendResponse : WebResponse → Option ByteStr
  | .processCommandResponse token type success =>
    Web.WebCommandSocket.sendProcessCommandResponse (BitVec.ofInt 32 token) type success []
  | .counterCommandResponse token type success =>
    Web.WebCommandSocket.sendCounterCommandResponse (BitVec.ofInt 32 token) type success []

end WebCommandSocket

namespace Web

theorem byteSize_commandResponse {T : Type} {number : T → Nat} {ofNumber? : Nat → Option T}
    {number_lt : ∀ type, number type < 2 ^ 64}
    {ofNumber?_number : ∀ type, ofNumber? (number type) = some type} (token : BitVec 32) (type : T)
    (success : Bool) :
    (SwCommandResponse.messageType number ofNumber? number_lt ofNumber?_number).byteSize
      (commandResponse token type success []) ≤ bufSize := by
  have h1 := length_encode_varint_le 1 (int32Varint token)
  have h2 := length_encode_varint_le 2 (number type)
  have h3 := length_encode_varint_le 3
    (if success then Result.success else Result.failure).number
  have hfields : (SwCommandResponse.messageType number ofNumber? number_lt
      ofNumber?_number).serialize (commandResponse token type success []) =
      Field.encode ⟨1, .varint (int32Varint token)⟩ ++ (Field.encode ⟨2, .varint (number type)⟩ ++
        Field.encode ⟨3, .varint (if success then Result.success else Result.failure).number⟩) := by
    simp [MessageType.serialize, SwCommandResponse.messageType, commandResponse, encodeFields]
  rw [MessageType.byteSize, hfields]
  simp only [List.length_append, bufSize]
  omega

end Web

/-- The frame of a response. -/
def WebResponse.frame : WebResponse → Web.WebFrame
  | .processCommandResponse token type success =>
    .ofMessage Web.SwProcessCommandResponse.messageType
      (Web.commandResponse (BitVec.ofInt 32 token) type success []) .processCommandResponse
      (Nat.lt_of_le_of_lt (Web.byteSize_commandResponse _ _ _) (by decide))
  | .counterCommandResponse token type success =>
    .ofMessage Web.SwCounterCommandResponse.messageType
      (Web.commandResponse (BitVec.ofInt 32 token) type success []) .counterCommandResponse
      (Nat.lt_of_le_of_lt (Web.byteSize_commandResponse _ _ _) (by decide))

theorem WebCommandSocket.sendResponse_eq (response : WebResponse) :
    sendResponse response = some response.frame.bytes := by
  cases response with
  | processCommandResponse => exact Web.sendPacket_eq (Web.byteSize_commandResponse _ _ _)
  | counterCommandResponse => exact Web.sendPacket_eq (Web.byteSize_commandResponse _ _ _)

/-! ## The commands of the pages -/

namespace Web

/-- How the web reads the responses. -/
structure Parsers where
  process : ByteStr → Option SwProcessCommandResponse
  counter : ByteStr → Option SwCounterCommandResponse
  absent : Option Result
  process_parts : ParsesParts SwProcessCommandResponse.messageType process absent
  counter_parts : ParsesParts SwCounterCommandResponse.messageType counter absent

/-- What the views `AddProcess`, `DeleteProcess`, `AddCounter` and `DeleteCounter` ask for. -/
inductive WebCommand where
  | process (token : BitVec 32) (processname : ByteStr) (isadd : Bool)
  | counter (token : BitVec 32) (isadd ismachine : Bool) (counterlist : List ByteStr)

namespace WebCommand

def toAgentServer (parsers : Parsers) : WebCommand → StreamSocket UInt8 →
    StreamSocket UInt8 × Option ByteStr
  | .process token processname isadd =>
    processCommandToAgentServer parsers.process token processname isadd
  | .counter token isadd ismachine counterlist =>
    counterCommandToAgentServer parsers.counter token isadd ismachine counterlist

def type : WebCommand → PsmType
  | .process .. => .processCommandRequest
  | .counter .. => .counterCommandRequest

def smsg : WebCommand → ByteStr
  | .process token processname isadd => WsProcessCommandRequest.messageType.serialize
    ⟨token, if isadd then .addList else .deleteList, processname⟩
  | .counter token isadd ismachine counterlist => WsCounterCommandRequest.messageType.serialize
    ⟨if isadd then .cAddList else .cDeleteList, counterlist, ismachine, token⟩

/-- The bytes that the web sends. -/
def request (cmd : WebCommand) : Option ByteStr := pack cmd.type cmd.smsg

/-- The message that the server's handler should be run with. -/
def message : WebCommand → WebMessage
  | .process token processname isadd =>
    .processCommandRequest token.toInt (if isadd then .addList else .deleteList) processname
  | .counter token isadd ismachine counterlist =>
    .counterCommandRequest token.toInt ismachine (if isadd then .cAddList else .cDeleteList)
      counterlist

/-- The request leaves room for the header in the server's buffer. -/
def FitsFrame (cmd : WebCommand) : Prop := cmd.smsg.length ≤ bufSize - headerSize

instance (cmd : WebCommand) : Decidable cmd.FitsFrame := inferInstanceAs (Decidable (_ ≤ _))

def frame (cmd : WebCommand) (h : cmd.FitsFrame) : Frame :=
  ⟨cmd.type.number, cmd.smsg, Nat.lt_trans cmd.type.number_lt (by decide), h⟩

variable {cmd : WebCommand} {parsers : Parsers}

theorem request_eq (h : cmd.FitsFrame) : cmd.request = some (cmd.frame h).bytes :=
  if_pos (Nat.lt_of_le_of_lt h (by decide))

/-- The server's handler is run with what the page asks for. -/
theorem message_packet (h : cmd.FitsFrame) :
    WebCommandSocket.message ((cmd.frame h).packet SocketClass.webCommandSocket.ownert) =
      cmd.message := by
  have hlen : ¬(cmd.smsg.length : Int) < 0 := by omega
  have hsize : cmd.smsg.length < 2 ^ 32 := Nat.lt_of_le_of_lt h (by decide)
  have htype : toShort cmd.type.number = cmd.type.number := toShort_eq_self cmd.type.number_lt
  have hparse {α : Type} (M : MessageType α) :
      ((cmd.frame h).packet SocketClass.webCommandSocket.ownert).parse M = M.parse cmd.smsg := by
    simp [CPacket.parse, Frame.packet, frame]
  simp only [WebCommandSocket.message, hparse]
  simp only [Frame.packet, frame, htype, Int.natCast_inj, PsmType.number_inj]
  cases cmd with
  | process token processname isadd =>
    rw [smsg, MessageType.parse_serialize _ hsize]
    rfl
  | counter token isadd ismachine counterlist =>
    rw [smsg, MessageType.parse_serialize _ hsize]
    rfl

/-- The response to a command has the type that its client waits for. -/
def Answers (cmd : WebCommand) : WebResponse → Prop
  | .processCommandResponse .. => cmd.type = .processCommandRequest
  | .counterCommandResponse .. => cmd.type = .counterCommandRequest

/-- The frames of health checks have no payload to be read. -/
theorem payloadsWhole {fs : List WebFrame} (h : ∀ f ∈ fs, f = healthCheckFrame)
    (segments : Stream' Nat) : PayloadsWhole fs segments := by
  induction fs generalizing segments with
  | nil => trivial
  | cons f fs ih =>
    cases h f List.mem_cons_self
    exact ⟨fun hne => absurd rfl hne, ih (fun g hg => h g (List.mem_cons_of_mem _ hg)) _⟩

theorem sendable_commandResponse {T : Type} (token : BitVec 32) (type : T) (success : Bool) :
    (commandResponse token type success []).Sendable := nofun

/-- The web returns the text of the response when it reads the headers and the payload whole. -/
theorem toAgentServer_eq {response : WebResponse} {before : List WebFrame} {rest : ByteStr}
    {segments : Stream' Nat} (hfits : cmd.FitsFrame) (hanswers : cmd.Answers response)
    (hbefore : ∀ f ∈ before, f = healthCheckFrame) (hheaders : HeadersWhole before segments)
    (hpayload : response.frame.payload.length ≤ max 1 (segments.get (reads before + 1))) :
    (cmd.toAgentServer parsers ⟨stream before ++ response.frame.bytes ++ rest, segments, []⟩).2 =
      some (resultText (if response.success then .success else .failure)) := by
  have hpayloads := payloadsWhole hbefore segments
  have hrequest : cmd.request.isSome := by
    rw [request_eq hfits]
    rfl
  have htype (type : PsmType) (hne : type ≠ .healthCheck) : ∀ f ∈ before, f.type ≠ type.number := by
    intro f hf heq
    cases hbefore f hf
    exact hne (PsmType.number_inj.mp (heq.symm : type.number = PsmType.healthCheck.number))
  cases cmd with
  | process token processname isadd =>
    cases response with
    | counterCommandResponse => cases hanswers
    | processCommandResponse token type success =>
      exact (commandToAgentServer_eq_iff parsers.process_parts (by decide) (htype _ (by decide))
        (sendable_commandResponse _ _ _) _ (serialize_commandResponse_ne_nil _) hpayloads).mpr
        (.of_whole hrequest hheaders hpayload)
  | counter token isadd ismachine counterlist =>
    cases response with
    | processCommandResponse => cases hanswers
    | counterCommandResponse token type success =>
      exact (commandToAgentServer_eq_iff parsers.counter_parts (by decide) (htype _ (by decide))
        (sendable_commandResponse _ _ _) _ (serialize_commandResponse_ne_nil _) hpayloads).mpr
        (.of_whole hrequest hheaders hpayload)

/-- With nothing but health checks to read, the web returns the empty text. -/
theorem commandLoop_of_end {response : PsmType} {commandResult : ByteStr → Option ByteStr}
    {fs : List WebFrame} {segments : Stream' Nat} {sent : List ByteStr}
    (hresponse : response ≠ .healthCheck) (hfs : ∀ f ∈ fs, f = healthCheckFrame)
    (h : HeadersWhole fs segments) :
    (commandLoop response commandResult ⟨stream fs, segments, sent⟩).2 = some [] := by
  induction fs generalizing segments sent with
  | nil =>
    rw [commandLoop_eq, commandPass]
    simp [StreamSocket.recv]
  | cons f fs ih =>
    cases hfs f List.mem_cons_self
    have htype : healthCheckFrame.type ≠ response.number := fun heq =>
      hresponse (PsmType.number_inj.mp heq.symm)
    rw [stream_cons, commandLoop_eq, commandPass_of_whole htype h.1 fun hne => absurd rfl hne]
    exact ih (fun g hg => hfs g (List.mem_cons_of_mem _ hg)) h.2

theorem toAgentServer_of_end {fs : List WebFrame} {segments : Stream' Nat} (hfits : cmd.FitsFrame)
    (hfs : ∀ f ∈ fs, f = healthCheckFrame) (h : HeadersWhole fs segments) :
    (cmd.toAgentServer parsers ⟨stream fs, segments, []⟩).2 = some [] := by
  have hrequest := request_eq hfits
  cases cmd with
  | process token processname isadd =>
    change (commandToAgentServer (request (.process token processname isadd)) _ _ _).2 = _
    rw [hrequest]
    exact commandLoop_of_end (by decide) hfs h
  | counter token isadd ismachine counterlist =>
    change (commandToAgentServer (request (.counter token isadd ismachine counterlist)) _ _ _).2 = _
    rw [hrequest]
    exact commandLoop_of_end (by decide) hfs h

end WebCommand

end Web

open Web

/-! ## The connection of a command -/

/-- The connection, and the server behind it. `toWeb` has all that the server has sent on it. -/
structure WebLink (ι : Type) where
  server : Server ι
  toServer : Channel
  toWeb : ByteStr

inductive WebLinkEvent (ι : Type) where
  | deliver (n : Nat)
  /-- The logic thread handles the next packet of the connection. -/
  | handle
  | healthCheck
  /-- Another handler of the server runs. -/
  | other (e : ServerEvent ι)

namespace WebLinkEvent

variable {ι : Type}

def other? : WebLinkEvent ι → Option (ServerEvent ι)
  | other e => some e
  | _ => none

/-- The frame that the heartbeat sends. -/
def check? : WebLinkEvent ι → Option WebFrame
  | healthCheck => some healthCheckFrame
  | _ => none

end WebLinkEvent

namespace WebLink

variable {ι : Type} [DecidableEq ι]

def init (server : Server ι) (socket_ : Nat) (cmd : WebCommand) : Option (WebLink ι) :=
  cmd.request.map fun data => ⟨server, (Channel.init socket_).send data, []⟩

def step (ext : Externals) (b : WebLink ι) : WebLinkEvent ι → Option (WebLink ι)
  | .deliver n =>
    (b.toServer.deliver .webCommandSocket n).map fun toServer => { b with toServer }
  | .handle => do
    let (packet, toServer) ← b.toServer.take
    let (response, server) ←
      WebCommandSocket.packetHandling ext.json b.server (WebCommandSocket.message packet)
    let data ← response.elim (some []) WebCommandSocket.sendResponse
    some ⟨server, toServer, b.toWeb ++ data⟩
  | .healthCheck =>
    Web.WebCommandSocket.sendHealthCheck.map fun data => { b with toWeb := b.toWeb ++ data }
  | .other e => (b.server.step ext e).map fun server => { b with server }

def machine (ext : Externals) : EventMachine (WebLink ι) (WebLinkEvent ι) := ⟨step ext⟩

/-- What the events other than those of the connection do to the server. -/
def others (es : List (WebLinkEvent ι)) : List (ServerEvent ι) := es.filterMap WebLinkEvent.other?

def checks (es : List (WebLinkEvent ι)) : List WebFrame := es.filterMap WebLinkEvent.check?

/-- What has become of a command after the events, and the text that the page gets when it reads what
has been sent, with no header and no payload in parts. -/
inductive Outcome (ext : Externals) (parsers : Parsers) (cmd : WebCommand) (s : Server ι)
    (es : List (WebLinkEvent ι)) (b : WebLink ι) : Prop where
  /-- The server does not know of it yet. -/
  | waiting (handle : WebLinkEvent.handle ∉ es)
    (server : (Server.machine ext).run s (others es) = some b.server)
    (text : ∀ segments, HeadersWhole (checks es) segments →
      (cmd.toAgentServer parsers ⟨b.toWeb, segments, []⟩).2 = some [])
  /-- It has been carried out between two other handlers. -/
  | carriedOut (before after : List (WebLinkEvent ι)) (s₁ s₂ : Server ι) (response : WebResponse)
    (events : es = before ++ .handle :: after) (once : WebLinkEvent.handle ∉ before ++ after)
    (server : (Server.machine ext).run s (others before) = some s₁)
    (command : WebCommandSocket.packetHandling ext.json s₁ cmd.message = some (some response, s₂))
    (server' : (Server.machine ext).run s₂ (others after) = some b.server)
    (text : ∀ segments, HeadersWhole (checks before) segments →
      response.frame.payload.length ≤ max 1 (segments.get (reads (checks before) + 1)) →
      ((cmd.toAgentServer parsers ⟨b.toWeb, segments, []⟩).2 = some (ascii "success") ↔
        s₂.store ≠ s₁.store) ∧
      ((cmd.toAgentServer parsers ⟨b.toWeb, segments, []⟩).2 = some (ascii "fail") ↔
        s₂.store = s₁.store))

/-! ## Steps -/

/-- The request is on its way to the handler. -/
structure Waiting (ext : Externals) (cmd : WebCommand) (hfits : cmd.FitsFrame) (s : Server ι)
    (es : List (WebLinkEvent ι)) (b : WebLink ι) : Prop where
  handle : WebLinkEvent.handle ∉ es
  server : (Server.machine ext).run s (others es) = some b.server
  carries : b.toServer.Carries .webCommandSocket [cmd.frame hfits]
  toWeb : b.toWeb = stream (checks es)

/-- The handler has run between the events `before` and the events `after`. -/
structure Handled (ext : Externals) (cmd : WebCommand) (s : Server ι)
    (before after : List (WebLinkEvent ι)) (s₁ s₂ : Server ι) (response : WebResponse)
    (b : WebLink ι) : Prop where
  once : WebLinkEvent.handle ∉ before ++ after
  server : (Server.machine ext).run s (others before) = some s₁
  command : WebCommandSocket.packetHandling ext.json s₁ cmd.message = some (some response, s₂)
  server' : (Server.machine ext).run s₂ (others after) = some b.server
  carries : b.toServer.Carries .webCommandSocket []
  toWeb : b.toWeb = stream (checks before) ++ response.frame.bytes ++ stream (checks after)

section
variable {ext : Externals} {parsers : Parsers} {cmd : WebCommand} {hfits : cmd.FitsFrame}
  {s s₁ s₂ : Server ι} {es before after : List (WebLinkEvent ι)} {e : WebLinkEvent ι}
  {b b' : WebLink ι} {response : WebResponse}

omit [DecidableEq ι] in
theorem checks_eq : ∀ f ∈ checks es, f = healthCheckFrame := by
  intro f hf
  obtain ⟨e, -, he⟩ := List.mem_filterMap.mp hf
  cases e <;> cases he
  rfl

theorem stream_append (fs gs : List WebFrame) : stream (fs ++ gs) = stream fs ++ stream gs :=
  List.flatMap_append

/-- What an event other than the handling of the command does. -/
structure Passes (ext : Externals) (b : WebLink ι) (e : WebLinkEvent ι) (b' : WebLink ι) :
    Prop where
  server : (Server.machine ext).run b.server (others [e]) = some b'.server
  carries : ∀ frames, b.toServer.Carries .webCommandSocket frames →
    b'.toServer.Carries .webCommandSocket frames
  toWeb : b'.toWeb = b.toWeb ++ stream (checks [e])

theorem passes_of_step (hstep : (machine ext).step b e = some b') (he : e ≠ .handle) :
    Passes ext b e b' := by
  cases e with
  | handle => exact absurd rfl he
  | deliver n =>
    obtain ⟨toServer, hdeliver, rfl⟩ := Option.map_eq_some_iff.mp hstep
    exact ⟨rfl, fun _ h => h.deliver hdeliver, (List.append_nil _).symm⟩
  | healthCheck =>
    have hsend : Web.WebCommandSocket.sendHealthCheck.map
        (fun data => ({ b with toWeb := b.toWeb ++ data } : WebLink ι)) = some b' := hstep
    rw [sendHealthCheck_eq] at hsend
    cases hsend
    exact ⟨rfl, fun _ => id, congrArg (b.toWeb ++ ·) (List.append_nil _).symm⟩
  | other e =>
    obtain ⟨server, hserver, rfl⟩ := Option.map_eq_some_iff.mp hstep
    refine ⟨?_, fun _ => id, (List.append_nil _).symm⟩
    have hone : (Server.machine ext).step b.server e = some server := hserver
    change ((Server.machine ext).step b.server e).bind _ = _
    rw [hone]
    rfl

omit [DecidableEq ι] in
theorem others_append : others (es ++ [e]) = others es ++ others [e] := List.filterMap_append

omit [DecidableEq ι] in
theorem checks_append : checks (es ++ [e]) = checks es ++ checks [e] := List.filterMap_append

theorem Waiting.pass (h : Waiting ext cmd hfits s es b) (hpass : Passes ext b e b')
    (he : e ≠ .handle) : Waiting ext cmd hfits s (es ++ [e]) b' where
  handle hmem := by
    rcases List.mem_append.mp hmem with hmem | hmem
    · exact h.handle hmem
    · exact he (List.mem_singleton.mp hmem).symm
  server := by
    rw [others_append, EventMachine.run_append, h.server]
    exact hpass.server
  carries := hpass.carries _ h.carries
  toWeb := by rw [hpass.toWeb, h.toWeb, ← stream_append, ← checks_append]

/-- A command has a response, of the type that its client waits for. -/
theorem exists_response {response : Option WebResponse}
    (h : WebCommandSocket.packetHandling ext.json s₁ cmd.message = some (response, s₂)) :
    ∃ r, response = some r ∧ cmd.Answers r := by
  cases cmd with
  | process token processname isadd =>
    obtain ⟨⟨b, t⟩, -, heq⟩ := Option.bind_eq_some_iff.mp h
    cases heq
    exact ⟨_, rfl, rfl⟩
  | counter token isadd ismachine counterlist =>
    obtain ⟨agentID, b, -, rfl, -⟩ := Server.counterCommandRequest_cases h
    exact ⟨_, rfl, rfl⟩

theorem Waiting.handled (h : Waiting ext cmd hfits s es b)
    (hstep : (machine ext).step b .handle = some b') :
    ∃ response, Handled ext cmd s es [] b.server b'.server response b' := by
  obtain ⟨⟨packet, toServer⟩, htake, hstep⟩ := Option.bind_eq_some_iff.mp hstep
  obtain ⟨⟨response, server⟩, hcommand, hstep⟩ := Option.bind_eq_some_iff.mp hstep
  obtain ⟨data, hdata, heq⟩ := Option.bind_eq_some_iff.mp hstep
  cases heq
  obtain ⟨f, rest, hframe, rfl, hcarries⟩ := h.carries.take htake
  cases hframe
  rw [WebCommand.message_packet] at hcommand
  obtain ⟨r, rfl, -⟩ := exists_response hcommand
  cases (WebCommandSocket.sendResponse_eq r).symm.trans hdata
  refine ⟨r, ?_, h.server, hcommand, rfl, hcarries, ?_⟩
  · rw [List.append_nil]
    exact h.handle
  · rw [h.toWeb]
    exact (List.append_nil _).symm

theorem Handled.step (h : Handled ext cmd s before after s₁ s₂ response b)
    (hstep : (machine ext).step b e = some b') :
    Handled ext cmd s before (after ++ [e]) s₁ s₂ response b' := by
  have he : e ≠ .handle := by
    rintro rfl
    obtain ⟨⟨packet, toServer⟩, htake, -⟩ := Option.bind_eq_some_iff.mp hstep
    obtain ⟨f, rest, hnil, -⟩ := h.carries.take htake
    cases hnil
  have hpass := passes_of_step hstep he
  refine ⟨?_, h.server, h.command, ?_, hpass.carries _ h.carries, ?_⟩
  · rw [← List.append_assoc]
    intro hmem
    rcases List.mem_append.mp hmem with hmem | hmem
    · exact h.once hmem
    · exact he (List.mem_singleton.mp hmem).symm
  · rw [others_append, EventMachine.run_append, h.server']
    exact hpass.server
  · rw [hpass.toWeb, h.toWeb, List.append_assoc, ← stream_append, ← checks_append]

/-! ## Runs -/

theorem waiting_or_handled {socket_ : Nat} (hsocket : socket_ ≠ 0)
    (hinit : init s socket_ cmd = some b) (hrun : (machine ext).run b es = some b') :
    Waiting ext cmd hfits s es b' ∨ ∃ before after s₁ s₂ response,
      es = before ++ .handle :: after ∧ Handled ext cmd s before after s₁ s₂ response b' := by
  refine EventMachine.run_induction (P := fun es b' => Waiting ext cmd hfits s es b' ∨
    ∃ before after s₁ s₂ response, es = before ++ .handle :: after ∧
      Handled ext cmd s before after s₁ s₂ response b') ?_ ?_ hrun
  · rw [init, WebCommand.request_eq hfits] at hinit
    cases hinit
    exact .inl ⟨List.not_mem_nil, rfl, (Channel.carries_init hsocket).send _, rfl⟩
  · rintro es e b₁ b₂ - (hwaiting | ⟨before, after, s₁, s₂, response, rfl, hhandled⟩) hstep
    · by_cases he : e = .handle
      · subst he
        obtain ⟨response, hhandled⟩ := hwaiting.handled hstep
        exact .inr ⟨es, [], _, _, response, rfl, hhandled⟩
      · exact .inl (hwaiting.pass (passes_of_step hstep he) he)
    · exact .inr ⟨before, after ++ [e], s₁, s₂, response, by simp, hhandled.step hstep⟩

theorem Waiting.outcome (h : Waiting ext cmd hfits s es b) : Outcome ext parsers cmd s es b := by
  refine .waiting h.handle h.server fun segments hwhole => ?_
  rw [h.toWeb]
  exact WebCommand.toAgentServer_of_end hfits checks_eq hwhole

theorem Handled.outcome (hfits : cmd.FitsFrame)
    (h : Handled ext cmd s before after s₁ s₂ response b) :
    Outcome ext parsers cmd s (before ++ .handle :: after) b := by
  refine .carriedOut before after s₁ s₂ response rfl h.once h.server h.command h.server'
    fun segments hheaders hpayload => ?_
  obtain ⟨r, hr, hanswers⟩ := exists_response h.command
  cases hr
  have htext : (cmd.toAgentServer parsers ⟨stream (checks before) ++ response.frame.bytes ++
      stream (checks after), segments, []⟩).2 = _ :=
    WebCommand.toAgentServer_eq hfits hanswers checks_eq hheaders hpayload
  have hsuccess := Server.success_iff h.command
  rw [h.toWeb, htext]
  cases hresult : response.success with
  | true =>
    have hne : s₂.store ≠ s₁.store := hsuccess.mp hresult
    exact ⟨iff_of_true rfl hne, iff_of_false (by decide) hne⟩
  | false =>
    have heq : s₂.store = s₁.store := by
      by_contra hne
      cases hresult.symm.trans (hsuccess.mpr hne)
    exact ⟨iff_of_false (by decide) (not_not_intro heq), iff_of_true rfl heq⟩

end

/-- In whatever pieces the request arrives, and whatever else the server does meanwhile, a command
is carried out at most once and at one moment, and the page gets `success` if and only if the store
was changed at that moment. -/
theorem carriedOut_once {ext : Externals} {s : Server ι} {socket_ : Nat} {cmd : WebCommand}
    {b b' : WebLink ι} {es : List (WebLinkEvent ι)} (parsers : Parsers) (hfits : cmd.FitsFrame)
    (hsocket : socket_ ≠ 0) (hinit : init s socket_ cmd = some b)
    (hrun : (machine ext).run b es = some b') : Outcome ext parsers cmd s es b' := by
  have hcases : Waiting ext cmd hfits s es b' ∨ _ := waiting_or_handled hsocket hinit hrun
  rcases hcases with hwaiting | ⟨before, after, s₁, s₂, response, rfl, hhandled⟩
  · exact hwaiting.outcome
  · exact hhandled.outcome hfits

def messageParsers : Parsers where
  process := SwCommandResponse.parseFromString processCommandType? .start
  counter := SwCommandResponse.parseFromString counterCommandType? .cAddList
  absent := some .success
  process_parts := parsesParts_process
  counter_parts := parsesParts_counter

/-- The request of a page comes in three pieces, and before it is handled the agent asks for its
list. -/
def addSql : List (WebLinkEvent Unit) :=
  [.deliver 3, .deliver 1, .healthCheck, .deliver 9, .other (.agent () 0 .processListRequest),
    .handle, .healthCheck]

theorem carriedOut_once_addSql : ∃ s b b', (Server.machine (.ofTexts [])).run (.init .empty)
      [.accept false (), .agent () 0 (.agentIDRequest 7 1 0)] = some s ∧
    init s 1 (.process 7 (ascii "sql") true) = some b ∧
    (machine (.ofTexts [])).run b addSql = some b' ∧
    Outcome (.ofTexts []) messageParsers (.process 7 (ascii "sql") true) s addSql b' := by
  obtain ⟨s, hs, b, hb, b', hb'⟩ : ∃ s, (Server.machine (.ofTexts [])).run (.init .empty)
      [.accept false (), .agent () 0 (.agentIDRequest 7 1 0)] = some s ∧
      ∃ b, init s 1 (.process 7 (ascii "sql") true) = some b ∧
        ∃ b', (machine (.ofTexts [])).run b addSql = some b' := ⟨_, rfl, _, rfl, _, rfl⟩
  exact ⟨s, b, b', hs, hb, hb', carriedOut_once messageParsers (by decide) (by decide) hb hb'⟩

end WebLink

end PSM
