import PSM.AgentClient
import PSM.Sender

/-! The messages between the server and the agents, from the call of a sender to the case of
`PacketHandling` that receives its packet.

Each end names the message type itself. They name the same one for every packet but `StopRecord`,
which the client reads as an `scStartRecord` (`agrees_iff`). -/

namespace PSM.Agent
open ByteStr ProtoWire

/-! ## The other messages of the protocol -/

/-- `csProcessListRequest`, `csAgentReady`, `scHealthCheck` and `csHealthAck` have no fields. -/
def emptyType : MessageType Unit where
  toFields _ := []
  ofFields _ := some ()
  inRange _ _ hf := absurd hf List.not_mem_nil
  ofFields_toFields _ _ := rfl

theorem toNat_lt (b : Bool) : b.toNat < 2 ^ 64 := by cases b <;> decide

/-- `csAgentIDRequest`. -/
structure CsAgentIDRequest where
  token : BitVec 32
  hostIP : BitVec 32
  ramSize : BitVec 64

def CsAgentIDRequest.type : MessageType CsAgentIDRequest where
  toFields m := [⟨1, .varint (int32Varint m.token)⟩, ⟨2, .varint (int32Varint m.hostIP)⟩,
    ⟨3, .fixed64 m.ramSize⟩]
  ofFields fs := do
    let token ← requiredVarint 1 fs
    let hostIP ← requiredVarint 2 fs
    let ramSize ← requiredFixed64 3 fs
    some ⟨BitVec.ofNat 32 token, BitVec.ofNat 32 hostIP, ramSize⟩
  inRange m f hf := by
    simp only [List.mem_cons, List.not_mem_nil, or_false] at hf
    rcases hf with rfl | rfl | rfl
    · exact Field.inRange_varint (by decide) (by decide) (int32Varint_lt _)
    · exact Field.inRange_varint (by decide) (by decide) (int32Varint_lt _)
    · exact Field.inRange_fixed64 (by decide) (by decide) _
  ofFields_toFields m _ := by
    simp [requiredVarint, requiredFixed64, Value.varint?, Value.fixed64?, ofNat_int32Varint]

/-- `scAgentIDResponse`. -/
structure ScAgentIDResponse where
  agentID : BitVec 32
  alreadyRunning : Bool

def ScAgentIDResponse.type : MessageType ScAgentIDResponse where
  toFields m := [⟨1, .varint (int32Varint m.agentID)⟩, ⟨2, .varint m.alreadyRunning.toNat⟩]
  ofFields fs := do
    let agentID ← requiredVarint 1 fs
    let alreadyRunning ← requiredVarint 2 fs
    some ⟨BitVec.ofNat 32 agentID, alreadyRunning ≠ 0⟩
  inRange m f hf := by
    simp only [List.mem_cons, List.not_mem_nil, or_false] at hf
    rcases hf with rfl | rfl
    · exact Field.inRange_varint (by decide) (by decide) (int32Varint_lt _)
    · exact Field.inRange_varint (by decide) (by decide) (toNat_lt _)
  ofFields_toFields m _ := by simp [requiredVarint, Value.varint?, ofNat_int32Varint]

/-- `csCounterListRequest`. -/
structure CsCounterListRequest where
  isMachine : Bool

def CsCounterListRequest.type : MessageType CsCounterListRequest where
  toFields m := [⟨1, .varint m.isMachine.toNat⟩]
  ofFields fs := do
    let isMachine ← requiredVarint 1 fs
    some ⟨isMachine ≠ 0⟩
  inRange m f hf := by
    obtain rfl := List.mem_singleton.mp hf
    exact Field.inRange_varint (by decide) (by decide) (toNat_lt _)
  ofFields_toFields m _ := by simp [requiredVarint, Value.varint?]

/-- `ProcessCommandType`. -/
def processCommandNumber : ProcessCommandType → Nat
  | .start => 0
  | .restart => 1
  | .stop => 2
  | .addList => 3
  | .deleteList => 4
  | .allStop => 5

def processCommandType? (n : Nat) : Option ProcessCommandType :=
  [.start, .restart, .stop, .addList, .deleteList, .allStop].find? fun type =>
    processCommandNumber type = n % 2 ^ 32

/-- `CounterCommandType`. -/
def counterCommandNumber : CounterCommandType → Nat
  | .cAddList => 1
  | .cDeleteList => 2

def counterCommandType? (n : Nat) : Option CounterCommandType :=
  [.cAddList, .cDeleteList].find? fun type => counterCommandNumber type = n % 2 ^ 32

/-- `scProcessCommandRequest`. -/
structure ScProcessCommandRequest where
  type : ProcessCommandType
  processName : ByteStr

def ScProcessCommandRequest.messageType : MessageType ScProcessCommandRequest where
  toFields m := [⟨1, .varint (processCommandNumber m.type)⟩, ⟨2, .bytes m.processName⟩]
  ofFields fs := do
    let type ← requiredEnum processCommandType? 1 fs
    let processName ← requiredBytes 2 fs
    some ⟨type, processName⟩
  inRange m f hf := by
    simp only [List.mem_cons, List.not_mem_nil, or_false] at hf
    rcases hf with rfl | rfl
    · exact Field.inRange_varint (by decide) (by decide) (by cases m.type <;> decide)
    · exact Field.inRange_bytes (by decide) (by decide) _
  ofFields_toFields m _ := by
    have htype : processCommandType? (processCommandNumber m.type) = some m.type := by
      cases m.type <;> rfl
    simp [requiredEnum, requiredBytes, Value.varint?, Value.bytes?, htype]

/-- `scCounterCommandRequest`. -/
structure ScCounterCommandRequest where
  type : CounterCommandType
  counterName : ByteStr
  isMachine : Bool

def ScCounterCommandRequest.messageType : MessageType ScCounterCommandRequest where
  toFields m := [⟨1, .varint (counterCommandNumber m.type)⟩, ⟨2, .bytes m.counterName⟩,
    ⟨3, .varint m.isMachine.toNat⟩]
  ofFields fs := do
    let type ← requiredEnum counterCommandType? 1 fs
    let counterName ← requiredBytes 2 fs
    let isMachine ← requiredVarint 3 fs
    some ⟨type, counterName, isMachine ≠ 0⟩
  inRange m f hf := by
    simp only [List.mem_cons, List.not_mem_nil, or_false] at hf
    rcases hf with rfl | rfl | rfl
    · exact Field.inRange_varint (by decide) (by decide) (by cases m.type <;> decide)
    · exact Field.inRange_bytes (by decide) (by decide) _
    · exact Field.inRange_varint (by decide) (by decide) (toNat_lt _)
  ofFields_toFields m _ := by
    have htype : counterCommandType? (counterCommandNumber m.type) = some m.type := by
      cases m.type <;> rfl
    simp [requiredEnum, requiredBytes, requiredVarint, Value.varint?, Value.bytes?, htype]

/-- `scStartRecord`. -/
structure ScStartRecord where
  isMachine : Bool
  totalRecordTime : BitVec 32
  interval : BitVec 32
  responseTime : BitVec 32
  delay : Option (BitVec 64)

/-- The optional field is looked up as a required one is, and may be missing. -/
def ScStartRecord.type : MessageType ScStartRecord where
  toFields m := [⟨1, .varint (int32Varint m.totalRecordTime)⟩,
    ⟨2, .varint (int32Varint m.interval)⟩, ⟨3, .varint (int32Varint m.responseTime)⟩] ++
    m.delay.toList.map (fun delay => ⟨4, .varint delay.toNat⟩) ++
    [⟨5, .varint m.isMachine.toNat⟩]
  ofFields fs := do
    let totalRecordTime ← requiredVarint 1 fs
    let interval ← requiredVarint 2 fs
    let responseTime ← requiredVarint 3 fs
    let delay := requiredVarint 4 fs
    let isMachine ← requiredVarint 5 fs
    some ⟨isMachine ≠ 0, BitVec.ofNat 32 totalRecordTime, BitVec.ofNat 32 interval,
      BitVec.ofNat 32 responseTime, delay.map (BitVec.ofNat 64)⟩
  inRange m f hf := by
    simp only [List.mem_append, List.mem_cons, List.not_mem_nil, or_false, List.mem_map] at hf
    rcases hf with ((rfl | rfl | rfl) | ⟨delay, -, rfl⟩) | rfl
    · exact Field.inRange_varint (by decide) (by decide) (int32Varint_lt _)
    · exact Field.inRange_varint (by decide) (by decide) (int32Varint_lt _)
    · exact Field.inRange_varint (by decide) (by decide) (int32Varint_lt _)
    · exact Field.inRange_varint (by decide) (by decide) delay.isLt
    · exact Field.inRange_varint (by decide) (by decide) (toNat_lt _)
  ofFields_toFields m _ := by
    obtain ⟨isMachine, totalRecordTime, interval, responseTime, delay⟩ := m
    cases delay <;> simp [requiredVarint, Value.varint?, ofNat_int32Varint]

/-- `scStopRecord`. -/
structure ScStopRecord where
  isMachine : Bool

def ScStopRecord.type : MessageType ScStopRecord where
  toFields m := [⟨1, .varint m.isMachine.toNat⟩]
  ofFields fs := do
    let isMachine ← requiredVarint 1 fs
    some ⟨isMachine ≠ 0⟩
  inRange m f hf := by
    obtain rfl := List.mem_singleton.mp hf
    exact Field.inRange_varint (by decide) (by decide) (toNat_lt _)
  ofFields_toFields m _ := by simp [requiredVarint, Value.varint?]

/-- `csRecordResponse.Result`. -/
inductive RecordResult where
  | startSuccess
  | startFailure
  | stopSuccess
  | stopFailure

def RecordResult.number : RecordResult → Nat
  | startSuccess => 0
  | startFailure => 1
  | stopSuccess => 2
  | stopFailure => 3

def RecordResult.ofNumber? (n : Nat) : Option RecordResult :=
  [startSuccess, startFailure, stopSuccess, stopFailure].find? fun result =>
    result.number = n % 2 ^ 32

/-- `csRecordResponse`. -/
structure CsRecordResponse where
  isMachine : Bool
  result : RecordResult
  failReason : Option ByteStr

def CsRecordResponse.type : MessageType CsRecordResponse where
  toFields m := ⟨3, .varint m.result.number⟩ ::
    (m.failReason.toList.map (fun reason => ⟨4, .bytes reason⟩) ++
      [⟨5, .varint m.isMachine.toNat⟩])
  ofFields fs := do
    let result ← requiredEnum RecordResult.ofNumber? 3 fs
    let failReason := requiredBytes 4 fs
    let isMachine ← requiredVarint 5 fs
    some ⟨isMachine ≠ 0, result, failReason⟩
  inRange m f hf := by
    simp only [List.mem_append, List.mem_cons, List.not_mem_nil, or_false, List.mem_map] at hf
    rcases hf with rfl | ⟨reason, -, rfl⟩ | rfl
    · exact Field.inRange_varint (by decide) (by decide) (by cases m.result <;> decide)
    · exact Field.inRange_bytes (by decide) (by decide) _
    · exact Field.inRange_varint (by decide) (by decide) (toNat_lt _)
  ofFields_toFields m _ := by
    have hresult : RecordResult.ofNumber? m.result.number = some m.result := by
      cases m.result <;> rfl
    obtain ⟨isMachine, result, failReason⟩ := m
    cases failReason <;>
      simp [requiredEnum, requiredBytes, requiredVarint, Value.varint?, Value.bytes?, hresult]

end PSM.Agent

namespace PSM
open ByteStr ProtoWire Agent

/-! ## The other senders -/

section AgentSocket

def AgentSocket.sendHealthCheck : Option ByteStr :=
  sendPacket emptyType () .healthCheck (Buffer.zero bufSize)

def AgentSocket.sendAgentIDResponse (agentID : BitVec 32) (alreadyRunning : Bool) :
    Option ByteStr :=
  sendPacket ScAgentIDResponse.type ⟨agentID, alreadyRunning⟩ .agentIDResponse
    (Buffer.zero bufSize)

def AgentSocket.sendStartRecord (isMachine : Bool)
    (totalRecordTime responseTime interval : BitVec 32) (delay : BitVec 64) : Option ByteStr :=
  sendPacket ScStartRecord.type ⟨isMachine, totalRecordTime, interval, responseTime, some delay⟩
    .startRecord (Buffer.zero bufSize)

def AgentSocket.sendStopRecord (isMachine : Bool) : Option ByteStr :=
  sendPacket ScStopRecord.type ⟨isMachine⟩ .stopRecord (Buffer.zero bufSize)

def AgentSocket.sendProcessCommand (type : ProcessCommandType) (processName : ByteStr) :
    Option ByteStr :=
  sendPacket ScProcessCommandRequest.messageType ⟨type, processName⟩ .processCommandRequest
    (Buffer.zero bufSize)

def AgentSocket.sendCounterCommand (type : CounterCommandType) (counterName : ByteStr)
    (isMachine : Bool) : Option ByteStr :=
  sendPacket ScCounterCommandRequest.messageType ⟨type, counterName, isMachine⟩
    .counterCommandRequest (Buffer.zero bufSize)

end AgentSocket

section AgentClientSocket
variable (isConnect : Bool) (area : Buffer bufSize)

def AgentClientSocket.sendHealthAck : Option ByteStr :=
  if !isConnect then some [] else sendPacket emptyType () .healthAck area

/-- The address is `none` when `gethostname` fails. -/
def AgentClientSocket.sendAgentIDRequest (tempAddr : Option (BitVec 32)) (ramSize : BitVec 64) :
    Option ByteStr :=
  if !isConnect then some []
  else match tempAddr with
    | some tempAddr =>
      sendPacket CsAgentIDRequest.type ⟨tempAddr, tempAddr, ramSize⟩ .agentIDRequest area
    | none => some []

def AgentClientSocket.sendProcessListRequest : Option ByteStr :=
  if !isConnect then some [] else sendPacket emptyType () .processListRequest area

def AgentClientSocket.sendCounterListRequest (isMachine : Bool) : Option ByteStr :=
  if !isConnect then some []
  else sendPacket CsCounterListRequest.type ⟨isMachine⟩ .counterListRequest area

/-- The result that a response reports. -/
def recordResult (isStart isSuccess : Bool) : RecordResult :=
  if isStart then if isSuccess then .startSuccess else .startFailure
  else if isSuccess then .stopSuccess else .stopFailure

def AgentClientSocket.sendRecordResponse (isMachine isStart isSuccess : Bool)
    (failMsg : ByteStr) : Option ByteStr :=
  if !isConnect then some []
  else sendPacket CsRecordResponse.type ⟨isMachine, recordResult isStart isSuccess,
    if failMsg ≠ [] then some failMsg else none⟩ .recordResponse area

def AgentClientSocket.sendAgentReady : Option ByteStr :=
  if !isConnect then some [] else sendPacket emptyType () .agentReady area

end AgentClientSocket

/-! ## The cases of the handlers -/

def AgentType.all : List AgentType :=
  [.agentIDRequest, .agentIDResponse, .processListRequest, .processListResponse,
    .counterListRequest, .counterListResponse, .currentProcessListSend, .healthCheck, .healthAck,
    .processCommandRequest, .counterCommandRequest, .processRestrictionRequest,
    .processRestrictionResponse, .startRecord, .stopRecord, .processInfoSend, .machineInfoSend,
    .agentReady, .recordResponse]

/-- The type that a packet has by its header. -/
def CPacket.agentType? (packet : CPacket) : Option AgentType :=
  AgentType.all.find? fun type => (type.number : Int) = packet.type

/-- A message of the server, by the call that sends it, or by what the client's handler does with
it. -/
inductive ServerCall where
  | healthCheck
  | agentIDResponse (agentID : BitVec 32) (alreadyRunning : Bool)
  | processListResponse (processList : List ByteStr)
  | counterListResponse (isMachine : Bool) (counterList : List ByteStr)
  | startRecord (isMachine : Bool) (totalRecordTime responseTime interval : BitVec 32)
      (delay : BitVec 64)
  | stopRecord (isMachine : Bool)
  | processCommand (type : ProcessCommandType) (processName : ByteStr)
  | counterCommand (type : CounterCommandType) (counterName : ByteStr) (isMachine : Bool)

/-- The case of `PacketHandling` for a packet, with the values that it takes from the message. There
is none when the message does not parse. -/
def AgentClientSocket.received (packet : CPacket) : Option ServerCall :=
  packet.agentType?.bind fun
  | .agentIDResponse => (packet.parse ScAgentIDResponse.type).map fun msg =>
    .agentIDResponse msg.agentID msg.alreadyRunning
  | .processListResponse => (packet.parse ScProcessListResponse.type).map fun msg =>
    .processListResponse msg.processName
  | .counterListResponse => (packet.parse ScCounterListResponse.type).map fun msg =>
    .counterListResponse msg.isMachine msg.counterName
  | .startRecord => (packet.parse ScStartRecord.type).map fun msg =>
    .startRecord msg.isMachine msg.totalRecordTime msg.responseTime msg.interval
      (msg.delay.getD 0)
  | .stopRecord => (packet.parse ScStartRecord.type).map fun msg => .stopRecord msg.isMachine
  | .processCommandRequest => (packet.parse ScProcessCommandRequest.messageType).map fun msg =>
    .processCommand msg.type msg.processName
  | .counterCommandRequest => (packet.parse ScCounterCommandRequest.messageType).map fun msg =>
    .counterCommand msg.type msg.counterName msg.isMachine
  | .healthCheck => some .healthCheck
  | _ => none

/-- A message of a connected client, by the call that sends it. -/
inductive ClientCall where
  | healthAck
  | agentIDRequest (tempAddr : BitVec 32) (ramSize : BitVec 64)
  | processListRequest
  | counterListRequest (isMachine : Bool)
  | currentProcessList (processList : List ProcessInfo)
  | recordResponse (isMachine isStart isSuccess : Bool) (failMsg : ByteStr)
  | agentReady
  | processInfo (processLogList : List ProcessCounterEntry)
  | machineInfo (machineLogList : List MachineCounterEntry)

/-- What the server's handler takes from the message of an agent. -/
inductive AgentCase where
  | agentIDRequest (token hostIP : BitVec 32) (ramSize : BitVec 64)
  | processListRequest
  | counterListRequest (isMachine : Bool)
  | currentProcessListSend (msg : CsCurrentProcessListSend)
  | recordResponse (msg : CsRecordResponse)
  | agentReady
  | processInfoSend (msg : CsTotalProcessInfoSend)
  | machineInfoSend (msg : CsTotalMachineInfoSend)
  | healthAck

/-- The case of `PacketHandling` for a packet. The messages of the last three sends are parsed by
`RedisManager`. -/
def AgentSocket.received (packet : CPacket) : Option AgentCase :=
  packet.agentType?.bind fun
  | .agentIDRequest => (packet.parse CsAgentIDRequest.type).map fun msg =>
    .agentIDRequest msg.token msg.hostIP msg.ramSize
  | .processListRequest => some .processListRequest
  | .counterListRequest => (packet.parse CsCounterListRequest.type).map fun msg =>
    .counterListRequest msg.isMachine
  | .currentProcessListSend =>
    (packet.parse CsCurrentProcessListSend.type).map .currentProcessListSend
  | .recordResponse => (packet.parse CsRecordResponse.type).map .recordResponse
  | .agentReady => some .agentReady
  | .processInfoSend => (packet.parse CsTotalProcessInfoSend.type).map .processInfoSend
  | .machineInfoSend => (packet.parse CsTotalMachineInfoSend.type).map .machineInfoSend
  | .healthAck => some .healthAck
  | _ => none

/-- The message that the handler is run with. -/
def AgentCase.message : AgentCase → AgentMessage
  | .agentIDRequest token hostIP ramSize => .agentIDRequest token.toInt hostIP.toInt ramSize
  | .processListRequest => .processListRequest
  | .counterListRequest isMachine => .counterListRequest isMachine
  | .currentProcessListSend msg => .currentProcessListSend (some msg)
  | .recordResponse _ => .recordResponse
  | .agentReady => .agentReady
  | .processInfoSend msg => .processInfoSend msg.info
  | .machineInfoSend msg => .machineInfoSend msg.info
  | .healthAck => .healthAck

/-! ## Agreement -/

/-- A message with its type, and the type of its packet. -/
structure WireMessage where
  {α : Type}
  messageType : MessageType α
  msg : α
  type : AgentType

namespace WireMessage

def byteSize (w : WireMessage) : Nat := w.messageType.byteSize w.msg

/-- The message leaves room for the header in the peer's buffer. -/
def FitsFrame (w : WireMessage) : Prop := w.byteSize ≤ bufSize - headerSize

instance (w : WireMessage) : Decidable w.FitsFrame := inferInstanceAs (Decidable (_ ≤ _))

/-- The packet that the peer makes of the message. -/
def packet (w : WireMessage) (h : w.FitsFrame) (peer : SocketClass) : CPacket :=
  (messageFrame w.messageType w.msg w.type h).packet peer.ownert

end WireMessage

/-- What is sent arrives, in whatever pieces, as this packet. -/
def Arrives (peer : SocketClass) (sent : Option ByteStr) (packet : CPacket) : Prop :=
  ∃ bytes, sent = some bytes ∧ ∀ sock : RecvSocket, sock.AtFrameStart →
    ∀ chunks : List ByteStr, chunks.flatten = bytes →
    (receiver peer).Meets WithinRequest sock (chunks.map (.bytes · true)) →
    ∃ sock', (receiver peer).run sock (chunks.map (.bytes · true)) = some sock' ∧
      sock'.operationQueue = sock.operationQueue ++ [packet]

namespace ServerCall

def wire : ServerCall → WireMessage
  | .healthCheck => ⟨emptyType, (), .healthCheck⟩
  | .agentIDResponse agentID alreadyRunning =>
    ⟨ScAgentIDResponse.type, ⟨agentID, alreadyRunning⟩, .agentIDResponse⟩
  | .processListResponse processList =>
    ⟨ScProcessListResponse.type, ⟨processList⟩, .processListResponse⟩
  | .counterListResponse isMachine counterList =>
    ⟨ScCounterListResponse.type, ⟨isMachine, counterList⟩, .counterListResponse⟩
  | .startRecord isMachine totalRecordTime responseTime interval delay =>
    ⟨ScStartRecord.type, ⟨isMachine, totalRecordTime, interval, responseTime, some delay⟩,
      .startRecord⟩
  | .stopRecord isMachine => ⟨ScStopRecord.type, ⟨isMachine⟩, .stopRecord⟩
  | .processCommand type processName =>
    ⟨ScProcessCommandRequest.messageType, ⟨type, processName⟩, .processCommandRequest⟩
  | .counterCommand type counterName isMachine =>
    ⟨ScCounterCommandRequest.messageType, ⟨type, counterName, isMachine⟩,
      .counterCommandRequest⟩

/-- What the call hands to `Send`. -/
def sent : ServerCall → Option ByteStr
  | .healthCheck => AgentSocket.sendHealthCheck
  | .agentIDResponse agentID alreadyRunning =>
    AgentSocket.sendAgentIDResponse agentID alreadyRunning
  | .processListResponse processList => AgentSocket.sendProcessListResponse (some processList)
  | .counterListResponse isMachine counterList =>
    AgentSocket.sendCounterListResponse isMachine (some counterList)
  | .startRecord isMachine totalRecordTime responseTime interval delay =>
    AgentSocket.sendStartRecord isMachine totalRecordTime responseTime interval delay
  | .stopRecord isMachine => AgentSocket.sendStopRecord isMachine
  | .processCommand type processName => AgentSocket.sendProcessCommand type processName
  | .counterCommand type counterName isMachine =>
    AgentSocket.sendCounterCommand type counterName isMachine

theorem sent_eq (c : ServerCall) :
    c.sent = sendPacket c.wire.messageType c.wire.msg c.wire.type (Buffer.zero bufSize) := by
  cases c <;> rfl

/-- The packet arrives, and the client's handler takes from it what the server's call was given. -/
def Agrees (c : ServerCall) : Prop :=
  ∃ packet, Arrives .agentClientSocket c.sent packet ∧ AgentClientSocket.received packet = some c

/-- The calls of `SendStopRecord`. -/
def IsStopRecord : ServerCall → Prop
  | .stopRecord _ => True
  | _ => False

end ServerCall

namespace ClientCall

def wire : ClientCall → WireMessage
  | .healthAck => ⟨emptyType, (), .healthAck⟩
  | .agentIDRequest tempAddr ramSize =>
    ⟨CsAgentIDRequest.type, ⟨tempAddr, tempAddr, ramSize⟩, .agentIDRequest⟩
  | .processListRequest => ⟨emptyType, (), .processListRequest⟩
  | .counterListRequest isMachine => ⟨CsCounterListRequest.type, ⟨isMachine⟩, .counterListRequest⟩
  | .currentProcessList processList =>
    ⟨CsCurrentProcessListSend.type, PSM.currentProcessList processList, .currentProcessListSend⟩
  | .recordResponse isMachine isStart isSuccess failMsg =>
    ⟨CsRecordResponse.type, ⟨isMachine, recordResult isStart isSuccess,
      if failMsg ≠ [] then some failMsg else none⟩, .recordResponse⟩
  | .agentReady => ⟨emptyType, (), .agentReady⟩
  | .processInfo processLogList =>
    ⟨CsTotalProcessInfoSend.type, totalProcessInfo processLogList, .processInfoSend⟩
  | .machineInfo machineLogList =>
    ⟨CsTotalMachineInfoSend.type, totalMachineInfo machineLogList, .machineInfoSend⟩

def sent (area : Buffer bufSize) : ClientCall → Option ByteStr
  | .healthAck => AgentClientSocket.sendHealthAck true area
  | .agentIDRequest tempAddr ramSize =>
    AgentClientSocket.sendAgentIDRequest true area (some tempAddr) ramSize
  | .processListRequest => AgentClientSocket.sendProcessListRequest true area
  | .counterListRequest isMachine => AgentClientSocket.sendCounterListRequest true area isMachine
  | .currentProcessList processList =>
    AgentClientSocket.sendCurrentProcessList true area processList
  | .recordResponse isMachine isStart isSuccess failMsg =>
    AgentClientSocket.sendRecordResponse true area isMachine isStart isSuccess failMsg
  | .agentReady => AgentClientSocket.sendAgentReady true area
  | .processInfo processLogList => AgentClientSocket.sendProcessInfo true area processLogList
  | .machineInfo machineLogList => AgentClientSocket.sendMachineInfo true area machineLogList

theorem sent_eq (c : ClientCall) (area : Buffer bufSize) :
    c.sent area = sendPacket c.wire.messageType c.wire.msg c.wire.type area := by
  cases c <;> rfl

/-- What the server should take from the message. -/
def toCase : ClientCall → AgentCase
  | .healthAck => .healthAck
  | .agentIDRequest tempAddr ramSize => .agentIDRequest tempAddr tempAddr ramSize
  | .processListRequest => .processListRequest
  | .counterListRequest isMachine => .counterListRequest isMachine
  | .currentProcessList processList => .currentProcessListSend (PSM.currentProcessList processList)
  | .recordResponse isMachine isStart isSuccess failMsg =>
    .recordResponse ⟨isMachine, recordResult isStart isSuccess,
      if failMsg ≠ [] then some failMsg else none⟩
  | .agentReady => .agentReady
  | .processInfo processLogList => .processInfoSend (totalProcessInfo processLogList)
  | .machineInfo machineLogList => .machineInfoSend (totalMachineInfo machineLogList)

/-- The packet arrives, and the server's handler takes from it what the client has set. -/
def Agrees (area : Buffer bufSize) (c : ClientCall) : Prop :=
  ∃ packet, Arrives .agentSocket (c.sent area) packet ∧
    AgentSocket.received packet = some c.toCase

end ClientCall

/-- The messages that the handlers of the client model send are what the server takes from calls of
its senders. -/
theorem AgentClientSocket.exists_call {c : AgentClientSocket} {msg : ServerMessage}
    {m : AgentMessage} (h : m ∈ (c.packetHandling msg).2) :
    ∃ call : ClientCall, call.toCase.message = m := by
  have hone : ∀ call : ClientCall, m ∈ c.sendIfConnected call.toCase.message →
      ∃ call : ClientCall, call.toCase.message = m := by
    intro call hm
    unfold AgentClientSocket.sendIfConnected at hm
    split at hm
    · exact ⟨call, (List.mem_singleton.mp hm).symm⟩
    · cases hm
  cases msg with
  | agentIDResponse agentID alreadyRunning =>
    cases alreadyRunning with
    | true => cases h
    | false => exact hone (.processListRequest) h
  | processListResponse processName => exact hone (.counterListRequest false) h
  | counterListResponse isMachine counterName =>
    cases isMachine with
    | true => exact hone (.agentReady) h
    | false => exact hone (.counterListRequest true) h
  | startRecord isMachine =>
    exact hone (.recordResponse isMachine true true []) h
  | processCommandRequest type processName => cases type <;> cases h
  | counterCommandRequest isMachine type counterName => cases type <;> cases h

section
variable {peer : SocketClass} {area : Buffer bufSize} {w : WireMessage} {packet : CPacket}

/-- A message that fits arrives as its packet and as no other. -/
theorem arrives_iff (h : w.FitsFrame) :
    Arrives peer (sendPacket w.messageType w.msg w.type area) packet ↔
      packet = w.packet h peer := by
  let f := messageFrame w.messageType w.msg w.type h
  have hsent : sendPacket w.messageType w.msg w.type area = some f.bytes := sendPacket_eq_frame h
  constructor
  · rintro ⟨bytes, hbytes, hrun⟩
    cases hsent.symm.trans hbytes
    have hs := RecvSocket.accepted_atFrameStart (by decide : 1 ≠ 0)
    have hflat : f.bytes = ([f].map Frame.bytes).flatten := by simp
    obtain ⟨-, -, -, hmeets⟩ := run_bytes f.bytes (hs.tracks peer.ownert)
      fun xs b mid hpre _ _ => ((bounded_frames [f]).mono
        ((List.prefix_append xs [b]).trans (hflat ▸ hpre))).needed_le
    let chunks := f.bytes.map ([·])
    have hchunks : chunks.flatten = f.bytes := by simp [chunks, ← List.flatMap_def]
    have hmeets' : (receiver peer).Meets WithinRequest (RecvSocket.accepted 1)
        (chunks.map (.bytes · true)) := by
      simpa [chunks, Function.comp_def] using hmeets
    obtain ⟨sock, hsock, hqueue⟩ := hrun _ hs chunks hchunks hmeets'
    obtain ⟨sock', hsock', hqueue'⟩ := run_frame f hs hchunks hmeets'
    cases hsock.symm.trans hsock'
    exact List.singleton_inj.mp (List.append_cancel_left (hqueue.symm.trans hqueue'))
  · rintro rfl
    exact ⟨f.bytes, hsent, fun sock hs chunks hchunks hreq => run_frame f hs hchunks hreq⟩

theorem agentType?_packet (h : w.FitsFrame) : (w.packet h peer).agentType? = some w.type := by
  have hshort : toShort w.type.number = w.type.number := by
    refine toShort_eq_self ?_
    cases w.type <;> decide
  have hfind : ∀ type : AgentType,
      AgentType.all.find? (fun type' => (type'.number : Int) = type.number) = some type := by
    intro type
    cases type <;> rfl
  change AgentType.all.find? (fun type => (type.number : Int) = toShort w.type.number) = _
  rw [hshort]
  exact hfind w.type

/-- The peer parses the message with the type that it names. -/
theorem parse_packet_of {β : Type} (N : MessageType β) (h : w.FitsFrame) :
    (w.packet h peer).parse N = N.ofFields (w.messageType.toFields w.msg) := by
  have hsize : w.byteSize < 2 ^ 32 := Nat.lt_of_le_of_lt h (by decide)
  have hlen : ¬((w.messageType.serialize w.msg).length : Int) < 0 := by omega
  rw [← w.messageType.parse_serialize_of N hsize]
  simp [WireMessage.packet, messageFrame, Frame.packet, CPacket.parse]

theorem parse_packet_self (h : w.FitsFrame) :
    (w.packet h peer).parse w.messageType = some w.msg := parse_packet w.type peer h

end

/-- The client takes from each message what the server's call was given, except that it takes
nothing from an `scStopRecord`. -/
theorem ServerCall.received_packet_iff (c : ServerCall) (h : c.wire.FitsFrame) :
    AgentClientSocket.received (c.wire.packet h .agentClientSocket) = some c ↔
      ¬c.IsStopRecord := by
  rw [AgentClientSocket.received, agentType?_packet, Option.bind_some]
  cases c with
  | stopRecord isMachine =>
    have hparse : ((ServerCall.stopRecord isMachine).wire.packet h .agentClientSocket).parse
        ScStartRecord.type = none := parse_packet_of ScStartRecord.type h
    refine iff_of_false (fun heq => ?_) (not_not_intro trivial)
    obtain ⟨msg, hmsg, -⟩ := Option.map_eq_some_iff.mp heq
    cases hparse.symm.trans hmsg
  | healthCheck => exact iff_of_true rfl id
  | _ => exact iff_of_true (congrArg (Option.map _) (parse_packet_self h)) id

theorem ClientCall.received_packet (c : ClientCall) (h : c.wire.FitsFrame) :
    AgentSocket.received (c.wire.packet h .agentSocket) = some c.toCase := by
  rw [AgentSocket.received, agentType?_packet, Option.bind_some]
  cases c with
  | healthAck => rfl
  | processListRequest => rfl
  | agentReady => rfl
  | _ => exact congrArg (Option.map _) (parse_packet_self h)

theorem ServerCall.agrees_iff_received (c : ServerCall) (h : c.wire.FitsFrame) :
    c.Agrees ↔ AgentClientSocket.received (c.wire.packet h .agentClientSocket) = some c := by
  rw [ServerCall.Agrees, c.sent_eq]
  constructor
  · rintro ⟨packet, harrives, hreceived⟩
    rwa [(arrives_iff h).mp harrives] at hreceived
  · intro hreceived
    exact ⟨_, (arrives_iff h).mpr rfl, hreceived⟩

/-- Sender and handler agree on every message that fits a frame, but for the calls of
`SendStopRecord`. -/
theorem agrees_iff (c : ServerCall) (d : ClientCall) (area : Buffer bufSize) :
    (c.wire.FitsFrame → (c.Agrees ↔ ¬c.IsStopRecord)) ∧ (d.wire.FitsFrame → d.Agrees area) := by
  constructor
  · intro h
    exact (c.agrees_iff_received h).trans (c.received_packet_iff h)
  · intro h
    rw [ClientCall.Agrees, d.sent_eq]
    exact ⟨_, (arrives_iff h).mpr rfl, d.received_packet h⟩

theorem agrees_iff_startRecord : (ServerCall.startRecord true (-1) 10 1 0).Agrees ∧
    (ClientCall.recordResponse true true true []).Agrees (Buffer.zero bufSize) :=
  have h := agrees_iff (.startRecord true (-1) 10 1 0) (.recordResponse true true true [])
    (Buffer.zero bufSize)
  ⟨(h.1 (by decide)).mpr id, h.2 (by decide)⟩

theorem not_agrees_stopRecord :
    (ServerCall.stopRecord true).wire.FitsFrame ∧ ¬(ServerCall.stopRecord true).Agrees :=
  have hfits : (ServerCall.stopRecord true).wire.FitsFrame := by decide
  ⟨hfits, fun h => (ServerCall.received_packet_iff _ hfits).mp
    ((ServerCall.agrees_iff_received _ hfits).mp h) trivial⟩

end PSM
