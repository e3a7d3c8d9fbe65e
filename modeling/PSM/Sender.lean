import PSM.AgentProtocol
import PSM.FrameStream

/-! What the senders put on the wire, and what the peer makes of it.

A sender serializes its message into the payload area of a packet and sends the header and as many
bytes as the `short` length field says. The area has `BUFSIZE` bytes, and the peer's receive buffer
has `BUFSIZE` bytes for header and payload together, so a message arrives exactly when its size
leaves room for the header there (`Outgoing.delivered_iff`). -/

namespace PSM
open ByteStr ProtoWire Agent

/-! ## The client's data -/

structure Log where
  timestamp : BitVec 64
  value : BitVec 64

structure ProcessCounterEntry where
  counterName : ByteStr
  processName : ByteStr
  processID : BitVec 32
  logs : List Log

structure MachineCounterEntry where
  counterName : ByteStr
  logs : List Log

structure ProcessInfo where
  name : ByteStr
  processID : BitVec 32

/-! ## Building the messages -/

def isNaN (x : BitVec 64) : Bool := x.extractLsb' 52 11 == 0x7ff#11 && x.extractLsb' 0 52 != 0#52

/-- `==` of two doubles: a NaN equals nothing, and the zeros are equal. -/
def doubleEq (x y : BitVec 64) : Bool :=
  !isNaN x && !isNaN y && (x == y || (x.extractLsb' 0 63 == 0#63 && y.extractLsb' 0 63 == 0#63))

/-- The double -1. -/
def minusOne : BitVec 64 := 0xbff0000000000000#64

/-- The logs that are sent: those whose value differs from the last one sent. -/
def changedLogs (curValue : BitVec 64) : List Log → List Agent.Log
  | [] => []
  | l :: logs =>
    if doubleEq curValue l.value then changedLogs curValue logs
    else ⟨l.timestamp, l.value⟩ :: changedLogs l.value logs

/-- The loop of `SendCurrentProcessList`: `cur` is the last name, and `msg` the entries so far, the
last of which is the one that `curP` points to. -/
def addProcesses (cur : ByteStr) (msg : List CurrentProcess) :
    List ProcessInfo → List CurrentProcess
  | [] => msg
  | p :: processList =>
    let (cur, msg) := if cur ≠ p.name then (p.name, msg ++ [⟨p.name, []⟩]) else (cur, msg)
    let msg := match msg.getLast? with
      | some curP => msg.dropLast ++ [{ curP with processID := curP.processID ++ [p.processID] }]
      | none => msg
    addProcesses cur msg processList

def currentProcessList (processList : List ProcessInfo) : CsCurrentProcessListSend :=
  ⟨addProcesses [] [] processList⟩

def totalProcessInfo (processLogList : List ProcessCounterEntry) : CsTotalProcessInfoSend :=
  ⟨processLogList.map fun pce =>
    ⟨pce.counterName, pce.processName, pce.processID, changedLogs minusOne pce.logs⟩⟩

def totalMachineInfo (machineLogList : List MachineCounterEntry) : CsTotalMachineInfoSend :=
  ⟨machineLogList.map fun mce => ⟨mce.counterName, changedLogs minusOne mce.logs⟩⟩

/-! ## Sending -/

/-- `SerializeToArray`: nothing is written when the given size is too small. The write is undefined
when it leaves the array. -/
def serializeToArray (M : MessageType α) (a : α) (area : Buffer bufSize) (size : Int) :
    Option (Buffer bufSize) :=
  if size < M.byteSize a then some area else area.write 0 (M.serialize a)

/-- The two bytes of a `short`. -/
def shortBytes (n : Int) : ByteStr := le16 (n % 65536).toNat

/-- The bytes handed to `Send` for a packet with the given payload area. A negative length, or one
that leaves the packet, has no defined result. -/
def send (length : Int) (type : AgentType) (area : Buffer bufSize) : Option ByteStr :=
  let buflen := length + headerSize
  if buflen < 0 ∨ headerSize + bufSize < buflen then none
  else some ((shortBytes length ++ le16 type.number ++ area.bytes).take buflen.toNat)

/-- The end of every sender. -/
def sendPacket (M : MessageType α) (a : α) (type : AgentType) (area : Buffer bufSize) :
    Option ByteStr :=
  let length := toShort (M.byteSize a)
  (serializeToArray M a area length).bind fun area => send length type area

section AgentClientSocket

/-- The client's senders do nothing when it is not connected. `area` is the payload area of the
packet on the stack, which the client does not initialise. -/
def AgentClientSocket.sendCurrentProcessList (isConnect : Bool) (area : Buffer bufSize)
    (processList : List ProcessInfo) : Option ByteStr :=
  if !isConnect then some []
  else sendPacket CsCurrentProcessListSend.type (currentProcessList processList)
    .currentProcessListSend area

def AgentClientSocket.sendProcessInfo (isConnect : Bool) (area : Buffer bufSize)
    (processLogList : List ProcessCounterEntry) : Option ByteStr :=
  if !isConnect then some []
  else sendPacket CsTotalProcessInfoSend.type (totalProcessInfo processLogList)
    .processInfoSend area

def AgentClientSocket.sendMachineInfo (isConnect : Bool) (area : Buffer bufSize)
    (machineLogList : List MachineCounterEntry) : Option ByteStr :=
  if !isConnect then some []
  else sendPacket CsTotalMachineInfoSend.type (totalMachineInfo machineLogList)
    .machineInfoSend area

end AgentClientSocket

/-- The server's senders get their list from the store, and clear the payload area. -/
def AgentSocket.sendProcessListResponse (processList : Option (List ByteStr)) : Option ByteStr :=
  match processList with
  | some processList => sendPacket ScProcessListResponse.type ⟨processList⟩ .processListResponse
      (Buffer.zero bufSize)
  | none => some []

def AgentSocket.sendCounterListResponse (isMachine : Bool) (counterList : Option (List ByteStr)) :
    Option ByteStr :=
  match counterList with
  | some counterList => sendPacket ScCounterListResponse.type ⟨isMachine, counterList⟩
      .counterListResponse (Buffer.zero bufSize)
  | none => some []

/-! ## Delivery -/

/-- `ParseFromArray(packet->msg, packet->length)`. -/
def CPacket.parse (M : MessageType α) (packet : CPacket) : Option α :=
  if packet.length < 0 then none else M.parse (packet.msg.take packet.length.toNat)

/-- What is sent is a header with the size of the message and the message, and the peer enqueues
one packet for it, from which the same message is parsed. -/
structure Delivered (M : MessageType α) (a : α) (type : AgentType) (peer : SocketClass)
    (sent : Option ByteStr) : Prop where
  bytes : ∃ header, sent = some (header ++ M.serialize a) ∧
    header = le16 (M.byteSize a) ++ le16 type.number ∧ readLe16 header = M.byteSize a
  received : ∀ bytes, sent = some bytes → ∀ sock : RecvSocket, sock.AtFrameStart →
    ∀ chunks : List ByteStr, chunks.flatten = bytes →
    (receiver peer).Meets WithinRequest sock (chunks.map (.bytes · true)) →
    ∃ sock' packet, (receiver peer).run sock (chunks.map (.bytes · true)) = some sock' ∧
      sock'.operationQueue = sock.operationQueue ++ [packet] ∧ packet.parse M = some a

section Delivered
variable {α : Type} {M : MessageType α} {a : α} {type : AgentType} {peer : SocketClass}
  {area : Buffer bufSize}

theorem exists_serializeToArray (h : M.byteSize a ≤ bufSize) (area : Buffer bufSize) :
    ∃ area', serializeToArray M a area (M.byteSize a) = some area' ∧
      area'.bytes.take (M.byteSize a) = M.serialize a := by
  obtain ⟨area', hwrite⟩ := Option.ne_none_iff_exists'.mp (mt Buffer.write_eq_none_iff.mp
    (by unfold MessageType.byteSize at h; omega) : area.write 0 (M.serialize a) ≠ none)
  have htake := Buffer.take_write hwrite
  rw [Nat.zero_add, List.take_zero, List.nil_append] at htake
  exact ⟨area', by simp [serializeToArray, hwrite], htake⟩

theorem shortBytes_natCast {n : Nat} (h : n < 65536) : shortBytes n = le16 n := by
  rw [shortBytes]
  congr 1
  omega

/-- The size that is sent is the size of the header and of the payload. -/
theorem take_packet {header : ByteStr} (h : header.length = headerSize) (bytes : ByteStr)
    (n : Nat) : (header ++ bytes).take ((n : Int) + headerSize).toNat = header ++ bytes.take n := by
  have hlen : ((n : Int) + headerSize).toNat = header.length + n := by omega
  rw [hlen, List.take_length_add_append]

theorem sendPacket_eq (h : M.byteSize a ≤ bufSize - headerSize) :
    sendPacket M a type area =
      some (le16 (M.byteSize a) ++ le16 type.number ++ M.serialize a) := by
  have hsize : M.byteSize a ≤ 8188 := h
  have hshort : toShort (M.byteSize a) = M.byteSize a := toShort_eq_self (by omega)
  obtain ⟨area', hwrite, htake⟩ := exists_serializeToArray (Nat.le_trans h (Nat.sub_le ..)) area
  simp only [sendPacket, hshort, hwrite, Option.bind_some, send,
    shortBytes_natCast (by omega : M.byteSize a < 65536)]
  rw [if_neg (by simp only [headerSize, bufSize]; omega), take_packet rfl, htake]

theorem length_sendPacket_le {bytes : ByteStr} (h : sendPacket M a type area = some bytes) :
    bytes.length ≤ headerSize + bufSize := by
  obtain ⟨area', -, hsend⟩ := Option.bind_eq_some_iff.mp h
  simp only [send, Option.ite_none_left_eq_some, Option.some.injEq] at hsend
  obtain ⟨-, rfl⟩ := hsend
  simp [shortBytes, area'.length_eq, headerSize]
  omega

/-- The frame of a message that leaves room for the header. -/
def messageFrame (M : MessageType α) (a : α) (type : AgentType)
    (h : M.byteSize a ≤ bufSize - headerSize) : Frame :=
  ⟨type.number, M.serialize a, type.number_lt, h⟩

theorem parse_packet (type : AgentType) (peer : SocketClass)
    (h : M.byteSize a ≤ bufSize - headerSize) :
    ((messageFrame M a type h).packet peer.ownert).parse M = some a := by
  have hsize : M.byteSize a < 2 ^ 32 := Nat.lt_of_le_of_lt h (by decide)
  have hlen : ¬((M.serialize a).length : Int) < 0 := by omega
  simp only [CPacket.parse, Frame.packet, messageFrame, hlen, if_false, Int.toNat_natCast,
    List.take_length, M.parse_serialize hsize]

theorem sendPacket_eq_frame (h : M.byteSize a ≤ bufSize - headerSize) :
    sendPacket M a type area = some (messageFrame M a type h).bytes := sendPacket_eq h

/-- A frame that comes in whatever pieces is enqueued as one packet. -/
theorem run_frame (f : Frame) {sock : RecvSocket} (hs : sock.AtFrameStart) {chunks : List ByteStr}
    (hchunks : chunks.flatten = f.bytes)
    (hreq : (receiver peer).Meets WithinRequest sock (chunks.map (.bytes · true))) :
    ∃ sock', (receiver peer).run sock (chunks.map (.bytes · true)) = some sock' ∧
      sock'.operationQueue = sock.operationQueue ++ [f.packet peer.ownert] := by
  have hframe : chunks.flatten = ([f].map Frame.bytes).flatten := by rw [hchunks]; simp
  obtain ⟨sock', hrun, htracks⟩ := (hs.tracks peer.ownert).run
    (by rw [List.nil_append, hframe]; exact bounded_frames _) hreq
  rw [List.nil_append, hframe] at htracks
  refine ⟨sock', hrun, ?_⟩
  rw [htracks.operationQueue, split_frames]
  simp [Frame.packetOf_bytes]

theorem delivered_of_le (h : M.byteSize a ≤ bufSize - headerSize) :
    Delivered M a type peer (sendPacket M a type area) where
  bytes := by
    have hlt : M.byteSize a < 65536 := Nat.lt_of_le_of_lt h (by decide)
    exact ⟨_, sendPacket_eq h, rfl, readLe16_le16_append hlt _⟩
  received bytes hbytes sock hs chunks hchunks hreq := by
    cases (sendPacket_eq_frame h).symm.trans hbytes
    obtain ⟨sock', hrun, hqueue⟩ := run_frame _ hs hchunks hreq
    exact ⟨sock', _, hrun, hqueue, parse_packet type peer h⟩

/-- A message that fills the packet but leaves no room for the header makes the peer receive past
the end of its buffer. -/
theorem not_received_of_lt (type : AgentType) (peer : SocketClass)
    (hlt : bufSize - headerSize < M.byteSize a) (hle : M.byteSize a ≤ bufSize) :
    ∃ sock : RecvSocket, sock.AtFrameStart ∧ ∃ chunks : List ByteStr,
      chunks.flatten = le16 (M.byteSize a) ++ le16 type.number ++ M.serialize a ∧
      (receiver peer).Meets WithinRequest sock (chunks.map (.bytes · true)) ∧
      (receiver peer).run sock (chunks.map (.bytes · true)) = none := by
  have hs := RecvSocket.accepted_atFrameStart (by decide : 1 ≠ 0)
  let header := le16 (M.byteSize a) ++ le16 type.number
  have hheader : header.length = frameFormat.headerSize := rfl
  have hneeded : frameFormat.needed header = headerSize + M.byteSize a := by
    rw [FrameFormat.needed_of_le hheader.ge]
    exact congrArg _ (readLe16_le16_append (Nat.lt_of_le_of_lt hle (by decide)) _)
  have hsplit : frameFormat.split header = ([], header) :=
    FrameFormat.split_of_lt (by rw [hneeded]; change 4 < 4 + _; omega)
  -- the header is received byte by byte, and then everything else at once
  obtain ⟨sock, hrun, htracks, hmeets⟩ := run_bytes header (hs.tracks peer.ownert)
    fun xs b mid hpre _ _ => by
      have hlt : xs.length < frameFormat.headerSize := by
        have := hpre.length_le
        simp only [List.length_append, List.length_singleton] at this
        omega
      rw [FrameFormat.split_of_lt (by rw [FrameFormat.needed_of_lt hlt]; exact hlt),
        FrameFormat.needed_of_lt hlt]
      decide
  have hreq : WithinRequest sock (.bytes (M.serialize a) true) := by
    refine ⟨_, htracks.wsaRecvBuf, Nat.one_le_of_lt hlt, ?_⟩
    simp only [htracks.remainBytes, hsplit, hneeded, hheader, MessageType.byteSize]
    change _ ≤ ((4 + _ : Nat) : Int) - (4 : Nat)
    omega
  have hnone := htracks.complete_eq_none (M.serialize a) (by
    rw [hsplit, hheader]
    change 8188 < (M.serialize a).length at hlt
    change 8192 < 4 + (M.serialize a).length
    omega)
  have hevents : (header.map ([·]) ++ [M.serialize a]).map (Completion.bytes · true) =
      header.map (fun b => .bytes [b] true) ++ [.bytes (M.serialize a) true] := by simp
  refine ⟨_, hs, header.map ([·]) ++ [M.serialize a], ?_, ?_, ?_⟩
  · rw [List.flatten_append, ← List.flatMap_def, List.flatMap_singleton']
    simp [header]
  · rw [hevents]
    exact (EventMachine.meets_concat_iff hrun).mpr ⟨hmeets, hreq⟩
  · rw [hevents, EventMachine.run_append, hrun]
    simp [receiver, hnone]

theorem delivered_sendPacket_iff : Delivered M a type peer (sendPacket M a type area) ↔
    M.byteSize a ≤ bufSize - headerSize := by
  refine ⟨fun h => ?_, delivered_of_le⟩
  by_contra hgt
  obtain ⟨header, hsent, rfl, -⟩ := h.bytes
  have hle : M.byteSize a ≤ bufSize := by
    have := length_sendPacket_le hsent
    simp only [List.length_append, length_le16, headerSize] at this
    unfold MessageType.byteSize
    omega
  obtain ⟨sock, hs, chunks, hchunks, hmeets, hrun⟩ :=
    not_received_of_lt type peer (Nat.lt_of_not_le hgt) hle
  obtain ⟨sock', packet, hsome, -⟩ := h.received _ hsent sock hs chunks hchunks hmeets
  rw [hrun] at hsome
  cases hsome

end Delivered

/-! ## The senders of lists -/

/-- A call of one of the senders whose messages carry a list. -/
inductive Outgoing where
  | currentProcessList (processList : List ProcessInfo)
  | processInfo (processLogList : List ProcessCounterEntry)
  | machineInfo (machineLogList : List MachineCounterEntry)
  | processListResponse (processList : List ByteStr)
  | counterListResponse (isMachine : Bool) (counterList : List ByteStr)

namespace Outgoing

/-- The size of the message that the sender builds. -/
def byteSize : Outgoing → Nat
  | .currentProcessList l => CsCurrentProcessListSend.type.byteSize (PSM.currentProcessList l)
  | .processInfo l => CsTotalProcessInfoSend.type.byteSize (totalProcessInfo l)
  | .machineInfo l => CsTotalMachineInfoSend.type.byteSize (totalMachineInfo l)
  | .processListResponse l => ScProcessListResponse.type.byteSize ⟨l⟩
  | .counterListResponse isMachine l => ScCounterListResponse.type.byteSize ⟨isMachine, l⟩

/-- The connected client's messages arrive at the server, and the server's at the client. -/
def Delivered (area : Buffer bufSize) : Outgoing → Prop
  | .currentProcessList l =>
    PSM.Delivered CsCurrentProcessListSend.type (PSM.currentProcessList l)
      .currentProcessListSend .agentSocket
      (AgentClientSocket.sendCurrentProcessList true area l)
  | .processInfo l =>
    PSM.Delivered CsTotalProcessInfoSend.type (totalProcessInfo l) .processInfoSend
      .agentSocket (AgentClientSocket.sendProcessInfo true area l)
  | .machineInfo l =>
    PSM.Delivered CsTotalMachineInfoSend.type (totalMachineInfo l) .machineInfoSend
      .agentSocket (AgentClientSocket.sendMachineInfo true area l)
  | .processListResponse l =>
    PSM.Delivered ScProcessListResponse.type ⟨l⟩ .processListResponse
      .agentClientSocket (AgentSocket.sendProcessListResponse (some l))
  | .counterListResponse isMachine l =>
    PSM.Delivered ScCounterListResponse.type ⟨isMachine, l⟩ .counterListResponse
      .agentClientSocket (AgentSocket.sendCounterListResponse isMachine (some l))

/-- What a sender builds is decoded by the peer exactly when it leaves room for the header. -/
theorem delivered_iff (m : Outgoing) (area : Buffer bufSize) :
    m.Delivered area ↔ m.byteSize ≤ bufSize - headerSize := by
  cases m <;> exact delivered_sendPacket_iff

/-- Of two stored names that arrive at least the bytes fit. -/
theorem two_names_le {x y : ByteStr} {area : Buffer bufSize}
    (h : (Outgoing.processListResponse [x, y]).Delivered area) :
    x.length + y.length ≤ bufSize - headerSize := by
  have hle := delivered_sendPacket_iff.mp h
  simp only [MessageType.byteSize, MessageType.serialize, ScProcessListResponse.type,
    List.map_cons, List.map_nil, encodeFields, List.flatMap_cons, List.flatMap_nil, Field.encode,
    Value.encode, List.length_append] at hle
  omega

/-- Two stored names of 5000 bytes each. -/
theorem not_delivered_two_names : ¬(Outgoing.processListResponse
    [List.replicate 5000 97, List.replicate 5000 98]).Delivered (Buffer.zero bufSize) := by
  intro h
  have hle := two_names_le h
  simp only [List.length_replicate, bufSize, headerSize] at hle
  omega

end Outgoing

end PSM
