import PSM.Lib.StreamSocket
import PSM.MessageAgreement

/-! The web's side of a command connection: `psmnet.py` against `WebCommandSocket`.

The client sends its request and then reads frames until the response to it, header by header and
payload by payload, with one `recv` for each. A `recv` that returns less than what was asked for is
not repeated, so a command is answered right only when the headers are read whole and the read of
the response ends between two of its fields (`commandToAgentServer_eq_iff`). Frames without a
payload are passed over before their type is looked at, and a health check has none
(`commandLoop_sent_of_healthChecks`). -/

namespace PSM.Web
open ByteStr ProtoWire Agent

/-! ## The protocol -/

/-- `psmweb::psmType`. -/
inductive PsmType where
  | processCommandRequest
  | processCommandResponse
  | counterCommandRequest
  | counterCommandResponse
  | healthCheck
  | healthAck
  deriving DecidableEq

namespace PsmType

def number : PsmType → Nat
  | processCommandRequest => 0
  | processCommandResponse => 1
  | counterCommandRequest => 2
  | counterCommandResponse => 3
  | healthCheck => 8
  | healthAck => 9

theorem number_lt (type : PsmType) : type.number < 32768 := by cases type <;> decide

theorem number_inj {type type' : PsmType} : type.number = type'.number ↔ type = type' := by
  cases type <;> cases type' <;> decide

end PsmType

inductive Result where
  | success
  | failure
  deriving DecidableEq

def Result.number : Result → Nat
  | success => 0
  | failure => 1

def Result.ofNumber? (n : Nat) : Option Result :=
  [success, failure].find? fun result => result.number = n % 2 ^ 32

structure WsProcessCommandRequest where
  token : BitVec 32
  type : ProcessCommandType
  processName : ByteStr

def WsProcessCommandRequest.messageType : MessageType WsProcessCommandRequest where
  toFields m := [⟨1, .varint (int32Varint m.token)⟩, ⟨2, .varint (processCommandNumber m.type)⟩,
    ⟨3, .bytes m.processName⟩]
  ofFields fs := do
    let token ← requiredVarint 1 fs
    let type ← requiredEnum processCommandType? 2 fs
    let processName ← requiredBytes 3 fs
    some ⟨BitVec.ofNat 32 token, type, processName⟩
  inRange m f hf := by
    simp only [List.mem_cons, List.not_mem_nil, or_false] at hf
    rcases hf with rfl | rfl | rfl
    · exact Field.inRange_varint (by decide) (by decide) (int32Varint_lt _)
    · exact Field.inRange_varint (by decide) (by decide) (by cases m.type <;> decide)
    · exact Field.inRange_bytes (by decide) (by decide) _
  ofFields_toFields m _ := by
    have htype : processCommandType? (processCommandNumber m.type) = some m.type := by
      cases m.type <;> rfl
    simp [requiredEnum, requiredBytes, requiredVarint, Value.varint?, Value.bytes?, htype,
      ofNat_int32Varint]

/-- Its token is the last of the fields. -/
structure WsCounterCommandRequest where
  type : CounterCommandType
  countername : List ByteStr
  ismachine : Bool
  token : BitVec 32

def WsCounterCommandRequest.messageType : MessageType WsCounterCommandRequest where
  toFields m := [⟨1, .varint (counterCommandNumber m.type)⟩] ++
    m.countername.map (fun name => ⟨2, .bytes name⟩) ++
    [⟨3, .varint m.ismachine.toNat⟩, ⟨4, .varint (int32Varint m.token)⟩]
  ofFields fs := do
    let type ← requiredEnum counterCommandType? 1 fs
    let countername := repeatedBytes 2 fs
    let ismachine ← requiredVarint 3 fs
    let token ← requiredVarint 4 fs
    some ⟨type, countername, ismachine ≠ 0, BitVec.ofNat 32 token⟩
  inRange m f hf := by
    simp only [List.mem_append, List.mem_cons, List.not_mem_nil, or_false, List.mem_map] at hf
    rcases hf with (rfl | ⟨name, -, rfl⟩) | rfl | rfl
    · exact Field.inRange_varint (by decide) (by decide) (by cases m.type <;> decide)
    · exact Field.inRange_bytes (by decide) (by decide) _
    · exact Field.inRange_varint (by decide) (by decide) (toNat_lt _)
    · exact Field.inRange_varint (by decide) (by decide) (int32Varint_lt _)
  ofFields_toFields m _ := by
    have htype : counterCommandType? (counterCommandNumber m.type) = some m.type := by
      cases m.type <;> rfl
    simp [requiredEnum, repeatedBytes, requiredVarint, Value.varint?, Value.bytes?, htype,
      ofNat_int32Varint, List.filterMap_map, Function.comp_def]

/-- The responses to the two commands differ in the type of the command. -/
structure SwCommandResponse (T : Type) where
  token : BitVec 32
  type : T
  result : Result
  failReason : Option ByteStr

def SwCommandResponse.messageType {T : Type} (number : T → Nat) (ofNumber? : Nat → Option T)
    (number_lt : ∀ type, number type < 2 ^ 64)
    (ofNumber?_number : ∀ type, ofNumber? (number type) = some type) :
    MessageType (SwCommandResponse T) where
  toFields m := [⟨1, .varint (int32Varint m.token)⟩, ⟨2, .varint (number m.type)⟩,
    ⟨3, .varint m.result.number⟩] ++ m.failReason.toList.map fun reason => ⟨4, .bytes reason⟩
  ofFields fs := do
    let token ← requiredVarint 1 fs
    let type ← requiredEnum ofNumber? 2 fs
    let result ← requiredEnum Result.ofNumber? 3 fs
    let failReason := requiredBytes 4 fs
    some ⟨BitVec.ofNat 32 token, type, result, failReason⟩
  inRange m f hf := by
    simp only [List.mem_append, List.mem_cons, List.not_mem_nil, or_false, List.mem_map] at hf
    rcases hf with (rfl | rfl | rfl) | ⟨reason, -, rfl⟩
    · exact Field.inRange_varint (by decide) (by decide) (int32Varint_lt _)
    · exact Field.inRange_varint (by decide) (by decide) (number_lt _)
    · exact Field.inRange_varint (by decide) (by decide) (by cases m.result <;> decide)
    · exact Field.inRange_bytes (by decide) (by decide) _
  ofFields_toFields m _ := by
    have hresult : Result.ofNumber? m.result.number = some m.result := by
      cases m.result <;> rfl
    obtain ⟨token, type, result, failReason⟩ := m
    cases failReason <;>
      simp [requiredEnum, requiredBytes, requiredVarint, Value.varint?, Value.bytes?, hresult,
        ofNumber?_number, ofNat_int32Varint]

abbrev SwProcessCommandResponse := SwCommandResponse ProcessCommandType

def SwProcessCommandResponse.messageType : MessageType SwProcessCommandResponse :=
  SwCommandResponse.messageType processCommandNumber processCommandType?
    (fun type => by cases type <;> decide) fun type => by cases type <;> rfl

abbrev SwCounterCommandResponse := SwCommandResponse CounterCommandType

def SwCounterCommandResponse.messageType : MessageType SwCounterCommandResponse :=
  SwCommandResponse.messageType counterCommandNumber counterCommandType?
    (fun type => by cases type <;> decide) fun type => by cases type <;> rfl

/-! ## The server's senders -/

/-- The bytes handed to `Send` for a packet whose payload area was cleared. -/
def send (length : Int) (type : PsmType) (area : Buffer bufSize) : Option ByteStr :=
  let buflen := length + headerSize
  if buflen < 0 ∨ headerSize + bufSize < buflen then none
  else some ((shortBytes length ++ le16 type.number ++ area.bytes).take buflen.toNat)

def sendPacket (M : MessageType α) (a : α) (type : PsmType) : Option ByteStr :=
  let length := toShort (M.byteSize a)
  (serializeToArray M a (Buffer.zero bufSize) length).bind fun area => send length type area

def WebCommandSocket.sendHealthCheck : Option ByteStr := sendPacket emptyType () .healthCheck

def commandResponse {T : Type} (token : BitVec 32) (type : T) (success : Bool)
    (reason : ByteStr) : SwCommandResponse T where
  token := token
  type := type
  result := if success then .success else .failure
  failReason := if reason ≠ [] then some reason else none

def WebCommandSocket.sendProcessCommandResponse (token : BitVec 32) (type : ProcessCommandType)
    (success : Bool) (reason : ByteStr) : Option ByteStr :=
  sendPacket SwProcessCommandResponse.messageType (commandResponse token type success reason)
    .processCommandResponse

def WebCommandSocket.sendCounterCommandResponse (token : BitVec 32) (type : CounterCommandType)
    (success : Bool) (reason : ByteStr) : Option ByteStr :=
  sendPacket SwCounterCommandResponse.messageType (commandResponse token type success reason)
    .counterCommandResponse

/-- A frame whose header a client can read: the length is not negative as a `short`. -/
structure WebFrame where
  type : Nat
  payload : ByteStr
  type_lt : type < 65536
  payload_lt : payload.length < 32768

namespace WebFrame

def header (f : WebFrame) : ByteStr := le16 f.payload.length ++ le16 f.type

def bytes (f : WebFrame) : ByteStr := f.header ++ f.payload

/-- The frame of a message. -/
def ofMessage (M : MessageType α) (a : α) (type : PsmType) (h : M.byteSize a < 32768) :
    WebFrame where
  type := type.number
  payload := M.serialize a
  type_lt := Nat.lt_trans type.number_lt (by decide)
  payload_lt := h

end WebFrame

theorem sendPacket_eq {α : Type} {M : MessageType α} {a : α} {type : PsmType}
    (h : M.byteSize a ≤ bufSize) :
    sendPacket M a type =
      some (WebFrame.ofMessage M a type (Nat.lt_of_le_of_lt h (by decide))).bytes := by
  have hsize : M.byteSize a ≤ 8192 := h
  have hshort : toShort (M.byteSize a) = M.byteSize a := toShort_eq_self (by omega)
  obtain ⟨area, hwrite, htake⟩ := exists_serializeToArray h (Buffer.zero bufSize)
  simp only [sendPacket, hshort, hwrite, Option.bind_some, send,
    shortBytes_natCast (by omega : M.byteSize a < 65536)]
  rw [if_neg (by simp only [headerSize, bufSize]; omega), take_packet rfl, htake]
  rfl

/-- The responses that the server sends are frames for the clients below. -/
theorem WebCommandSocket.sendProcessCommandResponse_eq {token : BitVec 32}
    {type : ProcessCommandType} {success : Bool} {reason : ByteStr}
    (h : SwProcessCommandResponse.messageType.byteSize
      (commandResponse token type success reason) ≤ bufSize) :
    sendProcessCommandResponse token type success reason =
      some (WebFrame.ofMessage _ _ .processCommandResponse
        (Nat.lt_of_le_of_lt h (by decide))).bytes := sendPacket_eq h

theorem WebCommandSocket.sendCounterCommandResponse_eq {token : BitVec 32}
    {type : CounterCommandType} {success : Bool} {reason : ByteStr}
    (h : SwCounterCommandResponse.messageType.byteSize
      (commandResponse token type success reason) ≤ bufSize) :
    sendCounterCommandResponse token type success reason =
      some (WebFrame.ofMessage _ _ .counterCommandResponse
        (Nat.lt_of_le_of_lt h (by decide))).bytes := sendPacket_eq h

/-! ## The client -/

/-- `struct.pack('hh' + str(length) + 's', length, type, smsg)`, which raises when the length is no
`short`. -/
def pack (type : PsmType) (smsg : ByteStr) : Option ByteStr :=
  if smsg.length < 32768 then some (le16 smsg.length ++ le16 type.number ++ smsg) else none

def processCommandRequest (token : BitVec 32) (msgtype : ProcessCommandType) (name : ByteStr) :
    Option ByteStr :=
  pack .processCommandRequest (WsProcessCommandRequest.messageType.serialize ⟨token, msgtype, name⟩)

def counterCommandRequest (token : BitVec 32) (msgtype : CounterCommandType) (ismachine : Bool)
    (counterlist : List ByteStr) : Option ByteStr :=
  pack .counterCommandRequest
    (WsCounterCommandRequest.messageType.serialize ⟨msgtype, counterlist, ismachine, token⟩)

/-- The four bytes that `SendHealthAck` sends. -/
def healthAck : ByteStr := le16 0 ++ le16 PsmType.healthAck.number

def resultText : Result → ByteStr
  | .success => ascii "success"
  | .failure => ascii "fail"

/-- `ProcessCommandResult` and `CounterCommandResult`. `parse` is `ParseFromString`. -/
def commandResult {T : Type} (parse : ByteStr → Option (SwCommandResponse T)) (data : ByteStr) :
    Option ByteStr :=
  (parse data).map fun msg => resultText msg.result

/-- `struct.unpack('hh', header)`. -/
def unpackHeader (header : ByteStr) : Option (Int × Int) :=
  if header.length = 4 then
    some (toShort (readLe16 header), toShort (readLe16 (header.drop 2)))
  else none

inductive Pass where
  | again (s : StreamSocket UInt8)
  | leave (s : StreamSocket UInt8) (result : Option ByteStr)

/-- One pass of the loop of `ProcessCommandToAgentServer` and of `CounterCommandToAgentServer`. The
result is `none` when it raises an exception. -/
def commandPass (response : PsmType) (commandResult : ByteStr → Option ByteStr)
    (s : StreamSocket UInt8) : Pass :=
  let (header, s) := s.recv headerSize
  if header.length = 0 then .leave s (some [])
  else
    match unpackHeader header with
    | none => .leave s none
    | some (length, type) =>
      if length ≠ 0 then
        -- `recv` raises when it is asked for a negative number of bytes
        if length < 0 then .leave s none
        else
          let (data, s) := s.recv length.toNat
          if type = PsmType.healthCheck.number then .again (s.send healthAck)
          else if type = response.number then .leave s (commandResult data)
          else .again s
      else .again s

theorem length_incoming_of_again {response : PsmType} {commandResult : ByteStr → Option ByteStr}
    {s s' : StreamSocket UInt8} (h : commandPass response commandResult s = .again s') :
    s'.incoming.length < s.incoming.length := by
  have hlt : (s.recv headerSize).1.length ≠ 0 →
      (s.recv headerSize).2.incoming.length < s.incoming.length := fun hne =>
    StreamSocket.length_incoming_recv_lt (by decide) (by simpa using hne)
  have hle (k : Nat) : ((s.recv headerSize).2.recv k).2.incoming.length ≤
      (s.recv headerSize).2.incoming.length := StreamSocket.length_incoming_recv_le
  simp only [commandPass] at h
  split at h
  · cases h
  · rename_i hne
    specialize hlt hne
    split at h
    · cases h
    · split at h
      · split at h
        · cases h
        · split at h
          · cases h
            exact Nat.lt_of_le_of_lt (hle _) hlt
          · split at h
            · cases h
            · cases h
              exact Nat.lt_of_le_of_lt (hle _) hlt
      · cases h
        exact hlt

def commandLoop (response : PsmType) (commandResult : ByteStr → Option ByteStr)
    (s : StreamSocket UInt8) : StreamSocket UInt8 × Option ByteStr :=
  match _h : commandPass response commandResult s with
  | .again s' => commandLoop response commandResult s'
  | .leave s' result => (s', result)
termination_by s.incoming.length
decreasing_by exact length_incoming_of_again _h

/-- The request is sent first. The socket is the one that `GetSocket` returns. -/
def commandToAgentServer (request : Option ByteStr) (response : PsmType)
    (commandResult : ByteStr → Option ByteStr) (s : StreamSocket UInt8) :
    StreamSocket UInt8 × Option ByteStr :=
  match request with
  | none => (s, none)
  | some data => commandLoop response commandResult (s.send data)

def processCommandToAgentServer (parse : ByteStr → Option SwProcessCommandResponse)
    (token : BitVec 32) (processname : ByteStr) (isadd : Bool) (s : StreamSocket UInt8) :
    StreamSocket UInt8 × Option ByteStr :=
  commandToAgentServer
    (processCommandRequest token (if isadd then .addList else .deleteList) processname)
    .processCommandResponse (commandResult parse) s

def counterCommandToAgentServer (parse : ByteStr → Option SwCounterCommandResponse)
    (token : BitVec 32) (isadd ismachine : Bool) (counterlist : List ByteStr)
    (s : StreamSocket UInt8) : StreamSocket UInt8 × Option ByteStr :=
  commandToAgentServer
    (counterCommandRequest token (if isadd then .cAddList else .cDeleteList) ismachine counterlist)
    .counterCommandResponse (commandResult parse) s

/-! ## One pass -/

section commandPass
variable {response : PsmType} {commandResult : ByteStr → Option ByteStr} {f : WebFrame}
  {rest : ByteStr} {segments : Stream' Nat} {sent : List ByteStr}

theorem commandLoop_eq {s : StreamSocket UInt8} : commandLoop response commandResult s =
    match commandPass response commandResult s with
    | .again s' => commandLoop response commandResult s'
    | .leave s' result => (s', result) := by
  rw [commandLoop]
  split
  · rename_i h
    rw [h]
  · rename_i h
    rw [h]

@[simp] theorem WebFrame.length_header (f : WebFrame) : f.header.length = headerSize := rfl

theorem unpackHeader_header (f : WebFrame) :
    unpackHeader f.header = some ((f.payload.length : Int), toShort f.type) := by
  have hlen : readLe16 f.header = f.payload.length :=
    readLe16_le16_append (Nat.lt_trans f.payload_lt (by decide)) _
  have htype : readLe16 (f.header.drop 2) = f.type := readLe16_le16_append f.type_lt []
  have hheader : f.header.length = 4 := rfl
  rw [unpackHeader, if_pos hheader, hlen, htype, toShort_eq_self f.payload_lt]

theorem toShort_eq_number_iff (f : WebFrame) (type : PsmType) :
    toShort f.type = type.number ↔ f.type = type.number := by
  have hf := f.type_lt
  have ht := type.number_lt
  simp only [toShort]
  split <;> omega

/-- A header that is not read whole is not a header. -/
theorem commandPass_of_short_header (h : segments.head < headerSize) :
    ∃ s', commandPass response commandResult ⟨f.bytes ++ rest, segments, sent⟩ = .leave s' none ∧
      s'.sent = sent := by
  let s : StreamSocket UInt8 := ⟨f.bytes ++ rest, segments, sent⟩
  have hne : (s.recv headerSize).1 ≠ [] := by
    rw [Ne, StreamSocket.recv_eq_nil_iff (by decide)]
    simp [s, WebFrame.bytes, WebFrame.header, le16]
  have hshort : (s.recv headerSize).1.length < 4 := by
    have hle : (s.recv headerSize).1.length ≤ max 1 segments.head := StreamSocket.length_recv_le
    simp only [headerSize] at h
    omega
  refine ⟨(s.recv headerSize).2, ?_, StreamSocket.recv_sent⟩
  rw [commandPass]
  simp only [s, List.length_eq_zero_iff, hne, if_false, unpackHeader, hshort.ne]

/-- What a pass does when the header of the next frame is read whole. -/
theorem commandPass_of_header (h : headerSize ≤ segments.head) :
    commandPass response commandResult ⟨f.bytes ++ rest, segments, sent⟩ =
      if f.payload = [] then .again ⟨rest, segments.tail, sent⟩
      else
        let (data, s') :=
          StreamSocket.recv ⟨f.payload ++ rest, segments.tail, sent⟩ f.payload.length
        if f.type = PsmType.healthCheck.number then .again (s'.send healthAck)
        else if f.type = response.number then .leave s' (commandResult data)
        else .again s' := by
  have hrecv : StreamSocket.recv ⟨f.bytes ++ rest, segments, sent⟩ headerSize =
      (f.header, ⟨f.payload ++ rest, segments.tail, sent⟩) := by
    apply StreamSocket.recv_whole _ f.length_header
    · exact Nat.le_trans h (Nat.le_max_right ..)
    · rw [WebFrame.bytes, List.append_assoc]
  have hpos : ¬(f.payload.length : Int) < 0 := by omega
  rw [commandPass, hrecv]
  simp only [WebFrame.length_header, unpackHeader_header, toShort_eq_number_iff,
    Int.toNat_natCast, Int.natCast_eq_zero, List.length_eq_zero_iff, hpos, if_false, ne_eq,
    ite_not]
  rw [if_neg (by decide)]
  split
  · rename_i hnil
    rw [hnil, List.nil_append]
  · rfl

end commandPass

/-! ## The frames before the response -/

namespace WebFrame

/-- The calls of `recv` for a frame. -/
def reads (f : WebFrame) : Nat := if f.payload = [] then 1 else 2

/-- What the client sends when it passes over a frame. -/
def acks (f : WebFrame) : List ByteStr :=
  if f.payload ≠ [] ∧ f.type = PsmType.healthCheck.number then [healthAck] else []

end WebFrame

def stream (fs : List WebFrame) : ByteStr := fs.flatMap WebFrame.bytes

def reads (fs : List WebFrame) : Nat := (fs.map WebFrame.reads).sum

/-- The headers of the frames, and the header after them, are read whole. -/
def HeadersWhole : List WebFrame → Stream' Nat → Prop
  | [], segments => headerSize ≤ segments.head
  | f :: fs, segments => headerSize ≤ segments.head ∧ HeadersWhole fs (segments.drop f.reads)

/-- The payloads of the frames are read whole, where there are any. -/
def PayloadsWhole : List WebFrame → Stream' Nat → Prop
  | [], _ => True
  | f :: fs, segments => (f.payload ≠ [] → f.payload.length ≤ segments.tail.head) ∧
    PayloadsWhole fs (segments.drop f.reads)

section commandLoop
variable {response : PsmType} {commandResult : ByteStr → Option ByteStr}
  {before : List WebFrame} {f reply : WebFrame} {rest : ByteStr} {segments : Stream' Nat}
  {sent : List ByteStr}

@[simp] theorem stream_nil : stream [] = [] := rfl

@[simp] theorem stream_cons (f : WebFrame) (fs : List WebFrame) :
    stream (f :: fs) = f.bytes ++ stream fs := rfl

@[simp] theorem reads_cons (f : WebFrame) (fs : List WebFrame) :
    reads (f :: fs) = f.reads + reads fs := rfl

/-- A frame that is read whole and is not the response is passed over. -/
theorem commandPass_of_whole (htype : f.type ≠ response.number)
    (hheader : headerSize ≤ segments.head)
    (hpayload : f.payload ≠ [] → f.payload.length ≤ segments.tail.head) :
    commandPass response commandResult ⟨f.bytes ++ rest, segments, sent⟩ =
      .again ⟨rest, segments.drop f.reads, sent ++ f.acks⟩ := by
  rw [commandPass_of_header hheader]
  split
  · rename_i hnil
    simp only [WebFrame.reads, WebFrame.acks, hnil, if_true, ne_eq, not_true_eq_false, false_and,
      if_false, List.append_nil]
    rfl
  · rename_i hne
    have hrecv : StreamSocket.recv ⟨f.payload ++ rest, segments.tail, sent⟩ f.payload.length =
        (f.payload, ⟨rest, segments.tail.tail, sent⟩) :=
      StreamSocket.recv_whole rfl rfl (Nat.le_trans (hpayload hne) (Nat.le_max_right ..))
    simp only [hrecv, if_false, WebFrame.reads, WebFrame.acks, hne, ne_eq, not_false_eq_true,
      true_and]
    split
    · rfl
    · rw [List.append_nil]
      rfl

theorem commandLoop_of_short_header (h : segments.head < headerSize) :
    (commandLoop response commandResult ⟨f.bytes ++ rest, segments, sent⟩).2 = none := by
  rw [commandLoop_eq]
  obtain ⟨s', hpass, -⟩ := commandPass_of_short_header h
  rw [hpass]

/-- The response is read by one call for its payload, whatever that returns. -/
theorem commandLoop_reply_eq (hresponse : response ≠ .healthCheck)
    (htype : reply.type = response.number) (hne : reply.payload ≠ [])
    (h : headerSize ≤ segments.head) :
    (commandLoop response commandResult ⟨reply.bytes ++ rest, segments, sent⟩).2 =
      commandResult (reply.payload.take (max 1 segments.tail.head)) := by
  have hcheck : response.number ≠ PsmType.healthCheck.number := by
    rwa [Ne, PsmType.number_inj]
  have hdata : (StreamSocket.recv ⟨reply.payload ++ rest, segments.tail, sent⟩
      reply.payload.length).1 = reply.payload.take (max 1 segments.tail.head) :=
    StreamSocket.recv_part rfl
  rw [commandLoop_eq, commandPass_of_header h]
  simp only [hne, htype, hcheck, if_false, if_true, hdata]

/-- With the payloads before it read whole, the response decides the result exactly when the
headers up to its own are read whole. -/
theorem commandLoop_eq_iff (hresponse : response ≠ .healthCheck)
    (hbefore : ∀ f ∈ before, f.type ≠ response.number) (htype : reply.type = response.number)
    (hne : reply.payload ≠ []) (hpayloads : PayloadsWhole before segments) (text : ByteStr) :
    (commandLoop response commandResult
        ⟨stream before ++ reply.bytes ++ rest, segments, sent⟩).2 = some text ↔
      HeadersWhole before segments ∧ commandResult
        (reply.payload.take (max 1 (segments.get (reads before + 1)))) = some text := by
  induction before generalizing segments sent with
  | nil =>
    rw [stream_nil, List.nil_append]
    by_cases h : headerSize ≤ segments.head
    · rw [commandLoop_reply_eq hresponse htype hne h]
      exact (and_iff_right h).symm
    · rw [commandLoop_of_short_header (Nat.lt_of_not_le h)]
      exact iff_of_false nofun fun hwhole => h hwhole.1
  | cons f before ih =>
    rw [stream_cons, List.append_assoc, List.append_assoc]
    by_cases h : headerSize ≤ segments.head
    · rw [commandLoop_eq, commandPass_of_whole (hbefore f List.mem_cons_self) h hpayloads.1,
        ← List.append_assoc]
      refine (ih (fun g hg => hbefore g (List.mem_cons_of_mem _ hg)) hpayloads.2).trans ?_
      rw [HeadersWhole, and_iff_right h, Stream'.get_drop, reads_cons, ← Nat.add_assoc]
    · rw [commandLoop_of_short_header (Nat.lt_of_not_le h)]
      exact iff_of_false nofun fun hwhole => h hwhole.1.1

theorem commandToAgentServer_of_short_header {request : Option ByteStr}
    (h : segments.head < headerSize) :
    (commandToAgentServer request response commandResult ⟨f.bytes ++ rest, segments, sent⟩).2 =
      none := by
  rcases request with - | data
  · rfl
  · exact commandLoop_of_short_header h

end commandLoop

/-! ## The result under a segmentation -/

/-- What the server sends: the reason is a text if there is one, as the web's strings have to be. -/
def SwCommandResponse.Sendable {T : Type} (reply : SwCommandResponse T) : Prop :=
  ∀ reason ∈ reply.failReason, ByteArray.IsValidUTF8 ⟨reason.toArray⟩

/-- How `ParseFromString` reads the first bytes of a response: a field that is cut is an error, and
`absent` is the result when the bytes end before the field of the result, which is the third. It is
`none` when that is an error. -/
structure ParsesParts {T : Type} (M : MessageType (SwCommandResponse T))
    (parse : ByteStr → Option (SwCommandResponse T)) (absent : Option Result) : Prop where
  fields : ∀ reply, reply.Sendable → M.byteSize reply < 32768 → ∀ k,
    (parse (encodeFields ((M.toFields reply).take k))).map SwCommandResponse.result =
      if 3 ≤ k then some reply.result else absent
  cut : ∀ reply, reply.Sendable → M.byteSize reply < 32768 → ∀ n,
    (∀ k, (M.serialize reply).take n ≠ encodeFields ((M.toFields reply).take k)) →
      parse ((M.serialize reply).take n) = none

/-- The reads under which a response is answered by its text: the request is sent, the headers up to
the response are read whole, and the read of its payload ends between two fields (or returns all of
it), after the field of the result, unless that is what its absence stands for. -/
structure RightReads {T : Type} (M : MessageType (SwCommandResponse T)) (absent : Option Result)
    (request : Option ByteStr) (before : List WebFrame) (reply : SwCommandResponse T)
    (segments : Stream' Nat) : Prop where
  request : request.isSome
  headers : HeadersWhole before segments
  payload : ∃ k, (M.serialize reply).take (max 1 (segments.get (reads before + 1))) =
    encodeFields ((M.toFields reply).take k) ∧ (3 ≤ k ∨ absent = some reply.result)

section RightReads
variable {T : Type} {M : MessageType (SwCommandResponse T)} {absent : Option Result}
  {parse : ByteStr → Option (SwCommandResponse T)} {type : PsmType} {request : Option ByteStr}
  {before : List WebFrame} {reply : SwCommandResponse T} {rest : ByteStr} {segments : Stream' Nat}

/-- It is enough that the payload is read whole. -/
theorem RightReads.of_whole (hrequest : request.isSome) (hheaders : HeadersWhole before segments)
    (h : (M.serialize reply).length ≤ max 1 (segments.get (reads before + 1))) :
    RightReads M absent request before reply segments := by
  refine ⟨hrequest, hheaders, (M.toFields reply).length + 3, ?_, .inl (Nat.le_add_left ..)⟩
  rw [List.take_of_length_le h, List.take_of_length_le (Nat.le_add_right ..)]
  rfl

theorem resultText_inj {r r' : Result} : resultText r = resultText r' ↔ r = r' := by
  cases r <;> cases r' <;> decide

theorem commandResult_take_iff (hparse : ParsesParts M parse absent) (hsent : reply.Sendable)
    (hreply : M.byteSize reply < 32768) (n : Nat) :
    commandResult parse ((M.serialize reply).take n) = some (resultText reply.result) ↔
      ∃ k, (M.serialize reply).take n = encodeFields ((M.toFields reply).take k) ∧
        (3 ≤ k ∨ absent = some reply.result) := by
  have hfields (k : Nat) : commandResult parse (encodeFields ((M.toFields reply).take k)) =
      some (resultText reply.result) ↔ 3 ≤ k ∨ absent = some reply.result := by
    have hmap (data : ByteStr) : commandResult parse data =
        ((parse data).map SwCommandResponse.result).map resultText := by
      rw [Option.map_map]
      rfl
    rw [hmap, hparse.fields reply hsent hreply k]
    split
    · rename_i hk
      exact iff_of_true rfl (.inl hk)
    · rename_i hk
      cases absent <;> simp [hk, resultText_inj]
  by_cases hcut : ∃ k, (M.serialize reply).take n = encodeFields ((M.toFields reply).take k)
  · constructor
    · intro h
      obtain ⟨k, hk⟩ := hcut
      exact ⟨k, hk, (hfields k).mp (hk ▸ h)⟩
    · rintro ⟨k, hk, hresult⟩
      rw [hk]
      exact (hfields k).mpr hresult
  · rw [commandResult, hparse.cut reply hsent hreply n (not_exists.mp hcut)]
    exact iff_of_false nofun fun ⟨k, hk, _⟩ => hcut ⟨k, hk⟩

theorem commandToAgentServer_eq_iff (hparse : ParsesParts M parse absent)
    (htype : type ≠ .healthCheck) (hbefore : ∀ f ∈ before, f.type ≠ type.number)
    (hsent : reply.Sendable) (hreply : M.byteSize reply < 32768) (hne : M.serialize reply ≠ [])
    (hpayloads : PayloadsWhole before segments) :
    (commandToAgentServer request type (commandResult parse)
        ⟨stream before ++ (WebFrame.ofMessage M reply type hreply).bytes ++ rest, segments, []⟩).2 =
        some (resultText reply.result) ↔
      RightReads M absent request before reply segments := by
  rcases request with - | data
  · exact iff_of_false nofun fun h => nomatch h.request
  · refine (commandLoop_eq_iff htype hbefore rfl hne hpayloads _).trans ?_
    refine (and_congr_right' (commandResult_take_iff hparse hsent hreply _)).trans ?_
    exact ⟨fun h => ⟨rfl, h.1, h.2⟩, fun h => ⟨h.headers, h.payload⟩⟩

/-- One byte at a time is never enough. -/
theorem not_forall_commandToAgentServer_eq (f : WebFrame) (text : ByteStr) :
    ¬∀ segments : Stream' Nat, (commandToAgentServer request type (commandResult parse)
      ⟨stream before ++ f.bytes ++ rest, segments, []⟩).2 = some text := by
  intro h
  specialize h (Stream'.const 1)
  have hshort : (Stream'.const 1).head < headerSize := by decide
  rcases before with - | ⟨g, before⟩
  · rw [stream_nil, List.nil_append, commandToAgentServer_of_short_header hshort] at h
    cases h
  · rw [stream_cons, List.append_assoc, List.append_assoc,
      commandToAgentServer_of_short_header hshort] at h
    cases h

end RightReads

theorem serialize_commandResponse_ne_nil {T : Type} {number : T → Nat}
    {ofNumber? : Nat → Option T} {number_lt : ∀ type, number type < 2 ^ 64}
    {ofNumber?_number : ∀ type, ofNumber? (number type) = some type}
    (reply : SwCommandResponse T) :
    (SwCommandResponse.messageType number ofNumber? number_lt ofNumber?_number).serialize reply ≠
      [] := by
  simp [MessageType.serialize, SwCommandResponse.messageType, encodeFields, Field.encode,
    encodeVarint_ne_nil]

/-- With the payloads before the response read whole, both clients return the result of the first
response exactly under `RightReads`, which some segmentation of every stream fails. -/
theorem toAgentServer_eq_resultText_iff
    {parseProcess : ByteStr → Option SwProcessCommandResponse}
    {parseCounter : ByteStr → Option SwCounterCommandResponse} {absent : Option Result}
    (hprocess : ParsesParts SwProcessCommandResponse.messageType parseProcess absent)
    (hcounter : ParsesParts SwCounterCommandResponse.messageType parseCounter absent)
    (token : BitVec 32) (before : List WebFrame) (rest : ByteStr) :
    (∀ (processname : ByteStr) (isadd : Bool) (reply : SwProcessCommandResponse)
      (hreply : SwProcessCommandResponse.messageType.byteSize reply < 32768), reply.Sendable →
      (∀ f ∈ before, f.type ≠ PsmType.processCommandResponse.number) →
      let incoming := stream before ++ (WebFrame.ofMessage SwProcessCommandResponse.messageType
        reply .processCommandResponse hreply).bytes ++ rest
      (∀ segments, PayloadsWhole before segments →
        ((processCommandToAgentServer parseProcess token processname isadd
            ⟨incoming, segments, []⟩).2 = some (resultText reply.result) ↔
          RightReads SwProcessCommandResponse.messageType absent
            (processCommandRequest token (if isadd then .addList else .deleteList) processname)
            before reply segments)) ∧
      ¬∀ segments, (processCommandToAgentServer parseProcess token processname isadd
        ⟨incoming, segments, []⟩).2 = some (resultText reply.result)) ∧
    ∀ (isadd ismachine : Bool) (counterlist : List ByteStr) (reply : SwCounterCommandResponse)
      (hreply : SwCounterCommandResponse.messageType.byteSize reply < 32768), reply.Sendable →
      (∀ f ∈ before, f.type ≠ PsmType.counterCommandResponse.number) →
      let incoming := stream before ++ (WebFrame.ofMessage SwCounterCommandResponse.messageType
        reply .counterCommandResponse hreply).bytes ++ rest
      (∀ segments, PayloadsWhole before segments →
        ((counterCommandToAgentServer parseCounter token isadd ismachine counterlist
            ⟨incoming, segments, []⟩).2 = some (resultText reply.result) ↔
          RightReads SwCounterCommandResponse.messageType absent
            (counterCommandRequest token (if isadd then .cAddList else .cDeleteList) ismachine
              counterlist)
            before reply segments)) ∧
      ¬∀ segments, (counterCommandToAgentServer parseCounter token isadd ismachine counterlist
        ⟨incoming, segments, []⟩).2 = some (resultText reply.result) := by
  refine ⟨fun processname isadd reply hreply hsent hbefore => ⟨fun segments hpayloads => ?_, ?_⟩,
    fun isadd ismachine counterlist reply hreply hsent hbefore => ⟨fun segments hpayloads => ?_, ?_⟩⟩
  · exact commandToAgentServer_eq_iff hprocess (by decide) hbefore hsent hreply
      (serialize_commandResponse_ne_nil reply) hpayloads
  · exact not_forall_commandToAgentServer_eq _ _
  · exact commandToAgentServer_eq_iff hcounter (by decide) hbefore hsent hreply
      (serialize_commandResponse_ne_nil reply) hpayloads
  · exact not_forall_commandToAgentServer_eq _ _

/-- A field that is missing has its default: 0, or the first value of its enumeration. -/
def SwCommandResponse.parseFromString {T : Type} (ofNumber? : Nat → Option T) (first : T)
    (data : ByteStr) : Option (SwCommandResponse T) :=
  (decodeFields data.length data).map fun fs =>
    { token := BitVec.ofNat 32 ((requiredVarint 1 fs).getD 0)
      type := (requiredEnum ofNumber? 2 fs).getD first
      result := (requiredEnum Result.ofNumber? 3 fs).getD .success
      failReason := requiredBytes 4 fs }

/-- The result in the first fields of a response. -/
theorem requiredEnum_take_toFields {T : Type} {number : T → Nat} {ofNumber? : Nat → Option T}
    {number_lt : ∀ type, number type < 2 ^ 64}
    {ofNumber?_number : ∀ type, ofNumber? (number type) = some type}
    (reply : SwCommandResponse T) (k : Nat) :
    requiredEnum Result.ofNumber? 3 (((SwCommandResponse.messageType number ofNumber? number_lt
      ofNumber?_number).toFields reply).take k) = if 3 ≤ k then some reply.result else none := by
  have hresult : Result.ofNumber? reply.result.number = some reply.result := by
    cases reply.result <;> rfl
  rcases k with - | - | - | k
  · rfl
  · simp [SwCommandResponse.messageType, requiredEnum]
  · simp [SwCommandResponse.messageType, requiredEnum]
  · simp [SwCommandResponse.messageType, requiredEnum, Value.varint?, hresult, ← List.map_take]

theorem parsesParts_parseFromString {T : Type} {number : T → Nat} {ofNumber? : Nat → Option T}
    (number_lt : ∀ type, number type < 2 ^ 64)
    (ofNumber?_number : ∀ type, ofNumber? (number type) = some type) (first : T) :
    ParsesParts (SwCommandResponse.messageType number ofNumber? number_lt ofNumber?_number)
      (SwCommandResponse.parseFromString ofNumber? first) (some .success) := by
  let M := SwCommandResponse.messageType number ofNumber? number_lt ofNumber?_number
  have hvalid (reply : SwCommandResponse T) (hreply : M.byteSize reply < 32768) :
      ∀ f ∈ M.toFields reply, f.Valid := M.valid_toFields (Nat.lt_trans hreply (by decide))
  refine ⟨fun reply _ hreply k => ?_, fun reply _ hreply n hcut => ?_⟩
  · have hdecode := decodeFields_encodeFields
      (fun f hf => hvalid reply hreply f (List.mem_of_mem_take hf))
      (length_le_length_encodeFields ((M.toFields reply).take k))
    rw [SwCommandResponse.parseFromString, hdecode, Option.map_some, Option.map_some,
      requiredEnum_take_toFields]
    split <;> rfl
  · rw [SwCommandResponse.parseFromString]
    exact congrArg (Option.map _) (decodeFields_take (hvalid reply hreply) hcut _)

theorem parsesParts_process : ParsesParts SwProcessCommandResponse.messageType
    (SwCommandResponse.parseFromString processCommandType? .start) (some .success) :=
  parsesParts_parseFromString _ _ _

theorem parsesParts_counter : ParsesParts SwCounterCommandResponse.messageType
    (SwCommandResponse.parseFromString counterCommandType? .cAddList) (some .success) :=
  parsesParts_parseFromString _ _ _

def healthCheckFrame : WebFrame := .ofMessage emptyType () .healthCheck (by decide)

/-- The server's answer to an accepted `ADDLIST` of the process list of machine 5. -/
def addListAnswer : SwProcessCommandResponse := commandResponse 5 .addList true []

theorem byteSize_addListAnswer :
    SwProcessCommandResponse.messageType.byteSize addListAnswer < 32768 := by decide

theorem sendable_addListAnswer : addListAnswer.Sendable := nofun

/-- After a health check, all of it read whole. -/
theorem toAgentServer_eq_resultText_iff_healthCheck :
    (processCommandToAgentServer (SwCommandResponse.parseFromString processCommandType? .start) 5
      (ascii "sql") true ⟨stream [healthCheckFrame] ++ (WebFrame.ofMessage _ addListAnswer
        .processCommandResponse byteSize_addListAnswer).bytes ++ [], Stream'.const 4096, []⟩).2 =
      some (ascii "success") := by
  have h := (toAgentServer_eq_resultText_iff parsesParts_process parsesParts_counter 5
    [healthCheckFrame] []).1 (ascii "sql") true addListAnswer byteSize_addListAnswer
    sendable_addListAnswer (by simp [healthCheckFrame, WebFrame.ofMessage, PsmType.number])
  refine (h.1 (Stream'.const 4096) ⟨fun hne => absurd rfl hne, trivial⟩).mpr ?_
  exact .of_whole rfl ⟨by decide, show headerSize ≤ 4096 by decide⟩ (by decide)

/-- A header that comes in two halves. -/
theorem processCommandToAgentServer_halfHeader :
    (processCommandToAgentServer (SwCommandResponse.parseFromString processCommandType? .start) 5
      (ascii "sql") true ⟨(WebFrame.ofMessage _ addListAnswer .processCommandResponse
        byteSize_addListAnswer).bytes ++ [], Stream'.const 2, []⟩).2 ≠
      some (resultText addListAnswer.result) := by
  rw [processCommandToAgentServer, commandToAgentServer_of_short_header (by decide)]
  nofun

/-! ## Health checks -/

section healthChecks
variable {response : PsmType} {commandResult : ByteStr → Option ByteStr} {rest : ByteStr}
  {segments : Stream' Nat} {sent : List ByteStr}

/-- What the server sends for a health check is a header. -/
theorem sendHealthCheck_eq : WebCommandSocket.sendHealthCheck = some healthCheckFrame.bytes :=
  sendPacket_eq (by decide)

/-- No health check is acknowledged, whatever the segmentation. -/
theorem commandLoop_sent_of_healthChecks (hresponse : response ≠ .healthCheck)
    (hrest : ∀ segments, (commandLoop response commandResult ⟨rest, segments, sent⟩).1.sent =
      sent) (n : Nat) :
    (commandLoop response commandResult
      ⟨(List.replicate n healthCheckFrame.bytes).flatten ++ rest, segments, sent⟩).1.sent =
      sent := by
  induction n generalizing segments with
  | zero => exact hrest segments
  | succ n ih =>
    rw [List.replicate_succ, List.flatten_cons, List.append_assoc, commandLoop_eq]
    by_cases h : headerSize ≤ segments.head
    · have htype : healthCheckFrame.type ≠ response.number := fun h =>
        hresponse (PsmType.number_inj.mp h.symm)
      rw [commandPass_of_whole htype h fun hne => absurd rfl hne]
      have hacks : healthCheckFrame.acks = [] := rfl
      rw [hacks, List.append_nil]
      exact ih
    · obtain ⟨s', hpass, hsent⟩ := commandPass_of_short_header (Nat.lt_of_not_le h)
      rw [hpass]
      exact hsent

/-- Nothing is sent either for what follows: the end of the stream, or the response. -/
theorem commandLoop_sent_of_nil :
    (commandLoop response commandResult ⟨[], segments, sent⟩).1.sent = sent := by
  rw [commandLoop_eq, commandPass]
  simp [StreamSocket.recv]

theorem commandLoop_sent_of_reply (hresponse : response ≠ .healthCheck) {reply : WebFrame}
    (htype : reply.type = response.number) (hne : reply.payload ≠ []) :
    (commandLoop response commandResult ⟨reply.bytes ++ rest, segments, sent⟩).1.sent = sent := by
  rw [commandLoop_eq]
  by_cases h : headerSize ≤ segments.head
  · have hcheck : response.number ≠ PsmType.healthCheck.number := by
      rwa [Ne, PsmType.number_inj]
    rw [commandPass_of_header h]
    simp only [hne, htype, hcheck, if_false, if_true]
    rfl
  · obtain ⟨s', hpass, hsent⟩ := commandPass_of_short_header (Nat.lt_of_not_le h)
    rw [hpass]
    exact hsent

end healthChecks

/-- A request is no acknowledgement. -/
theorem ne_healthAck_of_pack {type : PsmType} {smsg data : ByteStr} (htype : type ≠ .healthAck)
    (h : pack type smsg = some data) : data ≠ healthAck := by
  rintro rfl
  simp only [pack, Option.ite_none_right_eq_some, Option.some.injEq] at h
  have hbyte : type.number.toUInt8 = PsmType.healthAck.number.toUInt8 :=
    congrArg (fun bytes : ByteStr => bytes.getD 2 0) h.2
  cases type <;> first | exact htype rfl | exact absurd hbyte (by decide)

/-- What comes after the health checks: the response, with anything behind it, or the end of the
stream. -/
def ReplyOrEnd {α : Type} (M : MessageType α) (type : PsmType) (bytes : ByteStr) : Prop :=
  bytes = [] ∨ ∃ reply rest, ∃ h : M.byteSize reply < 32768,
    bytes = (WebFrame.ofMessage M reply type h).bytes ++ rest

theorem commandToAgentServer_count_healthAck {α : Type} {M : MessageType α}
    {request response : PsmType} {commandResult : ByteStr → Option ByteStr} {smsg rest : ByteStr}
    {segments : Stream' Nat} (hrequest : request ≠ .healthAck)
    (hresponse : response ≠ .healthCheck) (hne : ∀ reply, M.serialize reply ≠ [])
    (hrest : ReplyOrEnd M response rest) (n : Nat) :
    (commandToAgentServer (pack request smsg) response commandResult
      ⟨(List.replicate n healthCheckFrame.bytes).flatten ++ rest, segments, []⟩).1.sent.count
        healthAck = 0 := by
  rcases hpack : pack request smsg with - | data
  · rfl
  · have hsent (segments : Stream' Nat) :
        (commandLoop response commandResult ⟨rest, segments, [data]⟩).1.sent = [data] := by
      rcases hrest with rfl | ⟨reply, rest, h, rfl⟩
      · exact commandLoop_sent_of_nil
      · exact commandLoop_sent_of_reply hresponse rfl (hne reply)
    rw [commandToAgentServer]
    simp only [StreamSocket.send, List.nil_append]
    rw [commandLoop_sent_of_healthChecks hresponse hsent]
    exact List.count_eq_zero_of_not_mem fun hmem =>
      ne_healthAck_of_pack hrequest hpack (List.mem_singleton.mp hmem).symm

/-- Each health check is acknowledged once exactly when there is none, under every segmentation. -/
theorem count_healthAck_eq_iff {check : ByteStr}
    (hcheck : WebCommandSocket.sendHealthCheck = some check) (n : Nat) (token : BitVec 32)
    (segments : Stream' Nat) :
    (∀ parse processname isadd rest,
      ReplyOrEnd SwProcessCommandResponse.messageType .processCommandResponse rest →
      ((processCommandToAgentServer parse token processname isadd
          ⟨(List.replicate n check).flatten ++ rest, segments, []⟩).1.sent.count healthAck = n ↔
        n = 0)) ∧
    ∀ parse isadd ismachine counterlist rest,
      ReplyOrEnd SwCounterCommandResponse.messageType .counterCommandResponse rest →
      ((counterCommandToAgentServer parse token isadd ismachine counterlist
          ⟨(List.replicate n check).flatten ++ rest, segments, []⟩).1.sent.count healthAck = n ↔
        n = 0) := by
  obtain rfl := Option.some.inj (sendHealthCheck_eq.symm.trans hcheck)
  refine ⟨fun parse processname isadd rest hrest => ?_,
    fun parse isadd ismachine counterlist rest hrest => ?_⟩
  · rw [processCommandToAgentServer, processCommandRequest,
      commandToAgentServer_count_healthAck (by decide) (by decide)
        serialize_commandResponse_ne_nil hrest]
    exact eq_comm
  · rw [counterCommandToAgentServer, counterCommandRequest,
      commandToAgentServer_count_healthAck (by decide) (by decide)
        serialize_commandResponse_ne_nil hrest]
    exact eq_comm

theorem replyOrEnd_addListAnswer : ReplyOrEnd SwProcessCommandResponse.messageType
    .processCommandResponse (WebFrame.ofMessage _ addListAnswer .processCommandResponse
      byteSize_addListAnswer).bytes :=
  .inr ⟨addListAnswer, [], byteSize_addListAnswer, (List.append_nil _).symm⟩

theorem count_healthAck_eq_iff_addList :
    (processCommandToAgentServer SwProcessCommandResponse.messageType.parse 5 (ascii "sql") true
      ⟨(List.replicate 0 healthCheckFrame.bytes).flatten ++ (WebFrame.ofMessage _ addListAnswer
        .processCommandResponse byteSize_addListAnswer).bytes,
        Stream'.const 4096, []⟩).1.sent.count healthAck = 0 :=
  ((count_healthAck_eq_iff sendHealthCheck_eq 0 5 (Stream'.const 4096)).1 _ _ _ _
    replyOrEnd_addListAnswer).mpr rfl

/-- One health check before the response, all of it read whole. -/
theorem processCommandToAgentServer_unanswered :
    (processCommandToAgentServer SwProcessCommandResponse.messageType.parse 5 (ascii "sql") true
      ⟨(List.replicate 1 healthCheckFrame.bytes).flatten ++ (WebFrame.ofMessage _ addListAnswer
        .processCommandResponse byteSize_addListAnswer).bytes,
        Stream'.const 4096, []⟩).1.sent.count healthAck ≠ 1 := by
  rw [processCommandToAgentServer, processCommandRequest,
    commandToAgentServer_count_healthAck (by decide) (by decide)
      serialize_commandResponse_ne_nil replyOrEnd_addListAnswer]
  decide

end PSM.Web
