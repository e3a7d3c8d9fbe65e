import PSM.Lib.ProtoWire

/-! The packet types of `AgentProtocol.proto`, and its messages that carry lists.

Strings are byte strings, an `int32` or `int64` is a bit vector, and a `double` is its 64 bits. -/

namespace PSM.Agent
open ByteStr ProtoWire

/-- `agentType`. -/
inductive AgentType where
  | agentIDRequest
  | agentIDResponse
  | processListRequest
  | processListResponse
  | counterListRequest
  | counterListResponse
  | currentProcessListSend
  | healthCheck
  | healthAck
  | processCommandRequest
  | counterCommandRequest
  | processRestrictionRequest
  | processRestrictionResponse
  | startRecord
  | stopRecord
  | processInfoSend
  | machineInfoSend
  | agentReady
  | recordResponse
  deriving DecidableEq

/-- The numbers of the packet types. -/
def AgentType.number : AgentType → Nat
  | .agentIDRequest => 0
  | .agentIDResponse => 1
  | .processListRequest => 2
  | .processListResponse => 3
  | .counterListRequest => 4
  | .counterListResponse => 5
  | .currentProcessListSend => 6
  | .healthCheck => 8
  | .healthAck => 9
  | .processCommandRequest => 10
  | .counterCommandRequest => 12
  | .processRestrictionRequest => 14
  | .processRestrictionResponse => 15
  | .startRecord => 16
  | .stopRecord => 17
  | .processInfoSend => 18
  | .machineInfoSend => 21
  | .agentReady => 22
  | .recordResponse => 23

theorem AgentType.number_lt (t : AgentType) : t.number < 65536 := by cases t <;> decide

/-- `WriteInt32`: a negative number is sign-extended. -/
def int32Varint (x : BitVec 32) : Nat := (x.signExtend 64).toNat

/-- Only the low half of the varint is kept. -/
theorem ofNat_int32Varint (x : BitVec 32) : BitVec.ofNat 32 (int32Varint x) = x := by
  have h : (x.signExtend 64).setWidth 32 = x := by
    ext i hi
    simp only [BitVec.getElem_setWidth, BitVec.getLsbD_signExtend]
    simp [hi, BitVec.getLsbD_eq_getElem, Nat.lt_trans hi (by decide : 32 < 64)]
  rw [int32Varint, BitVec.ofNat_toNat]
  exact h

theorem int32Varint_lt (x : BitVec 32) : int32Varint x < 2 ^ 64 := (x.signExtend 64).isLt

structure Log where
  timeStamp : BitVec 64
  value : BitVec 64
  deriving DecidableEq

def Log.type : MessageType Log where
  toFields l := [⟨1, .varint l.timeStamp.toNat⟩, ⟨2, .fixed64 l.value⟩]
  ofFields fs := do
    let timeStamp ← requiredVarint 1 fs
    let value ← requiredFixed64 2 fs
    some ⟨BitVec.ofNat 64 timeStamp, value⟩
  inRange l f hf := by
    simp only [List.mem_cons, List.not_mem_nil, or_false] at hf
    rcases hf with rfl | rfl
    · exact Field.inRange_varint (by decide) (by decide) l.timeStamp.isLt
    · exact Field.inRange_fixed64 (by decide) (by decide) _
  ofFields_toFields l _ := by
    simp [requiredVarint, requiredFixed64, Value.varint?, Value.fixed64?]

structure CurrentProcess where
  processName : ByteStr
  processID : List (BitVec 32)
  deriving DecidableEq

def CurrentProcess.type : MessageType CurrentProcess where
  toFields p := ⟨1, .bytes p.processName⟩ :: p.processID.map fun x => ⟨2, .varint (int32Varint x)⟩
  ofFields fs := do
    let processName ← requiredBytes 1 fs
    let processID ← repeatedVarint 2 fs
    some ⟨processName, processID.map (BitVec.ofNat 32)⟩
  inRange p f hf := by
    rcases List.mem_cons.mp hf with rfl | hf
    · exact Field.inRange_bytes (by decide) (by decide) _
    · obtain ⟨x, -, rfl⟩ := List.mem_map.mp hf
      exact Field.inRange_varint (by decide) (by decide) (int32Varint_lt x)
  ofFields_toFields p _ := by
    have hids : valuesAt 2 (⟨1, .bytes p.processName⟩ ::
        p.processID.map fun x => ⟨2, .varint (int32Varint x)⟩) =
          p.processID.map fun x => .varint (int32Varint x) := by simp
    rw [repeatedVarint_eq hids]
    simp [requiredBytes, Value.bytes?, ofNat_int32Varint, Function.comp_def]

/-- `csCurrentProcessListSend`. -/
structure CsCurrentProcessListSend where
  processInfo : List CurrentProcess
  deriving DecidableEq

def CsCurrentProcessListSend.type : MessageType CsCurrentProcessListSend where
  toFields m := CurrentProcess.type.repeatedFields 1 m.processInfo
  ofFields fs := (CurrentProcess.type.repeatedMessage 1 fs).map .mk
  inRange _ _ hf := MessageType.inRange_repeatedFields _ (by decide) (by decide) hf
  ofFields_toFields m h := by
    rw [MessageType.repeatedMessage_eq (List.Subset.refl _) h
      (by simp [MessageType.valuesAt_repeatedFields])]
    rfl

structure ProcessInfos where
  counterName : ByteStr
  processName : ByteStr
  processID : BitVec 32
  logs : List Log
  deriving DecidableEq

def ProcessInfos.type : MessageType ProcessInfos where
  toFields p := [⟨1, .bytes p.counterName⟩, ⟨2, .bytes p.processName⟩,
    ⟨3, .varint (int32Varint p.processID)⟩] ++ Log.type.repeatedFields 4 p.logs
  ofFields fs := do
    let counterName ← requiredBytes 1 fs
    let processName ← requiredBytes 2 fs
    let processID ← requiredVarint 3 fs
    let logs ← Log.type.repeatedMessage 4 fs
    some ⟨counterName, processName, BitVec.ofNat 32 processID, logs⟩
  inRange p f hf := by
    rcases List.mem_append.mp hf with hf | hf
    · simp only [List.mem_cons, List.not_mem_nil, or_false] at hf
      rcases hf with rfl | rfl | rfl
      · exact Field.inRange_bytes (by decide) (by decide) _
      · exact Field.inRange_bytes (by decide) (by decide) _
      · exact Field.inRange_varint (by decide) (by decide) (int32Varint_lt _)
    · exact MessageType.inRange_repeatedFields _ (by decide) (by decide) hf
  ofFields_toFields p h := by
    rw [MessageType.repeatedMessage_eq (List.subset_append_right _ _) h
      (by simp [MessageType.valuesAt_repeatedFields])]
    simp [requiredBytes, requiredVarint, Value.bytes?, Value.varint?, ofNat_int32Varint,
      MessageType.valuesAt_repeatedFields]

/-- `csTotalProcessInfoSend`. -/
structure CsTotalProcessInfoSend where
  info : List ProcessInfos
  deriving DecidableEq

def CsTotalProcessInfoSend.type : MessageType CsTotalProcessInfoSend where
  toFields m := ProcessInfos.type.repeatedFields 1 m.info
  ofFields fs := (ProcessInfos.type.repeatedMessage 1 fs).map .mk
  inRange _ _ hf := MessageType.inRange_repeatedFields _ (by decide) (by decide) hf
  ofFields_toFields m h := by
    rw [MessageType.repeatedMessage_eq (List.Subset.refl _) h
      (by simp [MessageType.valuesAt_repeatedFields])]
    rfl

structure MachineInfos where
  counterName : ByteStr
  logs : List Log
  deriving DecidableEq

def MachineInfos.type : MessageType MachineInfos where
  toFields p := ⟨1, .bytes p.counterName⟩ :: Log.type.repeatedFields 2 p.logs
  ofFields fs := do
    let counterName ← requiredBytes 1 fs
    let logs ← Log.type.repeatedMessage 2 fs
    some ⟨counterName, logs⟩
  inRange p f hf := by
    rcases List.mem_cons.mp hf with rfl | hf
    · exact Field.inRange_bytes (by decide) (by decide) _
    · exact MessageType.inRange_repeatedFields _ (by decide) (by decide) hf
  ofFields_toFields p h := by
    rw [MessageType.repeatedMessage_eq (List.subset_cons_self _ _) h
      (by simp [MessageType.valuesAt_repeatedFields])]
    simp [requiredBytes, Value.bytes?, MessageType.valuesAt_repeatedFields]

/-- `csTotalMachineInfoSend`. -/
structure CsTotalMachineInfoSend where
  info : List MachineInfos
  deriving DecidableEq

def CsTotalMachineInfoSend.type : MessageType CsTotalMachineInfoSend where
  toFields m := MachineInfos.type.repeatedFields 1 m.info
  ofFields fs := (MachineInfos.type.repeatedMessage 1 fs).map .mk
  inRange _ _ hf := MessageType.inRange_repeatedFields _ (by decide) (by decide) hf
  ofFields_toFields m h := by
    rw [MessageType.repeatedMessage_eq (List.Subset.refl _) h
      (by simp [MessageType.valuesAt_repeatedFields])]
    rfl

/-- `scProcessListResponse`. -/
structure ScProcessListResponse where
  processName : List ByteStr
  deriving DecidableEq

def ScProcessListResponse.type : MessageType ScProcessListResponse where
  toFields m := m.processName.map fun name => ⟨1, .bytes name⟩
  ofFields fs := some ⟨repeatedBytes 1 fs⟩
  inRange m f hf := by
    obtain ⟨name, -, rfl⟩ := List.mem_map.mp hf
    exact Field.inRange_bytes (by decide) (by decide) _
  ofFields_toFields m _ := by simp [repeatedBytes, Function.comp_def, Value.bytes?]

/-- `scCounterListResponse`. -/
structure ScCounterListResponse where
  isMachine : Bool
  counterName : List ByteStr
  deriving DecidableEq

def ScCounterListResponse.type : MessageType ScCounterListResponse where
  toFields m := ⟨1, .varint m.isMachine.toNat⟩ :: m.counterName.map fun name => ⟨2, .bytes name⟩
  ofFields fs := do
    let isMachine ← requiredVarint 1 fs
    some ⟨isMachine ≠ 0, repeatedBytes 2 fs⟩
  inRange m f hf := by
    rcases List.mem_cons.mp hf with rfl | hf
    · exact Field.inRange_varint (by decide) (by decide) (by cases m.isMachine <;> decide)
    · obtain ⟨name, -, rfl⟩ := List.mem_map.mp hf
      exact Field.inRange_bytes (by decide) (by decide) _
  ofFields_toFields m _ := by
    obtain ⟨isMachine, names⟩ := m
    cases isMachine <;>
      simp [requiredVarint, repeatedBytes, Value.varint?, Value.bytes?, Function.comp_def]

end PSM.Agent
