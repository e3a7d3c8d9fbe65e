import PSM.Lib.Redis
import PSM.AgentProtocol

/-! The server's access to Redis (`RedisManager`).

Each function is the program of the commands it sends. The JSON text of an agent's record is
represented by the record, which is what it reads as, or by the value written when it does not
parse; the texts of counters come from outside, so for them the JSON library is a parameter. -/

namespace PSM
open ByteStr Redis

/-! ## Records, counters and keys -/

/-- A double that is neither infinite nor a NaN. -/
def isFinite (x : BitVec 64) : Bool := x.extractLsb' 52 11 != 0x7ff#11

theorem isFinite_zero : isFinite 0#64 = true := rfl

/-- The JSON object of an agent. -/
structure AgentJson where
  hostIP : Int
  agentName : ByteStr
  agentNumber : Int
  isOn : Bool
  isRecording : Bool
  startTime : ByteStr
  endTime : ByteStr
  responseTime : Int
  ramSize : BitVec 64

/-- An object whose text reads as it again. An infinity or a NaN is written as `1.#INF` or the like,
which no reader takes for a number. -/
structure AgentRecord extends AgentJson where
  finite : isFinite ramSize = true

/-- The values of hashes: texts of agents that read as records, texts of agents that do not parse,
and other texts. -/
inductive HashValue where
  | json (r : AgentRecord)
  | unread (r : AgentJson)
  | text (s : ByteStr)

def HashValue.record? : HashValue → Option AgentRecord
  | .json r => some r
  | _ => none

/-- What `JsonToStr` writes for an agent. -/
def HashValue.ofJson (jv : AgentJson) : HashValue :=
  if finite : isFinite jv.ramSize = true then .json ⟨jv, finite⟩ else .unread jv

structure CounterJson where
  name : ByteStr
  counter : ByteStr
  unit : ByteStr
  deriving DecidableEq

/-- What `StrToJson` makes of the text of a counter: `NULL`, a value whose members `name` and
`counter` read as strings, or one for which reading them raises an exception. -/
inductive CounterText where
  | null
  | object (c : CounterJson)
  | other

def defaultProcessList : List ByteStr := [ascii "Melon", ascii "KakaoTalk", ascii "notepad"]

def defaultCounters : List CounterJson :=
  [⟨ascii "CPUTime", ascii "% Processor Time", ascii "%"⟩,
    ⟨ascii "Memory", ascii "Working Set - Private", ascii "kB"⟩]

def defaultMachineCounters : List CounterJson :=
  [⟨ascii "CPUTime", ascii "\\Processor(_Total)\\% Processor Time", ascii "%"⟩,
    ⟨ascii "Memory", ascii "\\Memory\\Available KBytes", ascii "kB"⟩,
    ⟨ascii "Disk", ascii "\\LogicalDisk(_Total)\\% Free Space", ascii "%"⟩]

/-- The default counters of a list. -/
def defaultsOf (isMachine : Bool) : List CounterJson :=
  if isMachine then defaultMachineCounters else defaultCounters

/-- The JSON library. A text that it has written for a default counter reads as that counter. -/
structure JsonCpp where
  strToJson : ByteStr → CounterText
  jsonToStr : CounterJson → ByteStr
  strToJson_jsonToStr : ∀ isMachine, ∀ c ∈ defaultsOf isMachine,
    strToJson (jsonToStr c) = .object c

/-- The counter that a text reads as. -/
def JsonCpp.counter? (json : JsonCpp) (value : ByteStr) : Option CounterJson :=
  match json.strToJson value with
  | .object jv => some jv
  | _ => none

/-- The first text that reads as a counter of the given name, if all before it read as counters. -/
def JsonCpp.firstNamed (json : JsonCpp) (name : ByteStr) :
    List ByteStr → Option (Option (ByteStr × CounterJson))
  | [] => some none
  | value :: v =>
    match json.counter? value with
    | some jv => if jv.name = name then some (some (value, jv)) else json.firstNamed name v
    | none => none

def JsonCpp.defaultCounterList (json : JsonCpp) (isMachine : Bool) : List ByteStr :=
  (defaultsOf isMachine).map json.jsonToStr

def quote (s : ByteStr) : ByteStr :=
  34 :: s.flatMap (fun b => if b = 34 ∨ b = 92 then [92, b] else [b]) ++ [34]

/-- The text that `StyledWriter` writes for a counter, if its strings are printable. -/
def styledText (c : CounterJson) : ByteStr :=
  ascii "\x7b\n   \"counter\" : " ++ quote c.counter ++ ascii ",\n   \"name\" : " ++ quote c.name ++
    ascii ",\n   \"unit\" : " ++ quote c.unit ++ ascii "\n\x7d\n"

/-- A library that reads the texts of the default counters and the given ones. -/
def JsonCpp.ofTexts (texts : List (ByteStr × CounterJson)) : JsonCpp where
  strToJson value :=
    (((defaultCounters ++ defaultMachineCounters).map fun c => (styledText c, c)) ++ texts).find?
      (·.1 = value) |>.elim .null (.object ·.2)
  jsonToStr := styledText
  strToJson_jsonToStr isMachine c hc := by
    cases isMachine
    · simp only [defaultsOf, Bool.false_eq_true, if_false, defaultCounters, List.mem_cons,
        List.not_mem_nil, or_false] at hc
      rcases hc with rfl | rfl <;> rfl
    · simp only [defaultsOf, if_true, defaultMachineCounters, List.mem_cons, List.not_mem_nil,
        or_false] at hc
      rcases hc with rfl | rfl | rfl <;> rfl

/-- `counterNameMap`. -/
def CounterNameMap := ByteStr → Option ByteStr

namespace CounterNameMap

/-- `insert`: an entry that is there stays. -/
def insert (m : CounterNameMap) (counter name : ByteStr) : CounterNameMap :=
  fun c => if c = counter then some ((m c).getD name) else m c

def insertAll (m : CounterNameMap) (cs : List CounterJson) : CounterNameMap :=
  cs.foldl (fun m c => m.insert c.counter c.name) m

def empty : CounterNameMap := fun _ => none

/-- The map after `RedisManager::Init`. -/
def init : CounterNameMap :=
  insertAll empty (defaultCounters ++ defaultMachineCounters)

end CounterNameMap

namespace RedisManager

def agentList : ByteStr := ascii "AgentList"

/-- A key of an agent: its number, a colon, and what is stored. -/
def agentKey (agentID : Int) (what : ByteStr) : ByteStr := decimal agentID ++ colon :: what

def processListKey (agentID : Int) : ByteStr := agentKey agentID (ascii "ProcessList")

def counterListKey (agentID : Int) (isMachine : Bool) : ByteStr :=
  agentKey agentID (if isMachine then ascii "MachineCounterList" else ascii "CounterList")

/-! ## Agents -/

def getAgentJVByToken (token : Int) : Client HashValue (Option AgentRecord) := do
  match ← Prog.command (.hmget agentList (decimal token)) with
  | .value (some (.json jv)) => pure (some jv)
  | _ => pure none

def zeroTime : ByteStr := ascii "00/00/00 00:00:00"

def newAgent (hostIP : Int) (agentID : Int) (ramSize : BitVec 64) : AgentJson where
  hostIP := hostIP
  agentName := ascii "Agent" ++ decimal agentID
  agentNumber := agentID
  isOn := true
  isRecording := false
  startTime := zeroTime
  endTime := zeroTime
  responseTime := 0
  ramSize := ramSize

def newRecord (hostIP : Int) (agentID : Int) (ramSize : BitVec 64)
    (finite : isFinite ramSize = true) : AgentRecord :=
  ⟨newAgent hostIP agentID ramSize, finite⟩

def initAgent (token hostIP : Int) (ramSize : BitVec 64) : Client HashValue Bool := do
  match ← getAgentJVByToken token with
  | some jvv =>
    let _ ← Prog.command (.hmset agentList (decimal token) (.json { jvv with isOn := true }))
    pure true
  | none =>
    let result ← Prog.command (.hlen agentList)
    if result.isOk then
      let jv := newAgent hostIP result.toInt ramSize
      let result ← Prog.command (.hmset agentList (decimal token) (.ofJson jv))
      pure result.isOk
    else pure false

/-- The `ChangeAgentState` functions read the record, change it, and write it back whole. -/
def changeAgentState (token : Int) (change : AgentRecord → AgentRecord) :
    Client HashValue Bool := do
  match ← getAgentJVByToken token with
  | some jv =>
    let _ ← Prog.command (.hmset agentList (decimal token) (.json (change jv)))
    pure true
  | none => pure false

def changeAgentState_isOn (token : Int) (value : Bool) : Client HashValue Bool :=
  changeAgentState token fun jv => { jv with isOn := value }

/-- `localTime` is `GetCurrentDate` and `GetCurrTime` with a space between them, and `now` is
`time(NULL)`. -/
def changeAgentState_startRecording (localTime : Int → ByteStr) (now token totalRecordTime
    responseTime delay : Int) : Client HashValue Bool :=
  changeAgentState token fun jv =>
    let timestamp := now + delay
    { jv with
      isRecording := true
      startTime := localTime timestamp
      endTime :=
        if totalRecordTime > 0 then localTime (timestamp + totalRecordTime) else ascii "INFINITE"
      responseTime := responseTime }

def changeAgentState_stopRecording (token : Int) : Client HashValue Bool :=
  changeAgentState token fun jv => { jv with
    isRecording := false
    startTime := zeroTime
    endTime := zeroTime
    responseTime := 0 }

/-- A value that is not a record has no member `agentNumber`, and asking for it raises an
exception. -/
def getAgentID (token : Int) : Client HashValue Int := do
  match ← Prog.command (.hmget agentList (decimal token)) with
  | .value (some (.json jv)) => pure jv.agentNumber
  | .value (some _) => .die
  | _ => pure (-1)

/-! ## Lists -/

/-- `sadd` for each default, up to the first error. -/
def addDefaults (key : ByteStr) : List ByteStr → Client HashValue Bool
  | [] => pure true
  | s :: defaults => do
    let result ← Prog.command (.sadd key s)
    if result.isOk then addDefaults key defaults else pure false

/-- The list, when the function returns true. -/
def getProcessList (agentID : Int) : Client HashValue (Option (List ByteStr)) := do
  let key := processListKey agentID
  let result ← Prog.command (.smembers key)
  if !result.isOk then pure none
  else if result.toArray ≠ [] then pure (some result.toArray)
  else if ← addDefaults key defaultProcessList then pure (some defaultProcessList)
  else pure none

/-- The counters of the members of a list. One that does not read as a counter raises an
exception. -/
def parseMembers (json : JsonCpp) : List ByteStr → Client HashValue (List CounterJson)
  | [] => pure []
  | value :: v =>
    match json.strToJson value with
    | .object jv => do
      let jvs ← parseMembers json v
      pure (jv :: jvs)
    | _ => .die

/-- The list, when the function returns true, and the map of names afterwards. The names of the
default counters are not put into the map here. -/
def getCounterList (json : JsonCpp) (m : CounterNameMap) (agentID : Int) (isMachine : Bool) :
    Client HashValue (Option (List ByteStr) × CounterNameMap) := do
  let key := counterListKey agentID isMachine
  let result ← Prog.command (.smembers key)
  if !result.isOk then pure (none, m)
  else if result.toArray ≠ [] then
    let jvs ← parseMembers json result.toArray
    pure (some (jvs.map (·.counter)), m.insertAll jvs)
  else if ← addDefaults key (json.defaultCounterList isMachine) then
    pure (some ((defaultsOf isMachine).map (·.counter)), m)
  else pure (none, m)

def setProcessName (agentID : Int) (processName : ByteStr) : Client HashValue Bool := do
  let result ← Prog.command (.sadd (processListKey agentID) processName)
  pure (result.isOk && result.toInt != 0)

def remProcessName (agentID : Int) (processName : ByteStr) : Client HashValue Bool := do
  let result ← Prog.command (.srem (processListKey agentID) processName)
  pure (result.isOk && result.toInt != 0)

/-- The counter added, when the function returns true, and the map of names afterwards. -/
def setCounterName (json : JsonCpp) (m : CounterNameMap) (agentID : Int) (counterName : ByteStr)
    (isMachine : Bool) : Client HashValue (Option ByteStr × CounterNameMap) :=
  match json.strToJson counterName with
  | .null => pure (none, m)
  | .other => .die
  | .object jv => do
    let m := m.insert jv.counter jv.name
    let res ← Prog.command (.sadd (counterListKey agentID isMachine) counterName)
    pure (if res.isOk && res.toInt != 0 then some jv.counter else none, m)

/-- The loop of `RemCounterName` over the members listed. -/
def remFirst (json : JsonCpp) (key counterName : ByteStr) :
    List ByteStr → Client HashValue (Option ByteStr)
  | [] => pure none
  | value :: v =>
    match json.strToJson value with
    | .object jv =>
      if jv.name = counterName then do
        let res ← Prog.command (.srem key value)
        pure (if res.isOk && res.toInt != 0 then some jv.counter else none)
      else remFirst json key counterName v
    | _ => .die

/-- The counter removed, when the function returns true. -/
def remCounterName (json : JsonCpp) (agentID : Int) (counterName : ByteStr) (isMachine : Bool) :
    Client HashValue (Option ByteStr) := do
  let key := counterListKey agentID isMachine
  let result ← Prog.command (.smembers key)
  if result.isOk && result.toArray ≠ [] then remFirst json key counterName result.toArray
  else pure none

/-! ## Snapshots and logs -/

def currentProcessListKey (agentID : Int) : ByteStr :=
  agentKey agentID (ascii "CurrentProcessList")

def processIDText (processID : List (BitVec 32)) : ByteStr :=
  processID.flatMap fun pid => decimal pid.toInt ++ ascii " "

/-- `hmset` for each process, up to the first error. -/
def setProcesses (key : ByteStr) : List Agent.CurrentProcess → Client HashValue Bool
  | [] => pure true
  | pi :: processInfo => do
    let result ← Prog.command (.hmset key pi.processName (.text (processIDText pi.processID)))
    if result.isOk then setProcesses key processInfo else pure false

/-- `msg` is missing when the packet does not parse. -/
def saveCurrentProcessList (agentID : Int) (msg : Option Agent.CsCurrentProcessListSend) :
    Client HashValue Bool := do
  let key := currentProcessListKey agentID
  let result ← Prog.command .multi
  if !result.isOk then pure false
  else
    let result ← Prog.command (.del key)
    if !result.isOk then pure false
    else if ← setProcesses key (msg.elim [] (·.processInfo)) then
      let result ← Prog.command .exec
      pure result.isOk
    else pure false

def counterNameToNewName (m : CounterNameMap) (counterName : ByteStr) : ByteStr :=
  (m counterName).getD (ascii "etc")

/-- Doubles: `std::to_string`, and the division by 1024. -/
structure DoubleOps where
  toStr : BitVec 64 → ByteStr
  div1024 : BitVec 64 → BitVec 64

/-- `lpush` for each value, up to the first error. -/
def pushAll (key : ByteStr) : List ByteStr → Client HashValue Bool
  | [] => pure true
  | v :: vs => do
    let result ← Prog.command (.lpush key v)
    if result.isOk then pushAll key vs else pure false

def logText (ops : DoubleOps) (l : Agent.Log) (value : BitVec 64) : ByteStr :=
  decimal l.timeStamp.toInt ++ ascii " " ++ ops.toStr value

/-- Where logs of a process go, for a counter of the given name. -/
def processLogKey (agentID : Int) (name : ByteStr) (pi : Agent.ProcessInfos) : ByteStr :=
  agentKey agentID (name ++ ascii ":" ++ pi.processName ++ ascii ":" ++ decimal pi.processID.toInt)

def processInfoKey (m : CounterNameMap) (agentID : Int) (pi : Agent.ProcessInfos) : ByteStr :=
  processLogKey agentID (counterNameToNewName m pi.counterName) pi

def processInfoValues (ops : DoubleOps) (m : CounterNameMap) (pi : Agent.ProcessInfos) :
    List ByteStr :=
  pi.logs.map fun l => logText ops l
    (if counterNameToNewName m pi.counterName = ascii "Memory" then ops.div1024 l.value
      else l.value)

/-- The loop of the `Save` functions over the entries of a packet. -/
def pushEach (key : α → ByteStr) (values : α → List ByteStr) : List α → Client HashValue Bool
  | [] => pure true
  | x :: info => do
    if ← pushAll (key x) (values x) then pushEach key values info else pure false

/-- `SaveProcessInfo`, when the packet has been parsed. -/
def saveProcessInfo (ops : DoubleOps) (m : CounterNameMap) (agentID : Int)
    (info : List Agent.ProcessInfos) : Client HashValue Bool :=
  pushEach (processInfoKey m agentID) (processInfoValues ops m) info

def machineLogKey (agentID : Int) (name : ByteStr) : ByteStr :=
  agentKey agentID (name ++ ascii ":Total")

def machineInfoKey (m : CounterNameMap) (agentID : Int) (mi : Agent.MachineInfos) : ByteStr :=
  machineLogKey agentID (counterNameToNewName m mi.counterName)

def machineInfoValues (ops : DoubleOps) (mi : Agent.MachineInfos) : List ByteStr :=
  mi.logs.map fun l => logText ops l l.value

/-- `SaveMachineInfo`, when the packet has been parsed. -/
def saveMachineInfo (ops : DoubleOps) (m : CounterNameMap) (agentID : Int)
    (info : List Agent.MachineInfos) : Client HashValue Bool :=
  pushEach (machineInfoKey m agentID) (machineInfoValues ops) info

/-! ## The programs on their own -/

/-- The record of a token, as `GetAgentJVByToken` finds it. -/
def recordAt (s : Store HashValue) (token : Int) : Option AgentRecord :=
  ((s.hash agentList).lookup (decimal token)).bind HashValue.record?

/-- What `GetAgentID` returns. -/
def agentIDAt (s : Store HashValue) (token : Int) : Option Int :=
  match (s.hash agentList).lookup (decimal token) with
  | some (.json jv) => some jv.agentNumber
  | some _ => none
  | none => some (-1)

def setValue (s : Store HashValue) (token : Int) (v : HashValue) : Store HashValue :=
  (exec (.hmset agentList (decimal token) v) s).2

abbrev setRecord (s : Store HashValue) (token : Int) (jv : AgentRecord) : Store HashValue :=
  setValue s token (.json jv)

/-- What `InitAgent` writes. -/
def initValue (s : Store HashValue) (token hostIP : Int) (ramSize : BitVec 64) : HashValue :=
  match recordAt s token with
  | some jvv => .json { jvv with isOn := true }
  | none => .ofJson (newAgent hostIP (s.hash agentList).keys.length ramSize)

section
variable {s : Store HashValue} {token token' agentID : Int} {jv : AgentRecord} {key x : ByteStr}
  {v : HashValue} {json : JsonCpp} {m : CounterNameMap} {isMachine : Bool}

theorem record?_eq_some_iff : v.record? = some jv ↔ v = .json jv := by
  cases v <;> simp [HashValue.record?]

theorem ofJson_eq_json_iff {r : AgentJson} :
    HashValue.ofJson r = .json jv ↔ r = jv.toAgentJson := by
  unfold HashValue.ofJson
  constructor
  · intro h
    split at h
    · cases h
      rfl
    · cases h
  · rintro rfl
    exact dif_pos jv.finite

@[simp] theorem setValue_set : (setValue s token v).set = s.set := rfl

@[simp] theorem recordAt_modifySet {f : MemberSet → MemberSet} :
    recordAt (s.modifySet key f) token = recordAt s token := rfl

theorem recordAt_setValue :
    recordAt (setValue s token v) token' = if token' = token then v.record? else recordAt s token' := by
  unfold recordAt setValue
  simp only [exec, Function.update_self]
  by_cases h : token' = token
  · rw [if_pos h, h, AList.lookup_insert]
    rfl
  · rw [if_neg h, AList.lookup_insert_ne fun e => h (decimal_injective e)]

theorem recordAt_setRecord :
    recordAt (setRecord s token jv) token' = if token' = token then some jv else recordAt s token' :=
  recordAt_setValue

theorem getAgentJVByToken_run :
    (getAgentJVByToken token).run s = some (recordAt s token, s) := by
  simp only [getAgentJVByToken, Client.run, Prog.run_bind, Prog.run_command, exec, recordAt,
    Option.bind_some]
  cases (s.hash agentList).lookup (decimal token) with
  | none => rfl
  | some v => cases v <;> rfl

theorem changeAgentState_run {change : AgentRecord → AgentRecord} :
    (changeAgentState token change).run s = some (match recordAt s token with
      | some jv => (true, setRecord s token (change jv))
      | none => (false, s)) := by
  simp only [changeAgentState, Client.run, Prog.run_bind]
  rw [← Client.run, getAgentJVByToken_run]
  cases recordAt s token <;> rfl

theorem initAgent_run {hostIP : Int} {ramSize : BitVec 64} :
    (initAgent token hostIP ramSize).run s =
      some (true, setValue s token (initValue s token hostIP ramSize)) := by
  simp only [initAgent, Client.run, Prog.run_bind]
  rw [← Client.run, getAgentJVByToken_run]
  unfold initValue
  cases recordAt s token <;> rfl

/-- What the `ChangeAgentState` functions do to the records. -/
theorem recordAt_changeAgentState {change : AgentRecord → AgentRecord} :
    ∃ b s', (changeAgentState token change).run s = some (b, s') ∧ s'.set = s.set ∧
      ∀ token', recordAt s' token' =
        if token' = token then (recordAt s token').map change else recordAt s token' := by
  rw [changeAgentState_run]
  cases h : recordAt s token with
  | none =>
    refine ⟨_, _, rfl, rfl, fun token' => ?_⟩
    split
    · rename_i he
      rw [he, h]
      rfl
    · rfl
  | some jv =>
    refine ⟨_, _, rfl, rfl, fun token' => ?_⟩
    rw [recordAt_setRecord]
    split
    · rename_i he
      rw [he, h]
      rfl
    · rfl

/-- The record that `InitAgent` writes: the one found, or a new one. -/
theorem initValue_eq_json_iff {hostIP : Int} {ramSize : BitVec 64} :
    initValue s token hostIP ramSize = .json jv ↔
      (recordAt s token = none ∧
        jv.toAgentJson = newAgent hostIP (s.hash agentList).keys.length ramSize) ∨
      ∃ jvv, recordAt s token = some jvv ∧ jv = { jvv with isOn := true } := by
  unfold initValue
  cases recordAt s token with
  | none =>
    simp only [ofJson_eq_json_iff, true_and, reduceCtorEq, false_and, exists_false, or_false]
    exact eq_comm
  | some jvv =>
    simp only [HashValue.json.injEq, reduceCtorEq, false_and, Option.some.injEq, exists_eq_left',
      false_or]
    exact eq_comm

theorem exists_initValue {hostIP : Int} {ramSize : BitVec 64} (h : isFinite ramSize = true) :
    ∃ jv, initValue s token hostIP ramSize = .json jv := by
  cases hrecord : recordAt s token with
  | none => exact ⟨newRecord _ _ _ h, initValue_eq_json_iff.mpr (.inl ⟨hrecord, rfl⟩)⟩
  | some jvv => exact ⟨_, initValue_eq_json_iff.mpr (.inr ⟨jvv, hrecord, rfl⟩)⟩

theorem initValue_isOn {hostIP : Int} {ramSize : BitVec 64}
    (h : initValue s token hostIP ramSize = .json jv) : jv.isOn = true := by
  obtain ⟨-, h⟩ | ⟨jvv, -, rfl⟩ := initValue_eq_json_iff.mp h
  · rw [h]
    rfl
  · rfl

theorem getAgentID_run :
    (getAgentID token).run s = (agentIDAt s token).map fun agentID => (agentID, s) := by
  simp only [getAgentID, Client.run, Prog.run_bind, Prog.run_command, exec, Option.bind_some,
    agentIDAt]
  cases (s.hash agentList).lookup (decimal token) with
  | none => rfl
  | some v => cases v <;> rfl

theorem agentIDAt_eq (h : recordAt s token = some jv) :
    agentIDAt s token = some jv.agentNumber := by
  obtain ⟨v, hv, hjv⟩ := Option.bind_eq_some_iff.mp h
  rw [agentIDAt, hv]
  cases v <;> cases hjv
  rfl

/-- After `InitAgent` the number is that of the record, if it reads. -/
theorem agentIDAt_setValue :
    agentIDAt (setValue s token v) token = v.record?.map (·.agentNumber) := by
  unfold agentIDAt setValue
  simp only [exec, Function.update_self, AList.lookup_insert]
  cases v <;> rfl

theorem addDefaults_run {defaults : List ByteStr} :
    (addDefaults key defaults).run s =
      some (true, s.modifySet key (defaults.foldl MemberSet.add ·)) := by
  induction defaults generalizing s with
  | nil => simp [addDefaults, Client.run, Store.modifySet]
  | cons x defaults ih =>
    simp only [addDefaults, Client.run, Prog.run_bind, Prog.run_command, exec_sadd,
      Option.bind_some]
    exact ih.trans (by simp [Store.modifySet])

/-- `GetProcessList` lists what is stored, or stores the defaults and lists them. -/
theorem getProcessList_run : (getProcessList agentID).run s = some (
    if (s.set (processListKey agentID)).members ≠ [] then
      (some (s.set (processListKey agentID)).members, s)
    else (some defaultProcessList,
      s.modifySet (processListKey agentID) (defaultProcessList.foldl MemberSet.add ·))) := by
  simp only [getProcessList, Client.run, Prog.run_bind, Prog.run_command, exec, Option.bind_some,
    Reply.isOk, Reply.toArray, Bool.not_true, Bool.false_eq_true, if_false]
  by_cases h : (s.set (processListKey agentID)).members = []
  · simp only [h, ne_eq, not_true_eq_false, if_false, Prog.run_bind]
    rw [← Client.run, addDefaults_run]
    rfl
  · simp only [h, ne_eq, not_false_eq_true, if_true, Prog.run_pure]

theorem setProcessName_run : (setProcessName agentID x).run s =
    some (decide (x ∉ s.set (processListKey agentID)),
      s.modifySet (processListKey agentID) (·.add x)) := by
  simp only [setProcessName, Client.run, Prog.run_bind, Prog.run_command, exec_sadd,
    Option.bind_some]
  by_cases h : x ∈ s.set (processListKey agentID) <;> simp [h, Reply.isOk, Reply.toInt]

theorem remProcessName_run : (remProcessName agentID x).run s =
    some (decide (x ∈ s.set (processListKey agentID)),
      s.modifySet (processListKey agentID) (·.remove x)) := by
  simp only [remProcessName, Client.run, Prog.run_bind, Prog.run_command, exec_srem,
    Option.bind_some]
  by_cases h : x ∈ s.set (processListKey agentID) <;> simp [h, Reply.isOk, Reply.toInt]

theorem parseMembers_cons {value : ByteStr} {v : List ByteStr} :
    parseMembers json (value :: v) = match json.counter? value with
      | some jv => do
        let jvs ← parseMembers json v
        pure (jv :: jvs)
      | none => .die := by
  rw [parseMembers, JsonCpp.counter?]
  cases json.strToJson value <;> rfl

theorem parseMembers_run {v : List ByteStr} :
    (parseMembers json v).run s = (v.mapM json.counter?).map fun jvs => (jvs, s) := by
  induction v with
  | nil => rfl
  | cons value v ih =>
    rw [List.mapM_cons, parseMembers_cons]
    cases json.counter? value with
    | none => rfl
    | some jv =>
      simp only [Client.run, Prog.run_bind]
      rw [← Client.run, ih]
      cases v.mapM json.counter? <;> rfl

/-- `GetCounterList` lists the counters of what is stored, or stores the defaults and lists their
counters. -/
theorem getCounterList_run : (getCounterList json m agentID isMachine).run s =
    if (s.set (counterListKey agentID isMachine)).members ≠ [] then
      ((s.set (counterListKey agentID isMachine)).members.mapM json.counter?).map fun jvs =>
        ((some (jvs.map (·.counter)), m.insertAll jvs), s)
    else some ((some ((defaultsOf isMachine).map (·.counter)), m),
      s.modifySet (counterListKey agentID isMachine)
        ((json.defaultCounterList isMachine).foldl MemberSet.add ·)) := by
  simp only [getCounterList, Client.run, Prog.run_bind, Prog.run_command, exec, Option.bind_some,
    Reply.isOk, Reply.toArray, Bool.not_true, Bool.false_eq_true, if_false]
  by_cases h : (s.set (counterListKey agentID isMachine)).members = []
  · simp only [h, ne_eq, not_true_eq_false, if_false, Prog.run_bind]
    rw [← Client.run, addDefaults_run]
    rfl
  · simp only [h, ne_eq, not_false_eq_true, if_true, Prog.run_bind]
    rw [← Client.run, parseMembers_run, Option.bind_map, Option.map_eq_bind]
    rfl

theorem setCounterName_run : (setCounterName json m agentID x isMachine).run s =
    match json.strToJson x with
    | .null => some ((none, m), s)
    | .other => none
    | .object jv => some
      ((if x ∈ s.set (counterListKey agentID isMachine) then none else some jv.counter,
        m.insert jv.counter jv.name), s.modifySet (counterListKey agentID isMachine) (·.add x)) := by
  unfold setCounterName
  cases json.strToJson x with
  | null => rfl
  | other => rfl
  | object jv =>
    simp only [Client.run, Prog.run_bind, Prog.run_command, exec_sadd, Option.bind_some]
    by_cases h : x ∈ s.set (counterListKey agentID isMachine) <;>
      simp [h, Reply.isOk, Reply.toInt]

theorem remFirst_run {v : List ByteStr} (hv : ∀ value ∈ v, value ∈ s.set key) :
    (remFirst json key x v).run s = (json.firstNamed x v).map fun
      | some (value, jv) => (some jv.counter, s.modifySet key (·.remove value))
      | none => (none, s) := by
  induction v with
  | nil => rfl
  | cons value v ih =>
    unfold remFirst JsonCpp.firstNamed JsonCpp.counter?
    cases json.strToJson value with
    | null => rfl
    | other => rfl
    | object jv =>
      by_cases hname : jv.name = x
      · simp only [hname, if_true, Client.run, Prog.run_bind, Prog.run_command, exec_srem,
          Option.bind_some, hv value List.mem_cons_self]
        rfl
      · simp only [hname, if_false]
        exact ih fun value hvalue => hv value (List.mem_cons_of_mem _ hvalue)

/-- `RemCounterName` removes the first listed member of the name. -/
theorem remCounterName_run : (remCounterName json agentID x isMachine).run s =
    (json.firstNamed x (s.set (counterListKey agentID isMachine)).members).map fun
      | some (value, jv) =>
        (some jv.counter, s.modifySet (counterListKey agentID isMachine) (·.remove value))
      | none => (none, s) := by
  simp only [remCounterName, Client.run, Prog.run_bind, Prog.run_command, exec, Option.bind_some,
    Reply.isOk, Reply.toArray, Bool.true_and]
  by_cases h : (s.set (counterListKey agentID isMachine)).members = []
  · simp only [h, ne_eq, not_true_eq_false]
    rfl
  · simp only [h, ne_eq, not_false_eq_true]
    exact remFirst_run fun _ h => h

theorem agentKey_ne_agentList {what : ByteStr} : agentKey agentID what ≠ agentList := by
  intro h
  have : colon ∈ agentList := h ▸ List.mem_append_right _ List.mem_cons_self
  exact absurd this (by decide)

/-- The hash that a snapshot is stored as. -/
def snapshot (processInfo : List Agent.CurrentProcess) : AList fun _ : ByteStr => HashValue :=
  processInfo.foldl (fun h pi => h.insert pi.processName (.text (processIDText pi.processID))) ∅

theorem setProcesses_run {processInfo : List Agent.CurrentProcess} :
    (setProcesses key processInfo).run s = some (true, { s with
      hash := Function.update s.hash key (processInfo.foldl
        (fun h pi => h.insert pi.processName (.text (processIDText pi.processID)))
          (s.hash key)) }) := by
  induction processInfo generalizing s with
  | nil => simp [setProcesses, Client.run]
  | cons pi processInfo ih =>
    have hcons : (setProcesses key (pi :: processInfo)).run s = (setProcesses key processInfo).run
        (exec (.hmset key pi.processName (.text (processIDText pi.processID))) s).2 := rfl
    rw [hcons, ih]
    simp [exec]

/-- The snapshot of the processes replaces what is under its key. -/
theorem saveCurrentProcessList_run_eq {msg : Option Agent.CsCurrentProcessListSend} :
    (saveCurrentProcessList agentID msg).run s = some (true, {
      hash := Function.update s.hash (currentProcessListKey agentID)
        (snapshot (msg.elim [] (·.processInfo)))
      set := Function.update s.set (currentProcessListKey agentID) .empty
      list := Function.update s.list (currentProcessListKey agentID) [] }) := by
  have hdel : (saveCurrentProcessList agentID msg).run s =
      (do
        if ← setProcesses (currentProcessListKey agentID) (msg.elim [] (·.processInfo)) then
          let result ← Prog.command .exec
          pure result.isOk
        else pure false : Client HashValue Bool).run
        (exec (.del (currentProcessListKey agentID)) s).2 := rfl
  rw [hdel, Client.run, Prog.run_bind, ← Client.run, setProcesses_run]
  simp [exec, snapshot, Reply.isOk]

theorem saveCurrentProcessList_run (agentID : Int) (msg : Option Agent.CsCurrentProcessListSend)
    (s : Store HashValue) : ∃ s', (saveCurrentProcessList agentID msg).run s = some (true, s') ∧
      s'.hash agentList = s.hash agentList :=
  have hkey : currentProcessListKey agentID ≠ agentList := agentKey_ne_agentList
  ⟨_, saveCurrentProcessList_run_eq, Function.update_of_ne hkey.symm ..⟩

theorem pushAll_run {vs : List ByteStr} : (pushAll key vs).run s = some (true,
    { s with list := Function.update s.list key (vs.reverse ++ s.list key) }) := by
  induction vs generalizing s with
  | nil => simp [pushAll, Client.run]
  | cons v vs ih =>
    exact (ih (s := (exec (.lpush key v) s).2)).trans (by simp [exec])

theorem pushAll_commands {vs : List ByteStr} :
    Prog.commands exec (pushAll key vs) s = vs.map (.lpush key) := by
  induction vs generalizing s with
  | nil => rfl
  | cons v vs ih => exact congrArg (.lpush key v :: ·) (ih (s := (exec (.lpush key v) s).2))

/-- Logs are kept in lists. -/
theorem pushEach_run (keyOf : α → ByteStr) (values : α → List ByteStr) (info : List α)
    (s : Store HashValue) : ∃ s', (pushEach keyOf values info).run s = some (true, s') ∧
      s'.hash = s.hash ∧ s'.set = s.set := by
  induction info generalizing s with
  | nil => exact ⟨s, rfl, rfl, rfl⟩
  | cons x info ih =>
    obtain ⟨s', hrun, hhash, hset⟩ := ih { s with
      list := Function.update s.list (keyOf x) ((values x).reverse ++ s.list (keyOf x)) }
    refine ⟨s', ?_, hhash, hset⟩
    rw [pushEach, Client.run, Prog.run_bind, ← Client.run, pushAll_run]
    exact hrun

/-- What is pushed under a key comes in front of what was there, the last value first. -/
theorem pushEach_list {keyOf : α → ByteStr} {values : α → List ByteStr} {info : List α} {b : Bool}
    {s' : Store HashValue} (h : (pushEach keyOf values info).run s = some (b, s')) :
    s'.list key = ((info.filter (keyOf · = key)).flatMap values).reverse ++ s.list key := by
  induction info generalizing s with
  | nil =>
    cases h
    rfl
  | cons x info ih =>
    rw [pushEach, Client.run, Prog.run_bind, ← Client.run, pushAll_run] at h
    rw [ih h]
    dsimp only
    by_cases hx : keyOf x = key
    · subst hx
      rw [Function.update_self, List.filter_cons_of_pos (by simp), List.flatMap_cons,
        List.reverse_append, List.append_assoc]
    · rw [Function.update_of_ne (Ne.symm hx), List.filter_cons_of_neg (by simpa using hx)]

/-- Each entry is pushed under its own key. -/
theorem pushEach_commands {keyOf : α → ByteStr} {values : α → List ByteStr} {info : List α} :
    Prog.commands exec (pushEach keyOf values info) s =
    info.flatMap fun x => (values x).map (.lpush (keyOf x)) := by
  induction info generalizing s with
  | nil => rfl
  | cons x info ih =>
    rw [pushEach, Prog.commands_bind, pushAll_commands, ← Client.run, pushAll_run]
    exact congrArg _ ih

end

end RedisManager

end PSM
