import PSM.RedisManager

/-! The server's handlers, each taken as one step.

`AgentSocket` and `WebCommandSocket` handle packets on the logic thread, and the completions of
accepts and disconnects on the threads of the pool. A handler runs its Redis programs with nothing
in between. Packets are taken as parsed messages; one that does not parse is `invalid`. -/

namespace PSM
open ByteStr Redis RedisManager Relation

/-! ## Messages -/

/-- `ProcessCommandType`, in both protocols. -/
inductive ProcessCommandType where
  | start
  | restart
  | stop
  | addList
  | deleteList
  | allStop
  deriving DecidableEq

/-- `CounterCommandType`, in both protocols. -/
inductive CounterCommandType where
  | cAddList
  | cDeleteList
  deriving DecidableEq

/-- From an agent to the server. A snapshot is handled even when it does not parse. -/
inductive AgentMessage where
  | agentIDRequest (token hostIP : Int) (ramSize : BitVec 64)
  | processListRequest
  | counterListRequest (isMachine : Bool)
  | currentProcessListSend (msg : Option Agent.CsCurrentProcessListSend)
  | recordResponse
  | agentReady
  | processInfoSend (info : List Agent.ProcessInfos)
  | machineInfoSend (info : List Agent.MachineInfos)
  | healthAck
  | invalid

/-- From the server to an agent. -/
inductive ServerMessage where
  | agentIDResponse (agentID : Int) (alreadyRunning : Bool)
  | processListResponse (processName : List ByteStr)
  | counterListResponse (isMachine : Bool) (counterName : List ByteStr)
  | startRecord (isMachine : Bool) (totalRecordTime responseTime interval delay : Int)
  | processCommandRequest (type : ProcessCommandType) (processName : ByteStr)
  | counterCommandRequest (isMachine : Bool) (type : CounterCommandType) (counterName : ByteStr)
  deriving DecidableEq

/-- The messages that pass on a command of the web. -/
def ServerMessage.IsCommand : ServerMessage → Prop
  | processCommandRequest .. => True
  | counterCommandRequest .. => True
  | _ => False

/-- From the web to the server. -/
inductive WebMessage where
  | healthAck
  | processCommandRequest (token : Int) (type : ProcessCommandType) (processName : ByteStr)
  | counterCommandRequest (token : Int) (isMachine : Bool) (type : CounterCommandType)
      (counterName : List ByteStr)
  | invalid

/-- The token that a command is addressed to. -/
def WebMessage.token? : WebMessage → Option Int
  | .processCommandRequest token .. => some token
  | .counterCommandRequest token .. => some token
  | _ => none

/-- From the server to the web. -/
inductive WebResponse where
  | processCommandResponse (token : Int) (type : ProcessCommandType) (success : Bool)
  | counterCommandResponse (token : Int) (type : CounterCommandType) (success : Bool)

def WebResponse.success : WebResponse → Bool
  | processCommandResponse _ _ success => success
  | counterCommandResponse _ _ success => success

/-! ## The state -/

/-- The fields of an `AgentSocket`, as they are after construction and after `AcceptProcess`. -/
structure AgentSocket where
  agentID : Int := -1
  hostIP : Int := -1
  token : Int := -1
  healthCheck : Bool := true
  isReady : Bool := false

/-- What the handlers use from outside. -/
structure Externals where
  json : JsonCpp
  ops : DoubleOps
  localTime : Int → ByteStr

/-- Enough of the outside for the counters given by their texts, the number 0 and the time 0. -/
def Externals.ofTexts (texts : List (ByteStr × CounterJson)) : Externals where
  json := .ofTexts texts
  ops := ⟨fun _ => ascii "0.000000", id⟩
  localTime _ := ascii "1970-01-01 00:00:00"

/-- `agentServer` and `webCommandServer` with the store behind them. Each server has a
`RedisManager` of its own, so there are two maps of counter names. `outbox` holds, for each socket,
what has been sent on it and not been read yet. -/
structure Server (ι : Type) where
  store : Store HashValue
  counterNameMap : CounterNameMap
  webCounterNameMap : CounterNameMap
  agentList : List ι
  socket : ι → AgentSocket
  outbox : ι → List ServerMessage

variable {ι : Type} [DecidableEq ι]

namespace Server

/-- Both servers started, with no connection yet. -/
def init (store : Store HashValue) : Server ι where
  store := store
  counterNameMap := .init
  webCounterNameMap := .init
  agentList := []
  socket _ := {}
  outbox _ := []

def setSocket (s : Server ι) (i : ι) (sock : AgentSocket) : Server ι :=
  { s with socket := Function.update s.socket i sock }

def send (s : Server ι) (i : ι) (msg : ServerMessage) : Server ι :=
  { s with outbox := Function.update s.outbox i (s.outbox i ++ [msg]) }

/-- Nothing is sent when there is no socket. -/
def sendTo (s : Server ι) (socket : Option ι) (msg : ServerMessage) : Server ι :=
  match socket with
  | some i => s.send i msg
  | none => s

def redis (s : Server ι) (p : Client HashValue α) : Option (α × Server ι) :=
  (p.run s.store).map fun (a, store) => (a, { s with store })

def addAgent (s : Server ι) (i : ι) : Server ι := { s with agentList := s.agentList ++ [i] }

def deleteAgent (s : Server ι) (i : ι) : Server ι :=
  { s with agentList := s.agentList.filter (· ≠ i) }

def getAgentSocketByToken (s : Server ι) (token : Int) : Option ι :=
  s.agentList.find? fun i => (s.socket i).token = token

/-- `AgentSocket::SendProcessListResponse`. -/
def sendProcessListResponse (s : Server ι) (i : ι) : Option (Server ι) := do
  let (processList, s) ← s.redis (getProcessList (s.socket i).agentID)
  match processList with
  | some processList => some (s.send i (.processListResponse processList))
  | none => some s

/-- `AgentSocket::SendCounterListResponse`. -/
def sendCounterListResponse (json : JsonCpp) (s : Server ι) (i : ι) (isMachine : Bool) :
    Option (Server ι) := do
  let ((counterList, m), s) ←
    s.redis (getCounterList json s.counterNameMap (s.socket i).agentID isMachine)
  let s := { s with counterNameMap := m }
  match counterList with
  | some counterList => some (s.send i (.counterListResponse isMachine counterList))
  | none => some s

end Server

/-! ## AgentSocket -/

namespace AgentSocket

def acceptProcess (isError : Bool) (i : ι) (s : Server ι) : Server ι :=
  if isError then s
  else
    let s := (s.addAgent i).setSocket i {}
    { s with outbox := Function.update s.outbox i [] }

def disconnProcess (isError : Bool) (i : ι) (s : Server ι) : Option (Server ι) :=
  if isError then some s
  else do
    let (_, s) ← s.redis (changeAgentState_isOn (s.socket i).token false)
    let (_, s) ← s.redis (changeAgentState_stopRecording (s.socket i).token)
    some (s.deleteAgent i)

/-- `now` is the time at which the packet is handled. -/
def packetHandling (ext : Externals) (now : Int) (i : ι) (s : Server ι) :
    AgentMessage → Option (Server ι)
  | .agentIDRequest token hostIP ramSize =>
    match s.getAgentSocketByToken token with
    | some _ => some (s.send i (.agentIDResponse (-1) true))
    | none => do
      let s := s.setSocket i { s.socket i with token, hostIP }
      let (_, s) ← s.redis (initAgent token hostIP ramSize)
      let (agentID, s) ← s.redis (getAgentID token)
      let s := s.setSocket i { s.socket i with agentID }
      some (s.send i (.agentIDResponse agentID false))
  | .processListRequest => s.sendProcessListResponse i
  | .counterListRequest isMachine => s.sendCounterListResponse ext.json i isMachine
  | .currentProcessListSend msg => do
    let (_, s) ← s.redis (saveCurrentProcessList (s.socket i).agentID msg)
    some s
  | .recordResponse => some s
  | .agentReady => do
    let (_, s) ← s.redis
      (changeAgentState_startRecording ext.localTime now (s.socket i).token (-1) 10 0)
    let s := s.send i (.startRecord true (-1) 10 1 0)
    some (s.send i (.startRecord false (-1) 10 1 0))
  | .processInfoSend info => do
    let (_, s) ← s.redis (saveProcessInfo ext.ops s.counterNameMap (s.socket i).agentID info)
    some s
  | .machineInfoSend info => do
    let (_, s) ← s.redis (saveMachineInfo ext.ops s.counterNameMap (s.socket i).agentID info)
    some s
  | .healthAck => some (s.setSocket i { s.socket i with healthCheck := true })
  | .invalid => some s

end AgentSocket

/-! ## WebCommandSocket -/

namespace WebCommandSocket

/-- The result, and the server afterwards. The types other than `ADDLIST` and `DELETELIST` have no
handler. -/
def processCommand (token : Int) (type : ProcessCommandType) (name : ByteStr) (s : Server ι) :
    Option (Bool × Server ι) := do
  let (agentID, s) ← s.redis (getAgentID token)
  match type with
  | .addList =>
    let (added, s) ← s.redis (setProcessName agentID name)
    some (added, if added then
      s.sendTo (s.getAgentSocketByToken token) (.processCommandRequest .addList name) else s)
  | .deleteList =>
    let (removed, s) ← s.redis (remProcessName agentID name)
    some (removed, if removed then
      s.sendTo (s.getAgentSocketByToken token) (.processCommandRequest .deleteList name) else s)
  | _ => some (false, s)

/-- One round of the loop over the names of a counter command. -/
def counterCommand (json : JsonCpp) (agentID : Int) (socket : Option ι) (isMachine : Bool)
    (type : CounterCommandType) (name : ByteStr) (s : Server ι) : Option (Bool × Server ι) :=
  match type with
  | .cAddList => do
    let ((result, m), s) ←
      s.redis (setCounterName json s.webCounterNameMap agentID name isMachine)
    let s := { s with webCounterNameMap := m }
    match result with
    | some counter =>
      some (true, s.sendTo socket (.counterCommandRequest isMachine .cAddList counter))
    | none => some (false, s)
  | .cDeleteList => do
    let (result, s) ← s.redis (remCounterName json agentID name isMachine)
    match result with
    | some counter =>
      some (true, s.sendTo socket (.counterCommandRequest isMachine .cDeleteList counter))
    | none => some (false, s)

def counterCommands (json : JsonCpp) (agentID : Int) (socket : Option ι) (isMachine : Bool)
    (type : CounterCommandType) : List ByteStr → Server ι → Option (Bool × Server ι)
  | [], s => some (false, s)
  | name :: names, s => do
    let (done, s) ← counterCommand json agentID socket isMachine type name s
    let (resultv, s) ← counterCommands json agentID socket isMachine type names s
    some (done || resultv, s)

/-- The response to the web, if there is one, and the server afterwards. -/
def packetHandling (json : JsonCpp) (s : Server ι) :
    WebMessage → Option (Option WebResponse × Server ι)
  | .healthAck => some (none, s)
  | .processCommandRequest token type name => do
    let (result, s) ← processCommand token type name s
    some (some (.processCommandResponse token type result), s)
  | .counterCommandRequest token isMachine type names => do
    let (agentID, s) ← s.redis (getAgentID token)
    let (resultv, s) ←
      counterCommands json agentID (s.getAgentSocketByToken token) isMachine type names s
    some (some (.counterCommandResponse token type resultv), s)
  | .invalid => some (none, s)

end WebCommandSocket

/-! ## The handlers as a machine -/

/-- One handler runs, or a set of the store comes to be listed in another order. A socket that is
listed is not waiting for a connection. -/
inductive ServerEvent (ι : Type) where
  | accept (isError : Bool) (i : ι)
  | disconnect (isError : Bool) (i : ι)
  | agent (i : ι) (now : Int) (msg : AgentMessage)
  | web (msg : WebMessage)
  | reorder (key : ByteStr) (members : MemberSet)

namespace Server

def step (ext : Externals) (s : Server ι) : ServerEvent ι → Option (Server ι)
  | .accept isError i =>
    if i ∈ s.agentList then none else some (AgentSocket.acceptProcess isError i s)
  | .disconnect isError i => AgentSocket.disconnProcess isError i s
  | .agent i now msg => AgentSocket.packetHandling ext now i s msg
  | .web msg => (WebCommandSocket.packetHandling ext.json s msg).map (·.2)
  | .reorder key members =>
    if (s.store.set key).members.Perm members.members then
      some { s with store := s.store.modifySet key fun _ => members }
    else none

def machine (ext : Externals) : EventMachine (Server ι) (ServerEvent ι) := ⟨step ext⟩

section
variable {s s' : Server ι} {i j : ι} {p : Client HashValue α} {a : α} {store : Store HashValue}
  {msg : ServerMessage} {token : Int} {sock : AgentSocket}

omit [DecidableEq ι] in
theorem redis_eq (h : p.run s.store = some (a, store)) :
    s.redis p = some (a, { s with store }) := by
  rw [redis, h]
  rfl

omit [DecidableEq ι] in
theorem redis_eq_some_iff {s' : Server ι} : s.redis p = some (a, s') ↔
    ∃ store, p.run s.store = some (a, store) ∧ s' = { s with store } := by
  simp only [redis, Option.map_eq_some_iff, Prod.exists, Prod.mk.injEq]
  constructor
  · rintro ⟨_, store, h, rfl, rfl⟩
    exact ⟨store, h, rfl⟩
  · rintro ⟨store, h, rfl⟩
    exact ⟨a, store, h, rfl, rfl⟩

/-- What the commands of the web can do, when they concern the given socket: sets of the store
change, and the socket is sent commands. -/
structure WebEffect (target : Option ι) (s s' : Server ι) : Prop where
  agentList : s'.agentList = s.agentList
  socket : s'.socket = s.socket
  counterNameMap : s'.counterNameMap = s.counterNameMap
  hash : s'.store.hash = s.store.hash
  outbox : ∀ i, ∃ msgs, s'.outbox i = s.outbox i ++ msgs ∧ (∀ msg ∈ msgs, msg.IsCommand) ∧
    (target ≠ some i → msgs = [])

@[simp] theorem sendTo_store {socket : Option ι} : (s.sendTo socket msg).store = s.store := by
  cases socket <;> rfl

@[simp] theorem sendTo_agentList {socket : Option ι} :
    (s.sendTo socket msg).agentList = s.agentList := by
  cases socket <;> rfl

@[simp] theorem sendTo_socket {socket : Option ι} : (s.sendTo socket msg).socket = s.socket := by
  cases socket <;> rfl

/-- The server after an accepted `AgentIDRequest`, for which `InitAgent` wrote the record `jv`. -/
def registered (s : Server ι) (i : ι) (token hostIP : Int) (jv : AgentRecord) : Server ι :=
  (({ s with store := setRecord s.store token jv }).setSocket i
    { s.socket i with token, hostIP, agentID := jv.agentNumber }).send i
    (.agentIDResponse jv.agentNumber false)

theorem registered_token {hostIP : Int} {jv : AgentRecord} :
    ((s.registered i token hostIP jv).socket i).token = token := by
  simp [registered, setSocket, send]

theorem registered_socket_of_ne {hostIP : Int} {jv : AgentRecord} (h : j ≠ i) :
    (s.registered i token hostIP jv).socket j = s.socket j := by
  simp [registered, setSocket, send, h]

/-- A listed socket that is registered is the only one with its token. -/
theorem registered_lookup {hostIP : Int} {jv : AgentRecord} (hi : i ∈ s.agentList)
    (hnone : s.getAgentSocketByToken token = none) :
    (s.registered i token hostIP jv).getAgentSocketByToken token = some i := by
  cases hfind : (s.registered i token hostIP jv).getAgentSocketByToken token with
  | none =>
    exact absurd registered_token (by simpa using List.find?_eq_none.mp hfind i hi)
  | some j =>
    by_contra hj
    have hji : j ≠ i := fun e => hj (by rw [e])
    have htoken := List.find?_some hfind
    rw [registered_socket_of_ne hji] at htoken
    exact List.find?_eq_none.mp hnone j (List.mem_of_find?_eq_some hfind) htoken

omit [DecidableEq ι] in
theorem redis_getAgentID :
    s.redis (getAgentID token) = (agentIDAt s.store token).map fun agentID => (agentID, s) := by
  rw [redis, getAgentID_run, Option.map_map]
  rfl

/-- An `AgentIDRequest` that finds no other socket of its token: the agent is registered, unless the
record does not read, and `GetAgentID` ends the program. -/
theorem agentIDRequest_eq_accepted {ext : Externals} {now hostIP : Int} {ramSize : BitVec 64}
    (h : s.getAgentSocketByToken token = none) :
    AgentSocket.packetHandling ext now i s (.agentIDRequest token hostIP ramSize) =
      (initValue s.store token hostIP ramSize).record?.map fun jv => s.registered i token hostIP jv := by
  let sock := { s.socket i with token, hostIP }
  obtain ⟨v, hv⟩ : ∃ v, initValue s.store token hostIP ramSize = v := ⟨_, rfl⟩
  let written : Server ι := { s.setSocket i sock with store := setValue s.store token v }
  have hinit : (s.setSocket i sock).redis (initAgent token hostIP ramSize) = some (true, written) :=
    redis_eq (hv ▸ initAgent_run)
  have hget : written.redis (getAgentID token) =
      v.record?.map fun jv => (jv.agentNumber, written) := by
    rw [redis_getAgentID, agentIDAt_setValue, Option.map_map]
    rfl
  simp only [AgentSocket.packetHandling, h]
  rw [hinit, Option.bind_eq_bind, Option.bind_some, hget, hv]
  cases hjv : v.record? with
  | none => rfl
  | some jv =>
    cases record?_eq_some_iff.mp hjv
    simp [registered, setSocket, send, sock, written]

theorem agentIDRequest_eq_some {ext : Externals} {now hostIP : Int} {ramSize : BitVec 64}
    {s' : Server ι} (h : s.getAgentSocketByToken token = none)
    (hstep : AgentSocket.packetHandling ext now i s (.agentIDRequest token hostIP ramSize) =
      some s') :
    ∃ jv, initValue s.store token hostIP ramSize = .json jv ∧ s' = s.registered i token hostIP jv := by
  rw [agentIDRequest_eq_accepted h] at hstep
  obtain ⟨jv, hjv, rfl⟩ := Option.map_eq_some_iff.mp hstep
  exact ⟨jv, record?_eq_some_iff.mp hjv, rfl⟩

theorem agentIDRequest_eq_refused {ext : Externals} {now hostIP : Int} {ramSize : BitVec 64}
    (h : s.getAgentSocketByToken token = some j) :
    AgentSocket.packetHandling ext now i s (.agentIDRequest token hostIP ramSize) =
      some (s.send i (.agentIDResponse (-1) true)) := by
  simp only [AgentSocket.packetHandling, h]

/-- One set of the store replaced. -/
def modifySet (s : Server ι) (key : ByteStr) (f : MemberSet → MemberSet) : Server ι :=
  { s with store := s.store.modifySet key f }

theorem sendProcessListResponse_eq : s.sendProcessListResponse i = some (
    let key := processListKey (s.socket i).agentID
    if (s.store.set key).members ≠ [] then
      s.send i (.processListResponse (s.store.set key).members)
    else (s.modifySet key (defaultProcessList.foldl MemberSet.add ·)).send i
      (.processListResponse defaultProcessList)) := by
  rw [sendProcessListResponse, redis, getProcessList_run]
  by_cases h : (s.store.set (processListKey (s.socket i).agentID)).members = []
  · simp only [h, ne_eq, not_true_eq_false, if_false]
    rfl
  · simp only [h, ne_eq, not_false_eq_true, if_true]
    rfl

theorem sendCounterListResponse_eq {json : JsonCpp} {isMachine : Bool} :
    s.sendCounterListResponse json i isMachine =
      let key := counterListKey (s.socket i).agentID isMachine
      if (s.store.set key).members ≠ [] then
        ((s.store.set key).members.mapM json.counter?).map fun jvs =>
          { s with counterNameMap := s.counterNameMap.insertAll jvs }.send i
            (.counterListResponse isMachine (jvs.map CounterJson.counter))
      else some ((s.modifySet key ((json.defaultCounterList isMachine).foldl MemberSet.add ·)).send i
        (.counterListResponse isMachine ((defaultsOf isMachine).map (·.counter)))) := by
  rw [sendCounterListResponse, redis, getCounterList_run]
  by_cases h : (s.store.set (counterListKey (s.socket i).agentID isMachine)).members = []
  · simp only [h, ne_eq, not_true_eq_false, if_false]
    rfl
  · simp only [h, ne_eq, not_false_eq_true, if_true]
    cases (s.store.set (counterListKey (s.socket i).agentID isMachine)).members.mapM json.counter?
      <;> rfl

/-- What is sent depends on whether the set changes. -/
theorem processCommand_addList_eq {name : ByteStr} :
    WebCommandSocket.processCommand token .addList name s =
      (agentIDAt s.store token).map fun agentID =>
        let key := processListKey agentID
        let s' := s.modifySet key (·.add name)
        (decide (name ∉ s.store.set key), if name ∉ s.store.set key then
          s'.sendTo (s.getAgentSocketByToken token) (.processCommandRequest .addList name)
        else s') := by
  rw [WebCommandSocket.processCommand, redis_getAgentID]
  cases agentIDAt s.store token with
  | none => rfl
  | some agentID =>
    simp only [Option.map_some, Option.bind_eq_bind, Option.bind_some, redis_eq setProcessName_run]
    by_cases h : name ∈ s.store.set (processListKey agentID) <;>
      simp [h, modifySet, getAgentSocketByToken]

theorem processCommand_deleteList_eq {name : ByteStr} :
    WebCommandSocket.processCommand token .deleteList name s =
      (agentIDAt s.store token).map fun agentID =>
        let key := processListKey agentID
        let s' := s.modifySet key (·.remove name)
        (decide (name ∈ s.store.set key), if name ∈ s.store.set key then
          s'.sendTo (s.getAgentSocketByToken token) (.processCommandRequest .deleteList name)
        else s') := by
  rw [WebCommandSocket.processCommand, redis_getAgentID]
  cases agentIDAt s.store token with
  | none => rfl
  | some agentID =>
    simp only [Option.map_some, Option.bind_eq_bind, Option.bind_some, redis_eq remProcessName_run]
    by_cases h : name ∈ s.store.set (processListKey agentID) <;>
      simp [h, modifySet, getAgentSocketByToken]

/-- The other commands look up the agent's number and fail. -/
theorem eq_of_processCommand {type : ProcessCommandType} {name : ByteStr} {b : Bool}
    (h : WebCommandSocket.processCommand token type name s = some (b, s')) (hadd : type ≠ .addList)
    (hdelete : type ≠ .deleteList) :
    ∃ agentID, agentIDAt s.store token = some agentID ∧ b = false ∧ s' = s := by
  rw [WebCommandSocket.processCommand, redis_getAgentID] at h
  obtain ⟨_, hget, heq⟩ := Option.bind_eq_some_iff.mp h
  obtain ⟨agentID, hID, rfl⟩ := Option.map_eq_some_iff.mp hget
  cases type with
  | addList => exact absurd rfl hadd
  | deleteList => exact absurd rfl hdelete
  | _ =>
    cases heq
    exact ⟨agentID, hID, rfl, rfl⟩

/-- The server with another map of names for the commands of the web. -/
def setWebMap (s : Server ι) (m : CounterNameMap) : Server ι := { s with webCounterNameMap := m }

theorem counterCommand_cAddList_eq {json : JsonCpp} {agentID : Int} {socket : Option ι}
    {isMachine : Bool} {name : ByteStr} :
    WebCommandSocket.counterCommand json agentID socket isMachine .cAddList name s =
      match json.strToJson name with
      | .null => some (false, s)
      | .other => none
      | .object jv =>
        let key := counterListKey agentID isMachine
        let m := s.webCounterNameMap.insert jv.counter jv.name
        some (if name ∈ s.store.set key then (false, s.setWebMap m) else
          (true, ((s.modifySet key (·.add name)).sendTo socket
            (.counterCommandRequest isMachine .cAddList jv.counter)).setWebMap m)) := by
  rw [WebCommandSocket.counterCommand, redis, setCounterName_run]
  cases json.strToJson name with
  | null => rfl
  | other => rfl
  | object jv =>
    by_cases h : name ∈ s.store.set (counterListKey agentID isMachine)
    · have hstore := Store.modifySet_eq_self (f := (·.add name)) (MemberSet.add_of_mem h)
      simp only [h, if_true, hstore]
      rfl
    · simp only [h, if_false]
      cases socket <;> rfl

theorem counterCommand_cDeleteList_eq {json : JsonCpp} {agentID : Int} {socket : Option ι}
    {isMachine : Bool} {name : ByteStr} :
    WebCommandSocket.counterCommand json agentID socket isMachine .cDeleteList name s =
      let key := counterListKey agentID isMachine
      (json.firstNamed name (s.store.set key).members).map fun
        | some (value, jv) => (true, (s.modifySet key (·.remove value)).sendTo socket
            (.counterCommandRequest isMachine .cDeleteList jv.counter))
        | none => (false, s) := by
  rw [WebCommandSocket.counterCommand, redis, remCounterName_run]
  rcases h : json.firstNamed name (s.store.set (counterListKey agentID isMachine)).members with
    _ | _ | ⟨value, jv⟩ <;> (simp only [h]; rfl)

/-! ### Web commands -/

theorem counterCommandRequest_cases {json : JsonCpp} {isMachine : Bool} {type : CounterCommandType}
    {names : List ByteStr} {response : Option WebResponse}
    (h : WebCommandSocket.packetHandling json s
      (.counterCommandRequest token isMachine type names) = some (response, s')) :
    ∃ agentID b, agentIDAt s.store token = some agentID ∧
      response = some (.counterCommandResponse token type b) ∧
      WebCommandSocket.counterCommands json agentID (s.getAgentSocketByToken token) isMachine type
        names s = some (b, s') := by
  rw [WebCommandSocket.packetHandling, redis_getAgentID] at h
  obtain ⟨⟨agentID, t⟩, hget, h⟩ := Option.bind_eq_some_iff.mp h
  obtain ⟨_, hID, heq'⟩ := Option.map_eq_some_iff.mp hget
  cases heq'
  obtain ⟨⟨b, t'⟩, hcommands, heq⟩ := Option.bind_eq_some_iff.mp h
  cases heq
  exact ⟨agentID, b, hID, rfl, hcommands⟩

section
variable {socket : Option ι}

omit [DecidableEq ι] in
theorem webEffect_of_outbox_eq (hlist : s'.agentList = s.agentList) (hsocket : s'.socket = s.socket)
    (hmap : s'.counterNameMap = s.counterNameMap) (hhash : s'.store.hash = s.store.hash)
    (houtbox : s'.outbox = s.outbox) : WebEffect socket s s' :=
  ⟨hlist, hsocket, hmap, hhash, fun i => ⟨[], by rw [houtbox, List.append_nil], nofun, fun _ => rfl⟩⟩

omit [DecidableEq ι] in
theorem WebEffect.refl (s : Server ι) : WebEffect socket s s :=
  webEffect_of_outbox_eq rfl rfl rfl rfl rfl

omit [DecidableEq ι] in
theorem WebEffect.trans {s'' : Server ι} (h : WebEffect socket s s')
    (h' : WebEffect socket s' s'') : WebEffect socket s s'' where
  agentList := h'.agentList.trans h.agentList
  socket := h'.socket.trans h.socket
  counterNameMap := h'.counterNameMap.trans h.counterNameMap
  hash := h'.hash.trans h.hash
  outbox i := by
    obtain ⟨msgs, hout, hcmd, hnil⟩ := h.outbox i
    obtain ⟨msgs', hout', hcmd', hnil'⟩ := h'.outbox i
    refine ⟨msgs ++ msgs', by rw [hout', hout, List.append_assoc], fun msg hmsg => ?_,
      fun hne => by rw [hnil hne, hnil' hne, List.append_nil]⟩
    exact (List.mem_append.mp hmsg).elim (hcmd msg) (hcmd' msg)

omit [DecidableEq ι] in
theorem webEffect_modifySet {key : ByteStr} {f : MemberSet → MemberSet} :
    WebEffect socket s (s.modifySet key f) := webEffect_of_outbox_eq rfl rfl rfl rfl rfl

omit [DecidableEq ι] in
theorem webEffect_setWebMap {m : CounterNameMap} : WebEffect socket s (s.setWebMap m) :=
  webEffect_of_outbox_eq rfl rfl rfl rfl rfl

theorem outbox_sendTo : (s.sendTo socket msg).outbox i =
    s.outbox i ++ if socket = some i then [msg] else [] := by
  cases socket with
  | none => simp [sendTo]
  | some j =>
    by_cases h : j = i
    · simp [sendTo, send, h]
    · have h' : ¬i = j := fun e => h e.symm
      simp [sendTo, send, h, h']

theorem webEffect_sendTo (hmsg : msg.IsCommand) : WebEffect socket s (s.sendTo socket msg) where
  agentList := sendTo_agentList
  socket := sendTo_socket
  counterNameMap := by cases socket <;> rfl
  hash := by rw [sendTo_store]
  outbox i := by
    refine ⟨_, outbox_sendTo, ?_, fun hne => if_neg hne⟩
    intro msg' hmsg'
    split at hmsg'
    · rwa [List.mem_singleton.mp hmsg']
    · cases hmsg'

/-- What a command of the web, for the agent with this number, does at a time. -/
inductive WebChange (agentID : Int) (target : Option ι) (s : Server ι) : Server ι → Prop where
  | set (what : ByteStr) (f : MemberSet → MemberSet) :
    WebChange agentID target s (s.modifySet (agentKey agentID what) f)
  | tell {msg : ServerMessage} (hmsg : msg.IsCommand) :
    WebChange agentID target s (s.sendTo target msg)
  | webMap (m : CounterNameMap) : WebChange agentID target s (s.setWebMap m)

theorem webChanges_processCommand {type : ProcessCommandType} {name : ByteStr} {b : Bool}
    (h : WebCommandSocket.processCommand token type name s = some (b, s')) :
    ∃ agentID, agentIDAt s.store token = some agentID ∧
      ReflTransGen (WebChange agentID (s.getAgentSocketByToken token)) s s' := by
  cases type with
  | addList =>
    rw [processCommand_addList_eq] at h
    obtain ⟨agentID, hID, heq⟩ := Option.map_eq_some_iff.mp h
    cases heq
    refine ⟨agentID, hID, ?_⟩
    split
    · exact (ReflTransGen.single (.set _ _)).tail (.tell trivial)
    · exact .single (.set _ _)
  | deleteList =>
    rw [processCommand_deleteList_eq] at h
    obtain ⟨agentID, hID, heq⟩ := Option.map_eq_some_iff.mp h
    cases heq
    refine ⟨agentID, hID, ?_⟩
    split
    · exact (ReflTransGen.single (.set _ _)).tail (.tell trivial)
    · exact .single (.set _ _)
  | _ =>
    obtain ⟨agentID, hID, -, rfl⟩ := eq_of_processCommand h (by decide) (by decide)
    exact ⟨agentID, hID, .refl⟩

theorem webChanges_counterCommand {json : JsonCpp} {agentID : Int} {isMachine : Bool}
    {type : CounterCommandType} {name : ByteStr} {b : Bool}
    (h : WebCommandSocket.counterCommand json agentID socket isMachine type name s =
      some (b, s')) : ReflTransGen (WebChange agentID socket) s s' := by
  cases type with
  | cAddList =>
    rw [counterCommand_cAddList_eq] at h
    dsimp only at h
    split at h
    · cases h
      exact .refl
    · cases h
    · split at h <;> cases h
      · exact .single (.webMap _)
      · exact ((ReflTransGen.single (.set _ _)).tail (.tell trivial)).tail (.webMap _)
  | cDeleteList =>
    rw [counterCommand_cDeleteList_eq] at h
    obtain ⟨removed, -, heq⟩ := Option.map_eq_some_iff.mp h
    rcases removed with _ | ⟨value, jv⟩ <;> cases heq
    · exact .refl
    · exact (ReflTransGen.single (.set _ _)).tail (.tell trivial)

theorem webChanges_counterCommands {json : JsonCpp} {agentID : Int} {isMachine : Bool}
    {type : CounterCommandType} {names : List ByteStr} {b : Bool}
    (h : WebCommandSocket.counterCommands json agentID socket isMachine type names s =
      some (b, s')) : ReflTransGen (WebChange agentID socket) s s' := by
  induction names generalizing s b with
  | nil => cases h; exact .refl
  | cons name names ih =>
    obtain ⟨⟨done, t⟩, hone, h⟩ := Option.bind_eq_some_iff.mp h
    obtain ⟨⟨resultv, t'⟩, hrest, heq⟩ := Option.bind_eq_some_iff.mp h
    cases heq
    exact (webChanges_counterCommand hone).trans (ih hrest)

theorem webChanges {json : JsonCpp} {msg : WebMessage} {response : Option WebResponse}
    (h : WebCommandSocket.packetHandling json s msg = some (response, s')) :
    s' = s ∨ ∃ token agentID, msg.token? = some token ∧ agentIDAt s.store token = some agentID ∧
      ReflTransGen (WebChange agentID (s.getAgentSocketByToken token)) s s' := by
  cases msg with
  | healthAck => cases h; exact .inl rfl
  | processCommandRequest token type name =>
    obtain ⟨⟨result, t⟩, hcommand, heq⟩ := Option.bind_eq_some_iff.mp h
    cases heq
    obtain ⟨agentID, hID, hchanges⟩ := webChanges_processCommand hcommand
    exact .inr ⟨token, agentID, rfl, hID, hchanges⟩
  | counterCommandRequest token isMachine type names =>
    obtain ⟨agentID, b, hID, -, hcommands⟩ := counterCommandRequest_cases h
    exact .inr ⟨token, agentID, rfl, hID, webChanges_counterCommands hcommands⟩
  | invalid => cases h; exact .inl rfl

theorem webEffect_web {json : JsonCpp} {msg : WebMessage} {response : Option WebResponse}
    (h : WebCommandSocket.packetHandling json s msg = some (response, s')) :
    WebEffect (msg.token?.bind s.getAgentSocketByToken) s s' := by
  rcases webChanges h with rfl | ⟨token, agentID, htoken, -, hchanges⟩
  · exact .refl _
  rw [htoken, Option.bind_some]
  clear h
  induction hchanges with
  | refl => exact .refl _
  | tail _ hchange ih =>
    cases hchange with
    | set => exact ih.trans webEffect_modifySet
    | tell hmsg => exact ih.trans (webEffect_sendTo hmsg)
    | webMap => exact ih.trans webEffect_setWebMap

end

end

/-! ## What a step does -/

/-- What the handling of a packet needs, and what it makes of the server. -/
inductive PacketChange (ext : Externals) (now : Int) (i : ι) (s : Server ι) :
    AgentMessage → Server ι → Prop where
  | register {token hostIP : Int} {ramSize : BitVec 64} {jv : AgentRecord}
    (hfind : s.getAgentSocketByToken token = none)
    (hjv : initValue s.store token hostIP ramSize = .json jv) :
    PacketChange ext now i s (.agentIDRequest token hostIP ramSize)
      (s.registered i token hostIP jv)
  | refuse {token hostIP : Int} {ramSize : BitVec 64} {j : ι}
    (hfind : s.getAgentSocketByToken token = some j) :
    PacketChange ext now i s (.agentIDRequest token hostIP ramSize)
      (s.send i (.agentIDResponse (-1) true))
  | processList (hne : (s.store.set (processListKey (s.socket i).agentID)).members ≠ []) :
    PacketChange ext now i s .processListRequest (s.send i
      (.processListResponse (s.store.set (processListKey (s.socket i).agentID)).members))
  | defaultProcesses (hempty : (s.store.set (processListKey (s.socket i).agentID)).members = []) :
    PacketChange ext now i s .processListRequest
      ((s.modifySet (processListKey (s.socket i).agentID)
        (defaultProcessList.foldl MemberSet.add ·)).send i
          (.processListResponse defaultProcessList))
  | counterList {isMachine : Bool} {jvs : List CounterJson}
    (hne : (s.store.set (counterListKey (s.socket i).agentID isMachine)).members ≠ [])
    (hread : (s.store.set (counterListKey (s.socket i).agentID isMachine)).members.mapM
      ext.json.counter? = some jvs) :
    PacketChange ext now i s (.counterListRequest isMachine)
      ({ s with counterNameMap := s.counterNameMap.insertAll jvs }.send i
        (.counterListResponse isMachine (jvs.map CounterJson.counter)))
  | defaultCounters {isMachine : Bool}
    (hempty : (s.store.set (counterListKey (s.socket i).agentID isMachine)).members = []) :
    PacketChange ext now i s (.counterListRequest isMachine)
      ((s.modifySet (counterListKey (s.socket i).agentID isMachine)
        ((ext.json.defaultCounterList isMachine).foldl MemberSet.add ·)).send i
          (.counterListResponse isMachine ((defaultsOf isMachine).map (·.counter))))
  | snapshot {msg : Option Agent.CsCurrentProcessListSend} {b : Bool} {store : Store HashValue}
    (hrun : (saveCurrentProcessList (s.socket i).agentID msg).run s.store = some (b, store)) :
    PacketChange ext now i s (.currentProcessListSend msg) { s with store }
  | ready {b : Bool} {store : Store HashValue}
    (hrun : (changeAgentState_startRecording ext.localTime now (s.socket i).token (-1) 10 0).run
      s.store = some (b, store)) :
    PacketChange ext now i s .agentReady
      (({ s with store }.send i (.startRecord true (-1) 10 1 0)).send i
        (.startRecord false (-1) 10 1 0))
  | processInfo {info : List Agent.ProcessInfos} {b : Bool} {store : Store HashValue}
    (hrun : (saveProcessInfo ext.ops s.counterNameMap (s.socket i).agentID info).run s.store =
      some (b, store)) :
    PacketChange ext now i s (.processInfoSend info) { s with store }
  | machineInfo {info : List Agent.MachineInfos} {b : Bool} {store : Store HashValue}
    (hrun : (saveMachineInfo ext.ops s.counterNameMap (s.socket i).agentID info).run s.store =
      some (b, store)) :
    PacketChange ext now i s (.machineInfoSend info) { s with store }
  | healthAck : PacketChange ext now i s .healthAck
      (s.setSocket i { s.socket i with healthCheck := true })
  | recordResponse : PacketChange ext now i s .recordResponse s
  | invalid : PacketChange ext now i s .invalid s

/-- What a step needs, and what it makes of the server. -/
inductive Change (ext : Externals) (s : Server ι) : ServerEvent ι → Server ι → Prop where
  | acceptError {i : ι} : Change ext s (.accept true i) s
  | accept {i : ι} (hnew : i ∉ s.agentList) :
    Change ext s (.accept false i) (AgentSocket.acceptProcess false i s)
  | disconnectError {i : ι} : Change ext s (.disconnect true i) s
  | disconnect {i : ι} {b b' : Bool} {store store' : Store HashValue}
    (hrun : (changeAgentState_isOn (s.socket i).token false).run s.store = some (b, store))
    (hrun' : (changeAgentState_stopRecording (s.socket i).token).run store = some (b', store')) :
    Change ext s (.disconnect false i) ({ s with store := store' }.deleteAgent i)
  | agent {i : ι} {now : Int} {msg : AgentMessage} {s' : Server ι}
    (h : PacketChange ext now i s msg s') : Change ext s (.agent i now msg) s'
  | web {msg : WebMessage} {response : Option WebResponse} {s' : Server ι}
    (h : WebCommandSocket.packetHandling ext.json s msg = some (response, s')) :
    Change ext s (.web msg) s'
  | reorder {key : ByteStr} {members : MemberSet}
    (hperm : (s.store.set key).members.Perm members.members) :
    Change ext s (.reorder key members) (s.modifySet key fun _ => members)

section
variable {s s' : Server ι} {ext : Externals} {i : ι} {now : Int}

theorem packetChange_of_packetHandling {msg : AgentMessage}
    (h : AgentSocket.packetHandling ext now i s msg = some s') :
    PacketChange ext now i s msg s' := by
  cases msg with
  | agentIDRequest token hostIP ramSize =>
    cases hfind : s.getAgentSocketByToken token with
    | none =>
      obtain ⟨jv, hjv, rfl⟩ := agentIDRequest_eq_some hfind h
      exact .register hfind hjv
    | some j =>
      cases (agentIDRequest_eq_refused hfind).symm.trans h
      exact .refuse hfind
  | processListRequest =>
    cases sendProcessListResponse_eq.symm.trans h
    dsimp only
    split
    · exact .processList ‹_›
    · exact .defaultProcesses (not_not.mp ‹_›)
  | counterListRequest isMachine =>
    replace h := sendCounterListResponse_eq.symm.trans h
    dsimp only at h
    split at h
    · obtain ⟨jvs, hread, rfl⟩ := Option.map_eq_some_iff.mp h
      exact .counterList ‹_› hread
    · cases h
      exact .defaultCounters (not_not.mp ‹_›)
  | currentProcessListSend msg =>
    obtain ⟨⟨b, t⟩, hredis, heq⟩ := Option.bind_eq_some_iff.mp h
    obtain ⟨store, hrun, rfl⟩ := redis_eq_some_iff.mp hredis
    cases heq
    exact .snapshot hrun
  | agentReady =>
    obtain ⟨⟨b, t⟩, hredis, heq⟩ := Option.bind_eq_some_iff.mp h
    obtain ⟨store, hrun, rfl⟩ := redis_eq_some_iff.mp hredis
    cases heq
    exact .ready hrun
  | processInfoSend info =>
    obtain ⟨⟨b, t⟩, hredis, heq⟩ := Option.bind_eq_some_iff.mp h
    obtain ⟨store, hrun, rfl⟩ := redis_eq_some_iff.mp hredis
    cases heq
    exact .processInfo hrun
  | machineInfoSend info =>
    obtain ⟨⟨b, t⟩, hredis, heq⟩ := Option.bind_eq_some_iff.mp h
    obtain ⟨store, hrun, rfl⟩ := redis_eq_some_iff.mp hredis
    cases heq
    exact .machineInfo hrun
  | healthAck => cases h; exact .healthAck
  | recordResponse => cases h; exact .recordResponse
  | invalid => cases h; exact .invalid

theorem change_of_step {e : ServerEvent ι} (h : (machine ext).step s e = some s') :
    Change ext s e s' := by
  cases e with
  | accept isError i =>
    obtain ⟨hnew, heq⟩ := Option.ite_none_left_eq_some.mp h
    cases heq
    cases isError with
    | true => exact .acceptError
    | false => exact .accept hnew
  | disconnect isError i =>
    cases isError with
    | true =>
      cases h
      exact .disconnectError
    | false =>
      obtain ⟨⟨b, t⟩, hredis, h⟩ := Option.bind_eq_some_iff.mp h
      obtain ⟨store, hrun, rfl⟩ := redis_eq_some_iff.mp hredis
      obtain ⟨⟨b', t'⟩, hredis', heq⟩ := Option.bind_eq_some_iff.mp h
      obtain ⟨store', hrun', rfl⟩ := redis_eq_some_iff.mp hredis'
      cases heq
      exact .disconnect hrun hrun'
  | agent i now msg => exact .agent (packetChange_of_packetHandling h)
  | web msg =>
    obtain ⟨⟨response, t⟩, hweb, rfl⟩ := Option.map_eq_some_iff.mp h
    exact .web hweb
  | reorder key members =>
    obtain ⟨hperm, heq⟩ := Option.ite_none_right_eq_some.mp h
    cases heq
    exact .reorder hperm

end

end Server

end PSM
