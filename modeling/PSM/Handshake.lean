import PSM.Lib.Dialogue
import PSM.ListReplication

/-! What a client and the server say to each other when the client has connected.

The client asks for its number, for its lists and for the recording, one after the other. But for
the commands of the web, which the server passes on at any time, this is a dialogue (`Talks`). So the
packets come in one order only, the server handles at most seven of them, and when nothing is in
flight the client has everything and its record says that it is recording. What can keep the server
from answering is a list with a counter that does not read. -/

namespace PSM
open ByteStr Redis RedisManager

inductive Request where
  | agentID
  | processList
  | counterList (isMachine : Bool)
  | ready
  | recordResponse
  deriving DecidableEq

inductive Greeting where
  | agentID
  | processList
  | counterList (isMachine : Bool)
  | startRecord (isMachine : Bool)
  deriving DecidableEq

def AgentMessage.request? : AgentMessage → Option Request
  | agentIDRequest .. => some .agentID
  | processListRequest => some .processList
  | counterListRequest isMachine => some (.counterList isMachine)
  | agentReady => some .ready
  | recordResponse => some .recordResponse
  | _ => none

/-- A refusal is none. -/
def ServerMessage.greeting? : ServerMessage → Option Greeting
  | agentIDResponse _ false => some .agentID
  | processListResponse _ => some .processList
  | counterListResponse isMachine _ => some (.counterList isMachine)
  | startRecord isMachine .. => some (.startRecord isMachine)
  | _ => none

def handshake : Dialogue Request Greeting where
  opening := .agentID
  answer
    | .agentID => [.agentID]
    | .processList => [.processList]
    | .counterList isMachine => [.counterList isMachine]
    | .ready => [.startRecord true, .startRecord false]
    | .recordResponse => []
  reply
    | .agentID => [.processList]
    | .processList => [.counterList false]
    | .counterList isMachine => [if isMachine then .ready else .counterList true]
    | .startRecord _ => [.recordResponse]

theorem handshake_endsAfter : handshake.EndsAfter 5 := rfl

instance ServerMessage.decidableIsCommand : DecidablePred ServerMessage.IsCommand
  | processCommandRequest .. => isTrue trivial
  | counterCommandRequest .. => isTrue trivial
  | agentIDResponse .. => isFalse id
  | processListResponse .. => isFalse id
  | counterListResponse .. => isFalse id
  | startRecord .. => isFalse id

/-- What messages are without the commands. -/
def talk (msgs : List ServerMessage) : List (Option Greeting) :=
  (msgs.filter fun msg => ¬msg.IsCommand).map ServerMessage.greeting?

section
variable {msg : ServerMessage} {msgs msgs' : List ServerMessage} {g : Greeting}

theorem talk_append : talk (msgs ++ msgs') = talk msgs ++ talk msgs' := by simp [talk]

theorem talk_cons : talk (msg :: msgs) =
    if msg.IsCommand then talk msgs else msg.greeting? :: talk msgs := by
  by_cases h : msg.IsCommand <;> simp [talk, h]

theorem talk_commands (h : ∀ msg ∈ msgs, msg.IsCommand) : talk msgs = [] := by
  rw [talk, List.filter_eq_nil_iff.mpr, List.map_nil]
  intro msg hmsg
  simpa using h msg hmsg

theorem greeting?_mem_talk (hmsg : msg ∈ msgs) (h : ¬msg.IsCommand) : msg.greeting? ∈ talk msgs :=
  List.mem_map_of_mem (List.mem_filter.mpr ⟨hmsg, by simpa using h⟩)

theorem ServerMessage.not_isCommand_of_greeting? (h : msg.greeting? = some g) : ¬msg.IsCommand := by
  cases msg with
  | processCommandRequest => cases h
  | counterCommandRequest => cases h
  | _ => exact id

end

/-! ## The client -/

namespace AgentClientSocket

variable {c : AgentClientSocket} {msg : ServerMessage} {g : Greeting}

theorem isConnect_packetHandling : (c.packetHandling msg).1.isConnect = c.isConnect := by
  cases msg with
  | agentIDResponse agentID alreadyRunning => cases alreadyRunning <;> rfl
  | processCommandRequest type => cases type <;> rfl
  | counterCommandRequest isMachine type => cases type <;> rfl
  | _ => rfl

theorem silent (h : msg.IsCommand) : (c.packetHandling msg).2 = [] := by
  cases msg with
  | processCommandRequest type => cases type <;> rfl
  | counterCommandRequest isMachine type => cases type <;> rfl
  | _ => cases h

theorem replies (hc : c.isConnect = true) (h : msg.greeting? = some g) :
    (c.packetHandling msg).2.map AgentMessage.request? = (handshake.reply g).map some := by
  cases msg with
  | agentIDResponse agentID alreadyRunning =>
    cases alreadyRunning <;> cases h
    simp [packetHandling, sendIfConnected, hc, handshake, AgentMessage.request?]
  | processListResponse =>
    cases h
    simp [packetHandling, sendIfConnected, hc, handshake, AgentMessage.request?]
  | counterListResponse isMachine =>
    cases h
    cases isMachine <;> simp [packetHandling, sendIfConnected, hc, handshake, AgentMessage.request?]
  | startRecord =>
    cases h
    simp [packetHandling, sendIfConnected, hc, handshake, AgentMessage.request?]
  | _ => cases h

/-- Only the response with the number sets it. -/
theorem agentID_packetHandling (h : ∀ n, msg ≠ .agentIDResponse n false) :
    (c.packetHandling msg).1.agentID = c.agentID := by
  cases msg with
  | agentIDResponse agentID alreadyRunning =>
    cases alreadyRunning with
    | true => rfl
    | false => exact absurd rfl (h agentID)
  | processCommandRequest type => cases type <;> rfl
  | counterCommandRequest isMachine type => cases type <;> rfl
  | _ => rfl

end AgentClientSocket

/-! ## The server -/

theorem AgentMessage.IsRequest.ne_agentID {msg : AgentMessage} {q : Request} (hmsg : msg.IsRequest)
    (hq : msg.request? = some q) : q ≠ .agentID := by
  rintro rfl
  cases msg with
  | agentIDRequest => exact hmsg
  | _ => cases hq

namespace Server

variable {ι : Type} [DecidableEq ι] {s s' : Server ι} {i : ι} {ext : Externals} {now : Int}
  {msg : AgentMessage} {q : Request} {token : Int}

theorem answers (hmsg : msg.request? = some q) (hq : q ≠ .agentID)
    (h : AgentSocket.packetHandling ext now i s msg = some s') :
    ∃ msgs, s'.outbox i = s.outbox i ++ msgs ∧ talk msgs = (handshake.answer q).map some := by
  cases packetChange_of_packetHandling h with
  | register => cases hmsg; exact absurd rfl hq
  | refuse => cases hmsg; exact absurd rfl hq
  | processList => cases hmsg; exact ⟨_, Function.update_self .., rfl⟩
  | defaultProcesses => cases hmsg; exact ⟨_, Function.update_self .., rfl⟩
  | counterList => cases hmsg; exact ⟨_, Function.update_self .., rfl⟩
  | defaultCounters => cases hmsg; exact ⟨_, Function.update_self .., rfl⟩
  | ready =>
    cases hmsg
    refine ⟨[.startRecord true (-1) 10 1 0, .startRecord false (-1) 10 1 0], ?_, rfl⟩
    simp [send]
  | recordResponse => cases hmsg; exact ⟨[], (List.append_nil _).symm, rfl⟩
  | _ => cases hmsg

/-- A record of an agent that has reported itself ready at the given time. -/
structure StartedAt (ext : Externals) (now : Int) (jv : AgentRecord) : Prop where
  isRecording : jv.isRecording = true
  startTime : jv.startTime = ext.localTime now
  endTime : jv.endTime = ascii "INFINITE"
  responseTime : jv.responseTime = 10

/-- What requests do to the record of the client: only `AgentReady` writes it. -/
theorem recordAt_request {jv : AgentRecord} (hmsg : msg.IsRequest) (htoken : (s.socket i).token = token)
    (hjv : recordAt s.store token = some jv)
    (h : AgentSocket.packetHandling ext now i s msg = some s') :
    ∃ jv', recordAt s'.store token = some jv' ∧ jv'.agentNumber = jv.agentNumber ∧
      jv'.isOn = jv.isOn ∧ (jv' = jv ∨ StartedAt ext now jv') ∧
      (msg = .agentReady → StartedAt ext now jv') := by
  cases packetChange_of_packetHandling h with
  | processList => exact ⟨jv, hjv, rfl, rfl, .inl rfl, nofun⟩
  | defaultProcesses => exact ⟨jv, hjv, rfl, rfl, .inl rfl, nofun⟩
  | counterList => exact ⟨jv, hjv, rfl, rfl, .inl rfl, nofun⟩
  | defaultCounters => exact ⟨jv, hjv, rfl, rfl, .inl rfl, nofun⟩
  | recordResponse => exact ⟨jv, hjv, rfl, rfl, .inl rfl, nofun⟩
  | ready hrun =>
    subst htoken
    obtain ⟨_, _, hrun', -, hrecord⟩ := recordAt_changeAgentState (s := s.store)
    cases hrun.symm.trans hrun'
    have hjv' := (hrecord (s.socket i).token).trans (if_pos rfl)
    rw [hjv, Option.map_some] at hjv'
    have hstarted : StartedAt ext now { jv with
        isRecording := true, startTime := ext.localTime (now + 0), endTime := ascii "INFINITE",
        responseTime := 10 } := ⟨rfl, by rw [Int.add_zero], rfl, rfl⟩
    exact ⟨_, hjv', rfl, rfl, .inr hstarted, fun _ => hstarted⟩
  | _ => cases hmsg

/-- What a request needs to be answered: the record that is written for it reads, or the counters
that it asks for do. -/
def Answers (json : JsonCpp) (i : ι) (s : Server ι) : AgentMessage → Prop
  | .agentIDRequest token hostIP ramSize => s.getAgentSocketByToken token = none →
    ∃ jv, initValue s.store token hostIP ramSize = .json jv
  | .counterListRequest isMachine =>
    ∀ v ∈ s.store.set (counterListKey (s.socket i).agentID isMachine), json.counter? v ≠ none
  | _ => True

theorem handles_iff (hmsg : msg.request? ≠ none) :
    (∃ s', AgentSocket.packetHandling ext now i s msg = some s') ↔ s.Answers ext.json i msg := by
  cases msg with
  | agentIDRequest token hostIP ramSize =>
    cases hfind : s.getAgentSocketByToken token with
    | none =>
      rw [agentIDRequest_eq_accepted hfind, ← Option.isSome_iff_exists, Option.isSome_map,
        Option.isSome_iff_exists]
      simp only [Answers, hfind, forall_const, record?_eq_some_iff]
    | some j => exact iff_of_true ⟨_, agentIDRequest_eq_refused hfind⟩ (by simp [Answers, hfind])
  | processListRequest => exact iff_of_true ⟨_, sendProcessListResponse_eq⟩ trivial
  | counterListRequest isMachine =>
    change (∃ s', s.sendCounterListResponse ext.json i isMachine = some s') ↔
      ∀ v ∈ (s.store.set (counterListKey (s.socket i).agentID isMachine)).members,
        ext.json.counter? v ≠ none
    rw [← isSome_mapM_iff, ← Option.isSome_iff_exists, sendCounterListResponse_eq]
    dsimp only
    split
    · rw [Option.isSome_map]
    · rename_i hempty
      rw [not_not.mp hempty]
      rfl
  | recordResponse => exact iff_of_true ⟨_, rfl⟩ trivial
  | agentReady =>
    refine iff_of_true ?_ trivial
    obtain ⟨b, store, hrun⟩ : ∃ b store, (changeAgentState_startRecording ext.localTime now
        (s.socket i).token (-1) 10 0).run s.store = some (b, store) :=
      let ⟨b, store, hrun, _⟩ := recordAt_changeAgentState
      ⟨b, store, hrun⟩
    exact ⟨_, by rw [AgentSocket.packetHandling, redis_eq hrun]; rfl⟩
  | _ => exact absurd rfl hmsg

end Server

/-! ## The connection -/

namespace AgentLink

variable {ι : Type} [DecidableEq ι]

def LinkEvent.isServe : LinkEvent → Bool
  | .serve _ => true
  | _ => false

/-- What has been said and is in flight, without the commands. -/
structure Speaks (i : ι) (r : AgentLink ι) (d : Dialogue.State Request Greeting) : Prop where
  connected : r.client.isConnect = true
  toServer : r.toServer.map AgentMessage.request? = d.toServer.map some
  heard : talk r.processed = d.heard.map some
  toClient : talk (r.server.outbox i) = d.toClient.map some

/-- What the client keeps does not matter. -/
def Unregistered (i : ι) (t : Int) (r : AgentLink ι) : Prop :=
  Waiting i t .process { r with client := {} }

/-- `es` are the events so far. -/
structure Settled (ext : Externals) (es : List LinkEvent) (i : ι) (t : Int) (r : AgentLink ι)
    (d : Dialogue.State Request Greeting) : Prop where
  registered : Registered i t r
  number : ∀ n, ServerMessage.agentIDResponse n false ∈ r.server.outbox i →
    n = (r.server.socket i).agentID
  told : Greeting.agentID ∈ d.heard → r.client.agentID = (r.server.socket i).agentID
  record : ∃ jv, recordAt r.server.store t = some jv ∧
    jv.agentNumber = (r.server.socket i).agentID ∧ jv.isOn = true ∧
    (Request.ready ∈ d.served → ∃ now, LinkEvent.serve now ∈ es ∧ Server.StartedAt ext now jv)

/-- The connection is in a state of the dialogue. -/
structure Talks (ext : Externals) (es : List LinkEvent) (i : ι) (t : Int) (r : AgentLink ι)
    (d : Dialogue.State Request Greeting) : Prop where
  numbered : RecordsNumbered r.server.store
  reached : handshake.Reached d
  speaks : r.Speaks i d
  phase : d.served = [] ∧ r.Unregistered i t ∨ d.served ≠ [] ∧ r.Settled ext es i t d
  count : d.served.length = es.countP LinkEvent.isServe

section
variable {ext : Externals} {es : List LinkEvent} {i : ι} {t : Int} {r r' : AgentLink ι}
  {e : LinkEvent} {s s' : Server ι} {d : Dialogue.State Request Greeting} {msg : AgentMessage}
  {m : ServerMessage} {toServer : List AgentMessage} {rest : List ServerMessage}

omit [DecidableEq ι] in
theorem Speaks.next (h : r.Speaks i d) (hmsgs : r.toServer = msg :: toServer) :
    ∃ q ts, d.toServer = q :: ts ∧ msg.request? = some q ∧
      toServer.map AgentMessage.request? = ts.map some := by
  have heq := h.toServer
  rw [hmsgs, List.map_cons] at heq
  obtain ⟨q, ts, hd, hq, hts⟩ := List.map_eq_cons_iff.mp heq.symm
  exact ⟨q, ts, hd, hq.symm, hts.symm⟩

omit [DecidableEq ι] in
/-- A message that is read is a command or the next greeting. -/
theorem Speaks.nextToClient (h : r.Speaks i d) (hmsgs : r.server.outbox i = m :: rest) :
    m.IsCommand ∧ talk rest = d.toClient.map some ∨
      ∃ g gs, d.toClient = g :: gs ∧ m.greeting? = some g ∧ talk rest = gs.map some := by
  have heq := h.toClient
  rw [hmsgs, talk_cons] at heq
  split at heq
  · rename_i hm
    exact .inl ⟨hm, heq⟩
  · obtain ⟨g, gs, hd, hg, hgs⟩ := List.map_eq_cons_iff.mp heq.symm
    exact .inr ⟨g, gs, hd, hg.symm, hgs.symm⟩

omit [DecidableEq ι] in
theorem Settled.append (h : r.Settled ext es i t d) (es' : List LinkEvent) :
    r.Settled ext (es ++ es') i t d := by
  refine ⟨h.registered, h.number, h.told, ?_⟩
  obtain ⟨jv, hjv, hnumber, hon, hstarted⟩ := h.record
  refine ⟨jv, hjv, hnumber, hon, fun hready => ?_⟩
  obtain ⟨now, hnow, hjv⟩ := hstarted hready
  exact ⟨now, List.mem_append_left _ hnow, hjv⟩

omit [DecidableEq ι] in
theorem Unregistered.outbox (h : r.Unregistered i t) : r.server.outbox i = [] :=
  Waiting.outbox (r := { r with client := {} }) h

/-! ### Commands of the web -/

theorem Unregistered.web {msg : WebMessage} {response : Option WebResponse}
    (h : r.Unregistered i t) (hmsg : msg.token? ≠ some (-1))
    (hweb : WebCommandSocket.packetHandling ext.json r.server msg = some (response, s')) :
    Unregistered i t { r with server := s' } :=
  Waiting.web (r := { r with client := {} }) h hmsg hweb

theorem Settled.web {msg : WebMessage} {response : Option WebResponse}
    (h : r.Settled ext es i t d)
    (hweb : WebCommandSocket.packetHandling ext.json r.server msg = some (response, s')) :
    Settled ext es i t { r with server := s' } d := by
  have heffect := Server.webEffect_web hweb
  obtain ⟨msgs, houtbox, hcommand, -⟩ := heffect.outbox i
  refine ⟨h.registered.mono heffect.agentList heffect.socket heffect.sameAgents.extends.2
    h.registered.requests, fun n hn => ?_, ?_, ?_⟩
  · rw [heffect.socket]
    rw [houtbox] at hn
    exact (List.mem_append.mp hn).elim (h.number n) fun hn => absurd (hcommand _ hn) id
  · rw [heffect.socket]
    exact h.told
  · obtain ⟨jv, hjv, hrecord⟩ := h.record
    refine ⟨jv, ?_, ?_⟩
    · rw [← hjv, recordAt, heffect.hash]
      rfl
    · rw [heffect.socket]
      exact hrecord

theorem Talks.web {msg : WebMessage} {response : Option WebResponse} (h : r.Talks ext es i t d)
    (hmsg : msg.token? ≠ some (-1))
    (hweb : WebCommandSocket.packetHandling ext.json r.server msg = some (response, s')) :
    Talks ext (es ++ [.web msg]) i t { r with server := s' } d := by
  have heffect := Server.webEffect_web hweb
  obtain ⟨msgs, houtbox, hcommand, -⟩ := heffect.outbox i
  refine ⟨heffect.sameAgents.extends.1 h.numbered, h.reached,
    ⟨h.speaks.connected, h.speaks.toServer, h.speaks.heard, ?_⟩, ?_, ?_⟩
  · rw [houtbox, talk_append, talk_commands hcommand, List.append_nil]
    exact h.speaks.toClient
  · exact h.phase.imp (fun hp => ⟨hp.1, hp.2.web hmsg hweb⟩) fun hp =>
      ⟨hp.1, (hp.2.web hweb).append _⟩
  · rw [List.countP_append]
    exact h.count

/-! ### The client's packets -/

/-- The first packet registers the client. -/
theorem Unregistered.serve {now : Int} (h : r.Unregistered i t)
    (hmsgs : r.toServer = msg :: toServer)
    (hserve : AgentSocket.packetHandling ext now i r.server msg = some s') :
    toServer = [] ∧ ∃ jv, jv.isOn = true ∧ s' = r.server.registered i t t jv ∧
      msg.request? = some .agentID := by
  obtain ⟨ramSize, hrequest⟩ := Waiting.toServer h
  cases hmsgs.symm.trans hrequest
  obtain ⟨jv, hjv, rfl⟩ := Server.agentIDRequest_eq_some h.free hserve
  exact ⟨rfl, jv, initValue_isOn hjv, rfl, rfl⟩

omit [DecidableEq ι] in
/-- Before the first packet is handled nothing has been said. -/
theorem Talks.opening (h : r.Talks ext es i t d) (hserved : d.served = []) :
    d = handshake.init := by
  obtain ⟨hrequests, hresponses⟩ := h.reached.coherent
  obtain ⟨served, toServer, heard, toClient⟩ := d
  cases hserved
  obtain ⟨rfl, rfl⟩ := List.append_eq_nil_iff.mp hresponses
  exact congrArg (Dialogue.State.mk [] · [] []) hrequests

theorem Talks.register {now : Int} (h : r.Talks ext es i t d) (hserved : d.served = [])
    (hp : r.Unregistered i t) (hmsgs : r.toServer = msg :: toServer)
    (hserve : AgentSocket.packetHandling ext now i r.server msg = some s') :
    ∃ d', Talks ext (es ++ [.serve now]) i t { r with server := s', toServer } d' := by
  have hextends : RecordsExtend r.server.store s'.store :=
    Server.extends_step (e := .agent i now msg) h.numbered hserve
  obtain ⟨rfl, jv, hon, rfl, hq⟩ := hp.serve hmsgs hserve
  cases h.opening hserved
  have houtbox : (r.server.registered i t t jv).outbox i =
      [.agentIDResponse jv.agentNumber false] := by
    simp [Server.registered, Server.setSocket, Server.send, hp.outbox]
  have hsocket : ((r.server.registered i t t jv).socket i).agentID = jv.agentNumber := by
    simp [Server.registered, Server.setSocket, Server.send]
  refine ⟨_, hextends.1 h.numbered, h.reached.serve rfl,
    ⟨h.speaks.connected, rfl, h.speaks.heard, ?_⟩, .inr ⟨by simp [handshake, Dialogue.init], ?_⟩, ?_⟩
  · rw [houtbox]
    rfl
  · have hregistered : Registered i t { r with
        server := r.server.registered i t t jv, client := {}, toServer := [] } :=
      Waiting.register (r := { r with client := {} }) hp
    refine ⟨⟨hregistered.1, hregistered.2, hregistered.3⟩, fun n hn => ?_,
      fun h => absurd h List.not_mem_nil, ?_⟩
    · rw [houtbox] at hn
      cases List.mem_singleton.mp hn
      exact hsocket.symm
    · refine ⟨_, recordAt_setRecord.trans (if_pos rfl), hsocket.symm, hon, fun h => ?_⟩
      cases List.mem_singleton.mp h
  · rw [List.countP_append, ← h.count]
    rfl

omit [DecidableEq ι] in
theorem Registered.token (h : r.Registered i t) : (r.server.socket i).token = t := by
  simpa using List.find?_some h.lookup

/-- The answers to the other packets hold no number. -/
theorem Settled.serve {now : Int} {q : Request} {ts : List Request} (hs : RecordsNumbered r.server.store)
    (h : r.Settled ext es i t d) (hmsgs : r.toServer = msg :: toServer) (hq : msg.request? = some q)
    (hserve : AgentSocket.packetHandling ext now i r.server msg = some s') :
    Settled ext (es ++ [.serve now]) i t { r with server := s', toServer }
      ⟨d.served ++ [q], ts, d.heard, d.toClient ++ handshake.answer q⟩ := by
  have hextends : RecordsExtend r.server.store s'.store :=
    Server.extends_step (e := .agent i now msg) hs hserve
  have hrequests := hmsgs ▸ h.registered.requests
  have hmsg : msg.IsRequest := hrequests msg List.mem_cons_self
  have hne := hmsg.ne_agentID hq
  obtain ⟨hlist, hsocket, -⟩ := Server.request_effect hmsg hserve
  obtain ⟨msgs, houtbox, htalk⟩ := Server.answers hq hne hserve
  refine ⟨h.registered.mono hlist hsocket hextends.2 fun m hm =>
    hrequests m (List.mem_cons_of_mem _ hm), fun n hn => ?_, ?_, ?_⟩
  · rw [hsocket]
    rw [houtbox] at hn
    refine (List.mem_append.mp hn).elim (h.number n) fun hn => ?_
    have hgreeting := greeting?_mem_talk hn id
    rw [htalk] at hgreeting
    obtain ⟨g, hg, heq⟩ := List.mem_map.mp hgreeting
    cases heq
    cases q <;> simp [handshake] at hg hne
  · rw [hsocket]
    exact h.told
  · obtain ⟨jv, hjv, hnumber, hon, hstarted⟩ := h.record
    obtain ⟨jv', hjv', hnumber', hon', hkept, hready⟩ :=
      Server.recordAt_request hmsg h.registered.token hjv hserve
    refine ⟨jv', hjv', ?_, hon'.trans hon, fun hmem => ?_⟩
    · rw [hsocket, hnumber', hnumber]
    · rcases hkept with rfl | hnow
      · rcases List.mem_append.mp hmem with hmem | hmem
        · obtain ⟨now', hnow', hjv⟩ := hstarted hmem
          exact ⟨now', List.mem_append_left _ hnow', hjv⟩
        · cases List.mem_singleton.mp hmem
          refine ⟨now, by simp, hready ?_⟩
          cases msg <;> first | rfl | cases hq
      · exact ⟨now, by simp, hnow⟩

theorem Talks.serve {now : Int} (h : r.Talks ext es i t d) (hmsgs : r.toServer = msg :: toServer)
    (hserve : AgentSocket.packetHandling ext now i r.server msg = some s') :
    ∃ d', Talks ext (es ++ [.serve now]) i t { r with server := s', toServer } d' := by
  rcases h.phase with ⟨hserved, hp⟩ | ⟨hserved, hp⟩
  · exact h.register hserved hp hmsgs hserve
  · obtain ⟨q, ts, hd, hq, hts⟩ := h.speaks.next hmsgs
    have hsettled : Settled ext (es ++ [.serve now]) i t { r with server := s', toServer }
        ⟨d.served ++ [q], ts, d.heard, d.toClient ++ handshake.answer q⟩ :=
      hp.serve h.numbered hmsgs hq hserve
    have hmsg : msg.IsRequest := hp.registered.requests msg (hmsgs ▸ List.mem_cons_self)
    obtain ⟨msgs, houtbox, htalk⟩ := Server.answers hq (hmsg.ne_agentID hq) hserve
    refine ⟨_, (Server.extends_step (e := .agent i now msg) h.numbered hserve).1 h.numbered,
      h.reached.serve hd, ⟨h.speaks.connected, hts, h.speaks.heard, ?_⟩,
      .inr ⟨by simp, hsettled⟩, ?_⟩
    · rw [houtbox, talk_append, h.speaks.toClient, htalk, List.map_append]
    · rw [List.length_append, List.countP_append, h.count]
      rfl

/-! ### The server's messages -/

theorem Settled.read (h : r.Settled ext es i t d) (hmsgs : r.server.outbox i = m :: rest)
    {d' : Dialogue.State Request Greeting} (hserved : d'.served = d.served)
    (hheard : Greeting.agentID ∈ d'.heard → Greeting.agentID ∈ d.heard ∨
      ∃ n, m = .agentIDResponse n false) :
    Settled ext (es ++ [.read]) i t
      ⟨{ r.server with outbox := Function.update r.server.outbox i rest },
        (r.client.packetHandling m).1, r.toServer ++ (r.client.packetHandling m).2,
        r.processed ++ [m]⟩ d' := by
  refine ⟨h.registered.mono rfl rfl (fun _ _ => id) fun m' hm => ?_, fun n hn => ?_, fun htold => ?_, ?_⟩
  · exact (List.mem_append.mp hm).elim (h.registered.requests m')
      (AgentClientSocket.isRequest_of_sent m')
  · change _ ∈ Function.update r.server.outbox i rest i at hn
    rw [Function.update_self] at hn
    exact h.number n (hmsgs ▸ List.mem_cons_of_mem _ hn)
  · change (r.client.packetHandling m).1.agentID = (r.server.socket i).agentID
    by_cases hm : ∃ n, m = .agentIDResponse n false
    · obtain ⟨n, rfl⟩ := hm
      exact h.number n (hmsgs ▸ List.mem_cons_self)
    · rw [AgentClientSocket.agentID_packetHandling fun n hn => hm ⟨n, hn⟩]
      exact h.told ((hheard htold).resolve_right hm)
  · obtain ⟨jv, hjv, hnumber, hon, hstarted⟩ := (h.append [.read]).record
    exact ⟨jv, hjv, hnumber, hon, by rwa [hserved]⟩

theorem Talks.read (h : r.Talks ext es i t d) (hmsgs : r.server.outbox i = m :: rest) :
    ∃ d', Talks ext (es ++ [.read]) i t
      ⟨{ r.server with outbox := Function.update r.server.outbox i rest },
        (r.client.packetHandling m).1, r.toServer ++ (r.client.packetHandling m).2,
        r.processed ++ [m]⟩ d' := by
  have hcount : (es ++ [LinkEvent.read]).countP LinkEvent.isServe = es.countP LinkEvent.isServe := by
    rw [List.countP_append]
    rfl
  have hp := h.phase.resolve_left fun hp => by
    cases hp.2.outbox.symm.trans hmsgs
  have hconnected : (r.client.packetHandling m).1.isConnect = true :=
    AgentClientSocket.isConnect_packetHandling.trans h.speaks.connected
  rcases h.speaks.nextToClient hmsgs with ⟨hcommand, hrest⟩ | ⟨g, gs, hd, hg, hrest⟩
  · refine ⟨d, h.numbered, h.reached, ⟨hconnected, ?_, ?_, ?_⟩,
      .inr ⟨hp.1, hp.2.read hmsgs rfl .inl⟩, h.count.trans hcount.symm⟩
    · rw [AgentClientSocket.silent hcommand, List.append_nil]
      exact h.speaks.toServer
    · rw [talk_append, talk_cons, if_pos hcommand]
      exact (List.append_nil _).trans h.speaks.heard
    · change talk (Function.update r.server.outbox i rest i) = _
      rw [Function.update_self]
      exact hrest
  · refine ⟨_, h.numbered, h.reached.hear hd, ⟨hconnected, ?_, ?_, ?_⟩,
      .inr ⟨hp.1, hp.2.read hmsgs rfl fun hmem => ?_⟩, h.count.trans hcount.symm⟩
    · rw [List.map_append, List.map_append, h.speaks.toServer,
        AgentClientSocket.replies h.speaks.connected hg]
    · rw [talk_append, h.speaks.heard, List.map_append, talk_cons,
        if_neg (ServerMessage.not_isCommand_of_greeting? hg), hg]
      rfl
    · change talk (Function.update r.server.outbox i rest i) = _
      rw [Function.update_self]
      exact hrest
    · refine (List.mem_append.mp hmem).imp_right fun hmem => ?_
      cases List.mem_singleton.mp hmem
      cases m with
      | agentIDResponse n alreadyRunning => cases alreadyRunning <;> [exact ⟨n, rfl⟩; cases hg]
      | _ => cases hg

theorem Talks.step (h : r.Talks ext es i t d) (hstep : (machine ext i).step r e = some r') :
    ∃ d', r'.Talks ext (es ++ [e]) i t d' := by
  obtain ⟨msg, response, s', rfl, hmsg, hweb, rfl⟩ | ⟨now, msg, toServer, s', rfl, hmsgs, hserve, rfl⟩ |
    ⟨msg, rest, rfl, hmsgs, rfl⟩ | ⟨key, members, rfl, -, rfl⟩ := step_cases hstep
  · exact ⟨d, h.web hmsg hweb⟩
  · exact h.serve hmsgs hserve
  · exact h.read hmsgs
  · refine ⟨d, (Server.sameAgents_modifySet.extends (s := r.server)).1 h.numbered, h.reached,
      ⟨h.speaks.1, h.speaks.2, h.speaks.3, h.speaks.4⟩, ?_, ?_⟩
    · exact h.phase.imp (fun hp => ⟨hp.1, ⟨hp.2.1, hp.2.2, hp.2.3, hp.2.4, hp.2.5, hp.2.6, hp.2.7⟩⟩)
        fun hp =>
          have hs := hp.2.append [.reorder key members]
          ⟨hp.1, ⟨hs.1.1, hs.1.2, hs.1.3⟩, hs.2, hs.3, hs.4⟩
    · rw [List.countP_append]
      exact h.count

/-! ### Runs -/

variable {client : AgentClientSocket} {ramSize : BitVec 64}

theorem Connects.talks (h : Connects ext i t s) :
    Talks ext [] i t (init (AgentSocket.acceptProcess false i s) client t ramSize)
      handshake.init := by
  have hlinked : Linked i t .process
    (init (AgentSocket.acceptProcess false i s) {} t ramSize) := h.linked rfl
  have hw : Waiting i t .process
    (init (AgentSocket.acceptProcess false i s) {} t ramSize) := h.waiting rfl
  refine ⟨hlinked.numbered, .refl, ⟨rfl, rfl, rfl, ?_⟩, .inl ⟨rfl, ?_⟩, rfl⟩
  · change talk ((AgentSocket.acceptProcess false i s).outbox i) = []
    simp [AgentSocket.acceptProcess, talk]
  · exact ⟨hw.1, hw.2, hw.3, hw.4, hw.5, hw.6, Set.eq_empty_of_forall_notMem fun _ h => absurd h List.not_mem_nil⟩

theorem run_talks (hs : Connects ext i t s)
    (hrun : (machine ext i).run
      (init (AgentSocket.acceptProcess false i s) client t ramSize) es = some r) :
    ∃ d, r.Talks ext es i t d := by
  refine EventMachine.run_induction (P := fun es r => ∃ d, r.Talks ext es i t d)
    ⟨_, hs.talks⟩ ?_ hrun
  intro es e r r' _ ⟨d, h⟩ hstep
  exact h.step hstep

/-- The conversation, without the commands. -/
def conversation : List Greeting :=
  [.agentID, .processList, .counterList false, .counterList true, .startRecord true,
    .startRecord false]

omit [DecidableEq ι] in
theorem mem_processed_of_talk (h : talk r.processed = conversation.map some) :
    ∃ names, ServerMessage.processListResponse names ∈ r.processed := by
  have hmem : some Greeting.processList ∈ talk r.processed := by
    rw [h]
    decide
  obtain ⟨m, hm, hgreeting⟩ := List.mem_map.mp hmem
  have hprocessed := (List.mem_filter.mp hm).1
  cases m with
  | processListResponse names => exact ⟨names, hprocessed⟩
  | agentIDResponse agentID alreadyRunning => cases alreadyRunning <;> cases hgreeting
  | _ => cases hgreeting

/-- What the client has been sent is at any time a beginning of the conversation, and the server has
handled no more than seven packets. -/
theorem conversation_inOrder (hs : Connects ext i t s)
    (hrun : (machine ext i).run
      (init (AgentSocket.acceptProcess false i s) client t ramSize) es = some r) :
    talk (r.processed ++ r.server.outbox i) <+: conversation.map some ∧
      es.countP LinkEvent.isServe ≤ 7 := by
  obtain ⟨d, h⟩ := run_talks hs hrun
  refine ⟨?_, ?_⟩
  · rw [talk_append, h.speaks.heard, h.speaks.toClient, ← List.map_append]
    exact (h.reached.heard_within handshake_endsAfter).map some
  · rw [← h.count]
    exact (h.reached.length_le handshake_endsAfter).1

theorem conversation_inOrder_added : ∃ r : AgentLink Nat,
    (machine (.ofTexts []) 0).run
      (init (AgentSocket.acceptProcess false 0 (.init Store.empty)) {} 7 0#64) addWhileAsked =
        some r ∧
    talk (r.processed ++ r.server.outbox 0) <+: conversation.map some ∧
      addWhileAsked.countP LinkEvent.isServe ≤ 7 := by
  have hconnects : Connects (.ofTexts []) 0 7 (.init Store.empty) :=
    ⟨⟨Store.empty, [], recordsNumbered_empty rfl, rfl⟩, nofun, nofun, by decide⟩
  obtain ⟨r, hrun⟩ : ∃ r : AgentLink Nat, (machine (.ofTexts []) 0).run
      (init (AgentSocket.acceptProcess false 0 (.init Store.empty)) {} 7 0#64) addWhileAsked =
        some r := ⟨_, rfl⟩
  exact ⟨r, hrun, conversation_inOrder hconnects hrun⟩

omit [DecidableEq ι] in
/-- The end of the dialogue. -/
theorem Talks.completes (h : r.Talks ext es i t d) (hserver : r.toServer = [])
    (hclient : r.server.outbox i = []) :
    talk r.processed = conversation.map some ∧ ∃ jv, recordAt r.server.store t = some jv ∧
      jv.agentNumber = (r.server.socket i).agentID ∧ r.client.agentID = jv.agentNumber ∧
      jv.isOn = true ∧ ∃ now, LinkEvent.serve now ∈ es ∧ Server.StartedAt ext now jv := by
  have htoServer : d.toServer = [] := by
    simpa [hserver] using h.speaks.toServer.symm
  have htoClient : d.toClient = [] := by
    simpa [hclient, talk] using h.speaks.toClient.symm
  obtain ⟨hheard, hserved⟩ := h.reached.over handshake_endsAfter htoServer htoClient
  have hsettled : r.Settled ext es i t d := by
    refine (h.phase.resolve_left fun hp => ?_).2
    cases hserved.symm.trans hp.1
  obtain ⟨jv, hjv, hnumber, hon, hstarted⟩ := hsettled.record
  refine ⟨by rw [h.speaks.heard, hheard]; rfl, jv, hjv, hnumber, ?_, hon, hstarted ?_⟩
  · rw [hnumber, hsettled.told (hheard ▸ List.mem_cons_self)]
  · rw [hserved]
    decide

/-- When nothing is in flight, the client has all that it needs, and its record says that it is on
and has been recording since its `AgentReady` was handled. -/
theorem handshake_completes (hs : Connects ext i t s)
    (hrun : (machine ext i).run
      (init (AgentSocket.acceptProcess false i s) client t ramSize) es = some r)
    (hserver : r.toServer = []) (hclient : r.server.outbox i = []) :
    talk r.processed = conversation.map some ∧ ∃ jv, recordAt r.server.store t = some jv ∧
      r.client.agentID = jv.agentNumber ∧ jv.isOn = true ∧
      ∃ now, LinkEvent.serve now ∈ es ∧ Server.StartedAt ext now jv := by
  obtain ⟨d, h⟩ := run_talks hs hrun
  obtain ⟨htalk, jv, hjv, -, hrecord⟩ := h.completes hserver hclient
  exact ⟨htalk, jv, hjv, hrecord⟩

/-- A connection without commands. -/
def wholeHandshake : List LinkEvent :=
  [.serve 1, .read, .serve 1, .read, .serve 2, .read, .serve 2, .read, .serve 3, .read, .read,
    .serve 4, .serve 4]

theorem handshake_completes_alone : ∃ r : AgentLink Nat,
    (machine (.ofTexts []) 0).run
      (init (AgentSocket.acceptProcess false 0 (.init Store.empty)) {} 7 0#64) wholeHandshake =
        some r ∧
    talk r.processed = conversation.map some ∧ ∃ jv, recordAt r.server.store 7 = some jv ∧
      r.client.agentID = jv.agentNumber ∧ jv.isOn = true ∧
      ∃ now, LinkEvent.serve now ∈ wholeHandshake ∧
        Server.StartedAt (.ofTexts []) now jv := by
  have hconnects : Connects (.ofTexts []) 0 7 (.init Store.empty) :=
    ⟨⟨Store.empty, [], recordsNumbered_empty rfl, rfl⟩, nofun, nofun, by decide⟩
  obtain ⟨r, hrun, hserver, hclient⟩ : ∃ r : AgentLink Nat, (machine (.ofTexts []) 0).run
      (init (AgentSocket.acceptProcess false 0 (.init Store.empty)) {} 7 0#64) wholeHandshake =
        some r ∧ r.toServer = [] ∧ r.server.outbox 0 = [] := ⟨_, rfl, rfl, rfl⟩
  exact ⟨r, hrun, handshake_completes hconnects hrun hserver hclient⟩

/-- The record or the list of counters that the client is waiting for does not read. -/
def Unanswered (json : JsonCpp) (i : ι) (r : AgentLink ι) : Prop :=
  ∃ msg rest, r.toServer = msg :: rest ∧ ¬r.server.Answers json i msg

theorem read_eq_none_iff : (machine ext i).step r .read = none ↔ r.server.outbox i = [] := by
  cases h : r.server.outbox i <;> simp [machine, step, h]

theorem serve_eq_none_iff {now : Int} (hmsgs : r.toServer = msg :: toServer) :
    (machine ext i).step r (.serve now) = none ↔
      ¬∃ s', AgentSocket.packetHandling ext now i r.server msg = some s' := by
  simp only [machine, step, hmsgs, Option.map_eq_none_iff]
  rw [Option.eq_none_iff_forall_ne_some, not_exists]
  rfl

/-- Neither side can move exactly when nothing is in flight, or the server cannot answer. -/
theorem stuck_iff (hs : Connects ext i t s)
    (hrun : (machine ext i).run
      (init (AgentSocket.acceptProcess false i s) client t ramSize) es = some r) :
    (∀ now, (machine ext i).step r (.serve now) = none) ∧ (machine ext i).step r .read = none ↔
      r.server.outbox i = [] ∧ (r.toServer = [] ∨ r.Unanswered ext.json i) := by
  obtain ⟨d, h⟩ := run_talks hs hrun
  rw [read_eq_none_iff, and_comm]
  refine and_congr_right fun _ => ?_
  cases hmsgs : r.toServer with
  | nil => exact iff_of_true (fun now => by simp [machine, step, hmsgs]) (.inl rfl)
  | cons msg toServer =>
    obtain ⟨q, ts, -, hq, -⟩ := h.speaks.next hmsgs
    have hmsg : msg.request? ≠ none := by
      rw [hq]
      exact Option.some_ne_none q
    constructor
    · intro hnone
      have hcannot := (serve_eq_none_iff hmsgs).mp (hnone 0)
      rw [Server.handles_iff hmsg] at hcannot
      exact .inr ⟨msg, toServer, hmsgs, hcannot⟩
    · rintro (hempty | ⟨msg, rest, heq, hcannot⟩) now
      · cases hempty
      · cases hmsgs.symm.trans heq
        rwa [serve_eq_none_iff hmsgs, Server.handles_iff hmsg]

theorem stuck_iff_alone : ∃ r : AgentLink Nat,
    (machine (.ofTexts []) 0).run
      (init (AgentSocket.acceptProcess false 0 (.init Store.empty)) {} 7 0#64) wholeHandshake =
        some r ∧
    ((∀ now, (machine (.ofTexts []) 0).step r (.serve now) = none) ∧
        (machine (.ofTexts []) 0).step r .read = none ↔
      r.server.outbox 0 = [] ∧
        (r.toServer = [] ∨ r.Unanswered (Externals.ofTexts []).json 0)) := by
  have hconnects : Connects (.ofTexts []) 0 7 (.init Store.empty) :=
    ⟨⟨Store.empty, [], recordsNumbered_empty rfl, rfl⟩, nofun, nofun, by decide⟩
  obtain ⟨r, hrun⟩ : ∃ r : AgentLink Nat, (machine (.ofTexts []) 0).run
      (init (AgentSocket.acceptProcess false 0 (.init Store.empty)) {} 7 0#64) wholeHandshake =
        some r := ⟨_, rfl⟩
  exact ⟨r, hrun, stuck_iff hconnects hrun⟩

end

end AgentLink

end PSM
