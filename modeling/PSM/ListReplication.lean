import PSM.AgentLink

/-! The client's lists replicate the sets of the server.

A client is first waiting for its registration, with nothing in flight and empty lists, and then
registered (`Linked`). In both phases every event keeps each list in step with the stored set
(`InStep`), but for a command that removes counters. -/

namespace PSM
open ByteStr Redis RedisManager Replica

namespace AgentLink

variable {ι : Type} [DecidableEq ι]

/-! ## The phases of a connection -/

/-- The `AgentIDRequest` has not been handled. -/
structure Waiting (i : ι) (t : Int) (kind : ListKind) (r : AgentLink ι) : Prop where
  listed : i ∈ r.server.agentList
  token : (r.server.socket i).token = -1
  free : r.server.getAgentSocketByToken t = none
  outbox : r.server.outbox i = []
  processed : r.processed = []
  toServer : ∃ ramSize, r.toServer = [.agentIDRequest t t ramSize]
  empty : r.client.query.content kind = ∅

structure Registered (i : ι) (t : Int) (r : AgentLink ι) : Prop where
  lookup : r.server.getAgentSocketByToken t = some i
  number : numberAt r.server.store (decimal t) = some (some (r.server.socket i).agentID)
  requests : ∀ msg ∈ r.toServer, msg.IsRequest

structure Linked (i : ι) (t : Int) (kind : ListKind) (r : AgentLink ι) : Prop where
  numbered : RecordsNumbered r.server.store
  nodup : (r.client.query.list kind).Nodup
  phase : Waiting i t kind r ∨ Registered i t r

/-- The list will follow the stored set of the number that the socket has. -/
def InStep (json : JsonCpp) (i : ι) (kind : ListKind) (answered : Prop) (r : AgentLink ι) : Prop :=
  r.server.Fits json (r.server.socket i).agentID i kind (r.client.query.content kind) answered

section
variable {ext : Externals} {i : ι} {t : Int} {r r' : AgentLink ι} {e : LinkEvent}
  {kind : ListKind} {s s' : Server ι} {json : JsonCpp} {answered : Prop}

omit [DecidableEq ι] in
/-- An empty list that has not been answered is in step. -/
theorem inStep_of_empty (hempty : r.view i kind = ∅) (h : ¬answered) :
    r.InStep json i kind answered := by
  change Replica.Follows _ _ _ (r.view i kind)
  rw [hempty]
  exact follows_empty h

omit [DecidableEq ι] in
theorem Waiting.not_answered (h : r.Waiting i t kind) : ¬r.Answered i kind := by
  rintro ⟨msg, hmsg, -⟩
  rw [h.processed, h.outbox] at hmsg
  cases hmsg

omit [DecidableEq ι] in
theorem Waiting.view_eq (h : r.Waiting i t kind) : r.view i kind = ∅ := by
  rw [view, h.outbox, h.empty]
  rfl

omit [DecidableEq ι] in
/-- Numbers identify tokens, so what reaches the socket are the commands for its number. -/
theorem Registered.own (hs : RecordsNumbered r.server.store) (h : r.Registered i t) (token : Int) :
    agentIDAt r.server.store token = some (r.server.socket i).agentID ↔
      r.server.getAgentSocketByToken token = some i := by
  rw [hs.agentIDAt_eq_some_iff (hs.ne_neg_one h.number)]
  constructor
  · intro hnumber
    rw [decimal_injective (hs.inj _ _ _ hnumber h.number)]
    exact h.lookup
  · intro hlookup
    have htoken : (r.server.socket i).token = token := by simpa using List.find?_some hlookup
    have ht : (r.server.socket i).token = t := by simpa using List.find?_some h.lookup
    rw [← htoken, ht]
    exact h.number

/-! ## What an event keeps -/

/-- The event removes counters from the list. -/
def RemovesFrom (i : ι) (kind : ListKind) (r : AgentLink ι) : LinkEvent → Prop
  | .web msg => r.server.RemovesFrom (r.server.socket i).agentID kind msg
  | _ => False

omit [DecidableEq ι] in
theorem RemovesFrom.eq (h : RemovesFrom i kind r e) : ∃ token isMachine names,
    e = .web (.counterCommandRequest token isMachine .cDeleteList names) ∧
      agentIDAt r.server.store token = some (r.server.socket i).agentID ∧
      kind = .counter isMachine :=
  match e, h with
  | .web (.counterCommandRequest token isMachine .cDeleteList names), h =>
    ⟨token, isMachine, names, rfl, h⟩

omit [DecidableEq ι] in
/-- The phase depends on the sockets and on the numbers that have been given. -/
theorem Registered.mono (h : r.Registered i t) (hlist : r'.server.agentList = r.server.agentList)
    (hsocket : r'.server.socket = r.server.socket) (hstore : Keeps r.server.store r'.server.store)
    (hrequests : ∀ msg ∈ r'.toServer, msg.IsRequest) : r'.Registered i t := by
  refine ⟨?_, ?_, hrequests⟩
  · rw [← h.lookup, Server.getAgentSocketByToken, hlist, hsocket]
    rfl
  · rw [hsocket]
    exact hstore _ _ h.number

omit [DecidableEq ι] in
/-- The socket of a waiting client has no token that a command can be addressed to. -/
theorem Waiting.target_ne (h : r.Waiting i t kind) {msg : WebMessage} (hmsg : msg.token? ≠ some (-1)) :
    msg.token?.bind r.server.getAgentSocketByToken ≠ some i := by
  intro htarget
  obtain ⟨token, htoken, hlookup⟩ := Option.bind_eq_some_iff.mp htarget
  have hsocket : (r.server.socket i).token = token := by simpa using List.find?_some hlookup
  rw [h.token] at hsocket
  exact hmsg (by rw [htoken, ← hsocket])

theorem Waiting.web {msg : WebMessage} {response : Option WebResponse} (h : r.Waiting i t kind)
    (hmsg : msg.token? ≠ some (-1))
    (hweb : WebCommandSocket.packetHandling ext.json r.server msg = some (response, s')) :
    Waiting i t kind { r with server := s' } := by
  have heffect := Server.webEffect_web hweb
  obtain ⟨msgs, houtbox, -, hnil⟩ := heffect.outbox i
  refine ⟨?_, ?_, ?_, ?_, h.processed, h.toServer, h.empty⟩
  · rw [heffect.agentList]
    exact h.listed
  · rw [heffect.socket]
    exact h.token
  · rw [← h.free, Server.getAgentSocketByToken, heffect.agentList, heffect.socket]
    rfl
  · rw [houtbox, h.outbox, hnil (h.target_ne hmsg)]
    rfl

theorem Linked.web {msg : WebMessage} {response : Option WebResponse} (h : r.Linked i t kind)
    (hmsg : msg.token? ≠ some (-1))
    (hweb : WebCommandSocket.packetHandling ext.json r.server msg = some (response, s')) :
    Linked i t kind { r with server := s' } := by
  have heffect := Server.webEffect_web hweb
  have hextends := heffect.sameAgents.extends
  refine ⟨hextends.1 h.numbered, h.nodup, h.phase.imp (fun hw => hw.web hmsg hweb) fun hr => ?_⟩
  exact hr.mono heffect.agentList heffect.socket hextends.2 hr.requests

/-- The request of a waiting client is accepted, and registers it. -/
theorem Waiting.register (h : r.Waiting i t kind) {jv : AgentRecord} :
    Registered i t { r with server := r.server.registered i t t jv, toServer := [] } where
  lookup := Server.registered_lookup h.listed h.free
  number := by
    have hrecord : recordAt (r.server.registered i t t jv).store t = some jv :=
      recordAt_setRecord.trans (if_pos rfl)
    have hsocket : ((r.server.registered i t t jv).socket i).agentID = jv.agentNumber := by
      simp [Server.registered, Server.setSocket, Server.send]
    rw [hsocket]
    exact numberAt_of_recordAt hrecord
  requests := nofun

theorem Linked.serve {now : Int} {msg : AgentMessage} {toServer : List AgentMessage}
    (h : r.Linked i t kind) (hmsgs : r.toServer = msg :: toServer)
    (hstep : AgentSocket.packetHandling ext now i r.server msg = some s') :
    Linked i t kind { r with server := s', toServer } := by
  have hextends : RecordsExtend r.server.store s'.store :=
    Server.extends_step (e := .agent i now msg) h.numbered hstep
  refine ⟨hextends.1 h.numbered, h.nodup, .inr ?_⟩
  rcases h.phase with hw | hr
  · obtain ⟨ramSize, hrequest⟩ := hw.toServer
    cases hmsgs.symm.trans hrequest
    obtain ⟨jv, -, rfl⟩ := Server.agentIDRequest_eq_some hw.free hstep
    exact hw.register
  · have hrequests := hmsgs ▸ hr.requests
    obtain ⟨hlist, hsocket, -⟩ := Server.request_effect (hrequests msg List.mem_cons_self) hstep
    exact hr.mono hlist hsocket hextends.2 fun m hm => hrequests m (List.mem_cons_of_mem _ hm)

theorem Linked.read {msg : ServerMessage} {rest : List ServerMessage} (h : r.Linked i t kind)
    (hmsgs : r.server.outbox i = msg :: rest) :
    Linked i t kind ⟨{ r.server with outbox := Function.update r.server.outbox i rest },
      (r.client.packetHandling msg).1, r.toServer ++ (r.client.packetHandling msg).2,
      r.processed ++ [msg]⟩ := by
  refine ⟨h.numbered, (r.client.query_packetHandling h.nodup msg).1, .inr ?_⟩
  rcases h.phase with hw | hr
  · cases hw.outbox.symm.trans hmsgs
  · refine hr.mono rfl rfl (fun _ _ => id) fun m hm => ?_
    exact (List.mem_append.mp hm).elim (hr.requests m)
      (AgentClientSocket.isRequest_of_sent m)

theorem Linked.step (h : r.Linked i t kind) (hstep : (machine ext i).step r e = some r') :
    r'.Linked i t kind := by
  obtain ⟨msg, response, s', -, hmsg, hweb, rfl⟩ | ⟨now, msg, toServer, s', -, hmsgs, hserve, rfl⟩ |
    ⟨msg, rest, -, hmsgs, rfl⟩ | ⟨key, members, -, -, rfl⟩ := step_cases hstep
  · exact h.web hmsg hweb
  · exact h.serve hmsgs hserve
  · exact h.read hmsgs
  · refine ⟨(Server.sameAgents_modifySet.extends (s := r.server)).1 h.numbered, h.nodup, ?_⟩
    exact h.phase.imp (fun hw => ⟨hw.1, hw.2, hw.3, hw.4, hw.5, hw.6, hw.7⟩) fun hr =>
      ⟨hr.1, hr.2, hr.3⟩

/-! ## What an event does to the lists -/

omit [DecidableEq ι] in
theorem InStep.imp {answered' : Prop} (h : r.InStep json i kind answered)
    (ha : answered' → answered) : r.InStep json i kind answered' := Replica.Follows.imp h ha

/-- The commands of the web do not answer. -/
theorem answered_web_iff {msg : WebMessage} {response : Option WebResponse}
    (hweb : WebCommandSocket.packetHandling ext.json r.server msg = some (response, s')) :
    Answered i kind { r with server := s' } ↔ r.Answered i kind := by
  obtain ⟨msgs, houtbox, hcommand, -⟩ := (Server.webEffect_web hweb).outbox i
  unfold Answered
  rw [houtbox, ← List.append_assoc]
  constructor
  · rintro ⟨m, hm, hanswer⟩
    rcases List.mem_append.mp hm with hm | hm
    · exact ⟨m, hm, hanswer⟩
    · exact absurd (hcommand m hm) hanswer.not_isCommand
  · rintro ⟨m, hm, hanswer⟩
    exact ⟨m, List.mem_append_left _ hm, hanswer⟩

/-- A command that removes nothing from the list keeps it in step. -/
theorem InStep.web {msg : WebMessage} {response : Option WebResponse} (hr : r.Linked i t kind)
    (h : r.InStep ext.json i kind answered) (hwaiting : r.Waiting i t kind → ¬answered)
    (hmsg : msg.token? ≠ some (-1)) (hremoves : ¬RemovesFrom i kind r (.web msg))
    (hweb : WebCommandSocket.packetHandling ext.json r.server msg = some (response, s')) :
    InStep ext.json i kind answered { r with server := s' } := by
  rcases hr.phase with hw | hreg
  · exact inStep_of_empty (hw.web hmsg hweb).view_eq (hwaiting hw)
  · have hfit := Server.Fits.web h (fun token _ => hreg.own hr.numbered token) hremoves hweb
    rw [InStep, (Server.webEffect_web hweb).socket]
    exact hfit

/-- An event that removes no counters from a list keeps it in step, and an answer brings it up to
date. -/
theorem InStep.step (hr : r.Linked i t kind) (h : r.InStep ext.json i kind answered)
    (hwaiting : r.Waiting i t kind → ¬answered) (hremoves : ¬RemovesFrom i kind r e)
    (hstep : (machine ext i).step r e = some r') :
    ∃ asked : Prop, (r'.Answered i kind → r.Answered i kind ∨ asked) ∧
      r'.InStep ext.json i kind (answered ∨ asked) := by
  obtain ⟨msg, response, s', rfl, hmsg, hweb, rfl⟩ | ⟨now, msg, toServer, s', -, hmsgs, hserve, rfl⟩ |
    ⟨msg, rest, -, hmsgs, rfl⟩ | ⟨key, members, -, hperm, rfl⟩ := step_cases hstep
  · exact ⟨False, fun ha => .inl ((answered_web_iff hweb).mp ha),
      (h.web hr hwaiting hmsg hremoves hweb).imp (or_false _).mp⟩
  · rcases hr.phase with hw | hreg
    · obtain ⟨ramSize, hrequest⟩ := hw.toServer
      cases hmsgs.symm.trans hrequest
      obtain ⟨jv, -, rfl⟩ := Server.agentIDRequest_eq_some hw.free hserve
      have houtbox : (r.server.registered i t t jv).outbox i =
          [.agentIDResponse jv.agentNumber false] := by
        simp [Server.registered, Server.setSocket, Server.send, hw.outbox]
      refine ⟨False, ?_, inStep_of_empty ?_ fun ha => hwaiting hw (ha.resolve_right id)⟩
      · rintro ⟨m, hm, hanswer⟩
        rw [houtbox, hw.processed, List.nil_append, List.mem_singleton] at hm
        subst hm
        cases kind <;> cases hanswer
      · rw [view, houtbox, hw.empty]
        rfl
    · have hmsg := hreg.requests msg (hmsgs ▸ List.mem_cons_self)
      obtain ⟨-, hsocket, msgs, houtbox, hasks⟩ := Server.request_effect hmsg hserve
      refine ⟨msg.Asks kind, ?_, ?_⟩
      · rintro ⟨m, hm, hanswer⟩
        rw [houtbox, ← List.append_assoc] at hm
        exact (List.mem_append.mp hm).imp (fun hm => ⟨m, hm, hanswer⟩)
          fun hm => hasks kind ⟨m, hm, hanswer⟩
      · rw [InStep, hsocket]
        exact Server.Fits.request h rfl hmsg hserve
  · refine ⟨False, ?_, ?_⟩
    · rintro ⟨m, hm, hanswer⟩
      refine .inl ⟨m, ?_, hanswer⟩
      rw [hmsgs]
      simpa using hm
    · -- the message leaves the outbox and is handled
      have hview : replay ((Function.update r.server.outbox i rest i).map (·.update kind))
          ((r.client.packetHandling msg).1.query.content kind) = r.view i kind := by
        rw [Function.update_self, view, hmsgs, (r.client.query_packetHandling hr.nodup msg).2]
        rfl
      refine InStep.imp ?_ (or_false _).mp
      change Replica.Follows _ _ _ (replay ((Function.update r.server.outbox i rest i).map _) _)
      rw [hview]
      exact h
  · refine ⟨False, .inl, InStep.imp ?_ (or_false _).mp⟩
    rw [InStep, Server.Fits, Server.stored_reorder hperm]
    exact h

/-! ## Runs -/

/-- A client of token `t` connects: no listed socket has the token, and the server has come from a
store in which the agents are numbered. -/
structure Connects (ext : Externals) (i : ι) (t : Int) (s : Server ι) : Prop where
  reached : ∃ store es, RecordsNumbered store ∧ (Server.machine ext).run (.init store) es = some s
  new : i ∉ s.agentList
  free : ∀ j ∈ s.agentList, (s.socket j).token ≠ t
  token : t ≠ -1

variable {client : AgentClientSocket} {ramSize : BitVec 64}

theorem Connects.waiting (h : Connects ext i t s) (hempty : client.query.list kind = []) :
    Waiting i t kind (init (AgentSocket.acceptProcess false i s) client t ramSize) := by
  refine ⟨List.mem_append_right _ List.mem_cons_self, ?_, ?_, ?_, rfl, ⟨ramSize, rfl⟩, ?_⟩
  · simp [init, AgentSocket.acceptProcess, Server.setSocket]
  · refine List.find?_eq_none.mpr fun j hj => ?_
    by_cases hji : j = i
    · simp [init, AgentSocket.acceptProcess, Server.setSocket, hji, h.token.symm]
    · have hj : j ∈ s.agentList := (List.mem_append.mp hj).resolve_right (by simpa using hji)
      simp [init, AgentSocket.acceptProcess, Server.setSocket, hji, Server.addAgent, h.free j hj]
  · simp [init, AgentSocket.acceptProcess]
  · change {x | x ∈ client.query.list kind} = ∅
    rw [hempty]
    simp

theorem Connects.linked (h : Connects ext i t s) (hempty : client.query.list kind = []) :
    Linked i t kind (init (AgentSocket.acceptProcess false i s) client t ramSize) := by
  obtain ⟨store, es, hstore, hrun⟩ := h.reached
  have hs : RecordsNumbered s.store := Server.numbered_run hstore hrun
  refine ⟨hs, ?_, .inl (h.waiting hempty)⟩
  change (client.query.list kind).Nodup
  rw [hempty]
  exact List.nodup_nil

omit [DecidableEq ι] in
theorem Waiting.inStep (h : r.Waiting i t kind) : r.InStep json i kind (r.Answered i kind) :=
  inStep_of_empty h.view_eq h.not_answered

omit [DecidableEq ι] in
/-- The stored set of the token's record. -/
theorem Linked.stored (h : r.Linked i t kind) (hanswered : r.Answered i kind) :
    ∃ jv, recordAt r.server.store t = some jv ∧ jv.agentNumber = (r.server.socket i).agentID := by
  rcases h.phase with hw | hr
  · exact absurd hanswered hw.not_answered
  · exact h.numbered.numberAt_decimal_iff.mp hr.number

omit [DecidableEq ι] in
theorem view_of_read (hread : r.server.outbox i = []) :
    r.view i kind = r.client.query.content kind := by
  rw [view, hread]
  rfl

/-! ## The list of processes -/

/-- Every event keeps the list of processes in step. -/
theorem run_inStep_process (hs : r.Linked i t .process)
    (h : r.InStep ext.json i .process (r.Answered i .process)) {es : List LinkEvent}
    (hrun : (machine ext i).run r es = some r') :
    r'.Linked i t .process ∧ r'.InStep ext.json i .process (r'.Answered i .process) := by
  refine EventMachine.run_invariant (I := fun r => r.Linked i t .process ∧
    r.InStep ext.json i .process (r.Answered i .process)) ?_ ⟨hs, h⟩ hrun
  rintro r e r' ⟨hs, h⟩ hstep
  have hremoves : ¬RemovesFrom i .process r e := fun h =>
    let ⟨_, _, _, _, _, hkind⟩ := h.eq
    nomatch hkind
  obtain ⟨asked, hasked, h'⟩ := h.step hs (fun hw => hw.not_answered) hremoves hstep
  exact ⟨hs.step hstep, h'.imp hasked⟩

/-- When the client has handled its `ProcessListResponse` and all else it was sent, its list of
processes is the stored set, without duplicates. -/
theorem checkProcessList_replicates (hs : Connects ext i t s)
    (hclient : client.query.checkProcessList = []) {es : List LinkEvent}
    (hrun : (machine ext i).run
      (init (AgentSocket.acceptProcess false i s) client t ramSize) es = some r)
    (hread : r.server.outbox i = [])
    (hanswered : ∃ names, ServerMessage.processListResponse names ∈ r.processed) :
    ∃ jv, recordAt r.server.store t = some jv ∧ r.client.query.checkProcessList.Nodup ∧
      ∀ x, x ∈ r.client.query.checkProcessList ↔
        x ∈ r.server.store.set (processListKey jv.agentNumber) := by
  have hempty : client.query.list .process = [] := hclient
  obtain ⟨hlinked, hin⟩ := run_inStep_process (hs.linked hempty) (hs.waiting hempty).inStep hrun
  obtain ⟨names, hnames⟩ := hanswered
  have hans : r.Answered i .process := ⟨_, List.mem_append_left _ hnames, trivial⟩
  obtain ⟨jv, hjv, hnumber⟩ := hlinked.stored hans
  refine ⟨jv, hjv, hlinked.nodup, fun x => ?_⟩
  have hview : r.view i .process = _ := hin.eq hans
  rw [view_of_read hread] at hview
  rw [hnumber]
  refine (Set.ext_iff.mp hview x).trans ?_
  simp [readings, ListKind.read, Server.stored, ListKind.key]

/-- A name is added between the request for the list and the response. -/
def addWhileAsked : List LinkEvent :=
  [.serve 0, .read, .web (.processCommandRequest 7 .addList (ascii "w3wp")), .serve 0, .read, .read]

theorem checkProcessList_replicates_added : ∃ r : AgentLink Nat,
    (machine (.ofTexts []) 0).run
      (init (AgentSocket.acceptProcess false 0 (.init Store.empty)) {} 7 0#64) addWhileAsked =
        some r ∧
    ∃ jv, recordAt r.server.store 7 = some jv ∧ r.client.query.checkProcessList.Nodup ∧
      ∀ x, x ∈ r.client.query.checkProcessList ↔
        x ∈ r.server.store.set (processListKey jv.agentNumber) := by
  have hconnects : Connects (.ofTexts []) 0 7 (.init Store.empty) :=
    ⟨⟨Store.empty, [], recordsNumbered_empty rfl, rfl⟩, nofun, nofun, by decide⟩
  obtain ⟨r, hrun, hread, hanswered⟩ : ∃ r : AgentLink Nat, (machine (.ofTexts []) 0).run
      (init (AgentSocket.acceptProcess false 0 (.init Store.empty)) {} 7 0#64) addWhileAsked =
        some r ∧ r.server.outbox 0 = [] ∧
      ∃ names, ServerMessage.processListResponse names ∈ r.processed :=
    ⟨_, rfl, rfl, _, List.mem_cons_of_mem _ (List.mem_cons_of_mem _ List.mem_cons_self)⟩
  exact ⟨r, hrun, checkProcessList_replicates hconnects rfl hrun hread hanswered⟩

end

end AgentLink

end PSM
