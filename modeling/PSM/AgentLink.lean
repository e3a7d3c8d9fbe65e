import PSM.AgentClient
import PSM.AgentState

/-! One client, the server, and the messages in flight between them.

The server handles web commands and the client's packets in any order, and the client handles what
it is sent in order. For each list of the client there are three things to relate: the set that the
server stores, the list as it will be when the messages in flight have arrived (`view`), and whether
the server has sent the set as a whole (`Answered`). -/

namespace PSM
open ByteStr Redis RedisManager Replica

/-! ## The lists of the server -/

namespace ListKind

/-- The key of the set that a list replicates. -/
def key (agentID : Int) : ListKind → ByteStr
  | process => processListKey agentID
  | counter isMachine => counterListKey agentID isMachine

/-- What the client keeps for a member of the set. -/
def read (json : JsonCpp) : ListKind → ByteStr → Option ByteStr
  | process, v => some v
  | counter _, v => (json.counter? v).map CounterJson.counter

/-- The message is the response that sends the whole list. -/
def AnsweredBy : ListKind → ServerMessage → Prop
  | process, .processListResponse _ => True
  | counter isMachine, .counterListResponse isMachine' _ => isMachine' = isMachine
  | _, _ => False

theorem AnsweredBy.not_isCommand {kind : ListKind} {msg : ServerMessage} (h : kind.AnsweredBy msg) :
    ¬msg.IsCommand := by
  cases msg <;> first | exact id | (cases kind <;> cases h)

theorem key_inj {m n : Int} {kind kind' : ListKind} :
    kind.key m = kind'.key n ↔ m = n ∧ kind = kind' := by
  have hkey (n : Int) (kind : ListKind) : kind.key n = agentKey n (match kind with
      | process => ascii "ProcessList"
      | counter isMachine => if isMachine then ascii "MachineCounterList"
        else ascii "CounterList") := by
    cases kind <;> rfl
  rw [hkey, hkey, agentKey, agentKey, decimal_colon_inj]
  refine and_congr_right fun _ => ⟨fun h => ?_, fun h => h ▸ rfl⟩
  rcases kind with _ | _ | _ <;> rcases kind' with _ | _ | _ <;> first | rfl | exact absurd h (by decide)

end ListKind

namespace Server

variable {ι : Type}

/-- The members of the set that a list replicates. -/
def stored (agentID : Int) (kind : ListKind) (s : Server ι) : Set ByteStr :=
  {v | v ∈ s.store.set (kind.key agentID)}

/-- What the list of a client becomes when it gets what is in the outbox. -/
def replayed (i : ι) (kind : ListKind) (content : Set ByteStr) (s : Server ι) : Set ByteStr :=
  replay ((s.outbox i).map (·.update kind)) content

/-- The list of a client will follow the stored set. -/
def Fits (json : JsonCpp) (agentID : Int) (i : ι) (kind : ListKind) (content : Set ByteStr)
    (answered : Prop) (s : Server ι) : Prop :=
  Replica.Follows (kind.read json) (s.stored agentID kind) answered (s.replayed i kind content)

variable [DecidableEq ι] {s s' : Server ι} {i : ι} {json : JsonCpp} {agentID token : Int}
  {kind : ListKind} {content : Set ByteStr} {answered : Prop} {msg : ServerMessage}
  {socket : Option ι} {key v x : ByteStr} {f : MemberSet → MemberSet}

theorem replayed_sendTo : (s.sendTo socket msg).replayed i kind content =
    if socket = some i then (msg.update kind).apply (s.replayed i kind content)
    else s.replayed i kind content := by
  cases socket with
  | none => rfl
  | some j =>
    by_cases h : j = i
    · subst h
      simp [sendTo, send, replayed, replay_append]
    · have h' : ¬i = j := fun e => h e.symm
      simp [sendTo, send, replayed, h, h']

theorem sendTo_some : s.sendTo (some i) msg = s.send i msg := rfl

omit [DecidableEq ι] in
theorem stored_modifySet_self :
    (s.modifySet (kind.key agentID) f).stored agentID kind =
      {v | v ∈ f (s.store.set (kind.key agentID))} := by
  simp [stored, modifySet]

omit [DecidableEq ι] in
theorem stored_modifySet_of_ne (h : kind.key agentID ≠ key) :
    (s.modifySet key f).stored agentID kind = s.stored agentID kind := by
  simp [stored, modifySet, Store.modifySet_set_of_ne h]

omit [DecidableEq ι] in
theorem stored_reorder {members : MemberSet} (h : (s.store.set key).members.Perm members.members) :
    (s.modifySet key fun _ => members).stored agentID kind = s.stored agentID kind := by
  by_cases hkey : kind.key agentID = key
  · subst hkey
    rw [stored_modifySet_self]
    ext v
    exact h.mem_iff.symm
  · exact stored_modifySet_of_ne hkey

theorem stored_sendTo : (s.sendTo socket msg).stored agentID kind = s.stored agentID kind := by
  simp [stored]

/-- A member is added and the client is told. -/
theorem Fits.add (h : s.Fits json agentID i kind content answered)
    (hread : kind.read json v = some x) (hmsg : msg.update kind = .add [x]) :
    ((s.modifySet (kind.key agentID) (·.add v)).sendTo (some i) msg).Fits json agentID i kind
      content answered := by
  have hstored : ((s.modifySet (kind.key agentID) (·.add v)).sendTo (some i) msg).stored agentID
      kind = insert v (s.stored agentID kind) := by
    rw [stored_sendTo, stored_modifySet_self]
    ext w
    exact MemberSet.mem_add
  rw [Fits, hstored, replayed_sendTo, if_pos rfl, hmsg, Update.apply_add_singleton]
  exact Replica.Follows.add h hread

omit [DecidableEq ι] in
theorem Fits.modifySet_of_ne (h : s.Fits json agentID i kind content answered)
    (hkey : kind.key agentID ≠ key) :
    (s.modifySet key f).Fits json agentID i kind content answered := by
  rw [Fits, stored_modifySet_of_ne hkey]
  exact h

/-- Another set changes, and the client is told nothing about this list. -/
theorem Fits.other (h : s.Fits json agentID i kind content answered)
    (hkey : kind.key agentID ≠ key) (hmsg : socket = some i → msg.update kind = .keep) :
    ((s.modifySet key f).sendTo socket msg).Fits json agentID i kind content answered := by
  have h' := h.modifySet_of_ne (f := f) hkey
  rw [Fits, stored_sendTo, replayed_sendTo]
  split
  · rename_i hsocket
    rw [hmsg hsocket]
    exact h'
  · exact h'

/-- The client is told something that does not concern the list. -/
theorem Fits.told (h : s.Fits json agentID i kind content answered) (hmsg : msg.update kind = .keep) :
    (s.send i msg).Fits json agentID i kind content answered := by
  rw [← sendTo_some, Fits, stored_sendTo, replayed_sendTo, if_pos rfl, hmsg]
  exact h

/-- A member is removed whose reading no other member has, and the client is told. -/
theorem Fits.remove (h : s.Fits json agentID i kind content answered)
    (hread : kind.read json v = some x) (hinj : ∀ w, kind.read json w = some x → w = v)
    (hmsg : msg.update kind = .remove x) :
    ((s.modifySet (kind.key agentID) (·.remove v)).sendTo (some i) msg).Fits json agentID i kind
      content answered := by
  have hstored : ((s.modifySet (kind.key agentID) (·.remove v)).sendTo (some i) msg).stored agentID
      kind = s.stored agentID kind \ {v} := by
    rw [stored_sendTo, stored_modifySet_self]
    ext w
    exact MemberSet.mem_remove
  rw [Fits, hstored, replayed_sendTo, if_pos rfl, hmsg]
  exact Replica.Follows.remove h hread fun w _ => hinj w

omit [DecidableEq ι] in
theorem modifySet_eq_self (h : f (s.store.set key) = s.store.set key) : s.modifySet key f = s := by
  simp only [modifySet, Store.modifySet_eq_self h]

/-! ### Web commands -/

omit [DecidableEq ι] in
theorem Fits.setWebMap {m : CounterNameMap} (h : s.Fits json agentID i kind content answered) :
    (s.setWebMap m).Fits json agentID i kind content answered := h

/-- The list of processes follows every process command, for this agent or another. -/
theorem Fits.processCommand {type : ProcessCommandType} {name : ByteStr} {b : Bool}
    (h : s.Fits json agentID i kind content answered)
    (hown : agentIDAt s.store token = some agentID ↔ s.getAgentSocketByToken token = some i)
    (hcommand : WebCommandSocket.processCommand token type name s = some (b, s')) :
    s'.Fits json agentID i kind content answered := by
  -- a list with another key is a list of counters, if the command is for this client
  have hkeep : ∀ {agentID' type'}, agentIDAt s.store token = some agentID' →
      kind.key agentID ≠ ListKind.process.key agentID' →
      s.getAgentSocketByToken token = some i →
      (ServerMessage.processCommandRequest type' name).update kind = .keep := by
    intro agentID' type' hID hkey hsocket
    cases hID.symm.trans (hown.mpr hsocket)
    cases kind with
    | process => exact absurd rfl hkey
    | counter => cases type' <;> rfl
  cases type with
  | addList =>
    rw [processCommand_addList_eq] at hcommand
    obtain ⟨agentID', hID, heq⟩ := Option.map_eq_some_iff.mp hcommand
    cases heq
    split
    · by_cases hkey : kind.key agentID = ListKind.process.key agentID'
      · obtain ⟨rfl, rfl⟩ := ListKind.key_inj.mp hkey
        rw [hown.mp hID]
        exact h.add rfl rfl
      · exact h.other hkey (hkeep hID hkey)
    · rename_i hmem
      rw [modifySet_eq_self (MemberSet.add_of_mem (not_not.mp hmem))]
      exact h
  | deleteList =>
    rw [processCommand_deleteList_eq] at hcommand
    obtain ⟨agentID', hID, heq⟩ := Option.map_eq_some_iff.mp hcommand
    cases heq
    split
    · by_cases hkey : kind.key agentID = ListKind.process.key agentID'
      · obtain ⟨rfl, rfl⟩ := ListKind.key_inj.mp hkey
        rw [hown.mp hID]
        exact h.remove rfl (fun w hw => Option.some.inj hw) rfl
      · exact h.other hkey (hkeep hID hkey)
    · rename_i hmem
      rw [modifySet_eq_self (MemberSet.remove_of_notMem hmem)]
      exact h
  | _ =>
    obtain ⟨_, -, -, rfl⟩ := eq_of_processCommand hcommand (by decide) (by decide)
    exact h

/-- A command adds to this list, or it is about another one. -/
theorem Fits.counterCommand {agentID' : Int} {isMachine : Bool} {type : CounterCommandType}
    {name : ByteStr} {b : Bool} (h : s.Fits json agentID i kind content answered)
    (hown : agentID' = agentID ↔ socket = some i)
    (htype : type = .cAddList ∨ kind.key agentID ≠ (ListKind.counter isMachine).key agentID')
    (hcommand : WebCommandSocket.counterCommand json agentID' socket isMachine type name s =
      some (b, s')) : s'.Fits json agentID i kind content answered := by
  -- what another list of the same client is told is nothing to this one
  have hkeep (type : CounterCommandType) (x : ByteStr)
      (hkey : kind.key agentID ≠ (ListKind.counter isMachine).key agentID') (hsocket : socket = some i) :
      (ServerMessage.counterCommandRequest isMachine type x).update kind = .keep := by
    have hkind : kind ≠ .counter isMachine := by
      rintro rfl
      exact hkey (by rw [hown.mpr hsocket])
    cases type <;> exact if_neg hkind
  cases type with
  | cAddList =>
    rw [counterCommand_cAddList_eq] at hcommand
    dsimp only at hcommand
    cases hread : json.strToJson name with
    | null =>
      rw [hread] at hcommand
      cases hcommand
      exact h
    | other =>
      rw [hread] at hcommand
      cases hcommand
    | object jv =>
      rw [hread] at hcommand
      dsimp only at hcommand
      split at hcommand
      · cases hcommand
        exact h.setWebMap
      · cases hcommand
        refine Fits.setWebMap ?_
        by_cases hkey : kind.key agentID = (ListKind.counter isMachine).key agentID'
        · obtain ⟨rfl, rfl⟩ := ListKind.key_inj.mp hkey
          rw [hown.mp rfl]
          have hname : (ListKind.counter isMachine).read json name = some jv.counter := by
            simp only [ListKind.read, JsonCpp.counter?, hread, Option.map_some]
          exact h.add hname (if_pos rfl)
        · exact h.other hkey (hkeep _ _ hkey)
  | cDeleteList =>
    have hkey := htype.resolve_left (by simp)
    rw [counterCommand_cDeleteList_eq] at hcommand
    obtain ⟨removed, -, heq⟩ := Option.map_eq_some_iff.mp hcommand
    rcases removed with _ | ⟨value, jv⟩ <;> cases heq
    · exact h
    · exact h.other hkey (hkeep _ _ hkey)

theorem Fits.counterCommands {agentID' : Int} {isMachine : Bool} {type : CounterCommandType}
    {names : List ByteStr} {b : Bool} (h : s.Fits json agentID i kind content answered)
    (hown : agentID' = agentID ↔ socket = some i)
    (htype : type = .cAddList ∨ kind.key agentID ≠ (ListKind.counter isMachine).key agentID')
    (hcommands : WebCommandSocket.counterCommands json agentID' socket isMachine type names s =
      some (b, s')) : s'.Fits json agentID i kind content answered := by
  induction names generalizing s b with
  | nil => cases hcommands; exact h
  | cons name names ih =>
    obtain ⟨⟨done, t⟩, hone, hcommands⟩ := Option.bind_eq_some_iff.mp hcommands
    obtain ⟨⟨resultv, t'⟩, hrest, heq⟩ := Option.bind_eq_some_iff.mp hcommands
    cases heq
    exact ih (h.counterCommand hown htype hone) hrest

/-- The command removes counters from the given list of the agent with this number. -/
def RemovesFrom (s : Server ι) (agentID : Int) (kind : ListKind) : WebMessage → Prop
  | .counterCommandRequest token isMachine .cDeleteList _ =>
    agentIDAt s.store token = some agentID ∧ kind = .counter isMachine
  | _ => False

/-- A list follows every web command but those that remove counters from it. -/
theorem Fits.web {msg : WebMessage} {response : Option WebResponse}
    (h : s.Fits json agentID i kind content answered)
    (hown : ∀ token, msg.token? = some token →
      (agentIDAt s.store token = some agentID ↔ s.getAgentSocketByToken token = some i))
    (hremoves : ¬s.RemovesFrom agentID kind msg)
    (hweb : WebCommandSocket.packetHandling json s msg = some (response, s')) :
    s'.Fits json agentID i kind content answered := by
  cases msg with
  | healthAck => cases hweb; exact h
  | invalid => cases hweb; exact h
  | processCommandRequest token type name =>
    obtain ⟨⟨result, t⟩, hcommand, heq⟩ := Option.bind_eq_some_iff.mp hweb
    cases heq
    exact h.processCommand (hown token rfl) hcommand
  | counterCommandRequest token isMachine type names =>
    obtain ⟨agentID', b, hID, -, hcommands⟩ := counterCommandRequest_cases hweb
    refine h.counterCommands ?_ ?_ hcommands
    · rw [← hown token rfl, hID, Option.some.injEq]
    · cases type with
      | cAddList => exact .inl rfl
      | cDeleteList =>
        refine .inr fun hkey => hremoves ?_
        obtain ⟨rfl, rfl⟩ := ListKind.key_inj.mp hkey
        exact ⟨hID, rfl⟩

/-! ### List requests -/

/-- The whole stored set is sent. -/
theorem Fits.answer (h : s.Fits json agentID i kind content answered) {xs : List ByteStr}
    (hxs : ∀ x, x ∈ xs ↔ x ∈ readings (kind.read json) (s.stored agentID kind))
    (hmsg : msg.update kind = .add xs) :
    (s.send i msg).Fits json agentID i kind content True := by
  rw [← sendTo_some, Fits, stored_sendTo, replayed_sendTo, if_pos rfl, hmsg]
  exact Replica.Follows.answer h hxs

/-- The set is empty, and is filled, and all of it is sent. -/
theorem Fits.fill (h : s.Fits json agentID i kind content answered) {texts xs : List ByteStr}
    (hempty : (s.store.set (kind.key agentID)).members = [])
    (hxs : ∀ x, x ∈ xs ↔ ∃ v ∈ texts, kind.read json v = some x)
    (hmsg : msg.update kind = .add xs) :
    ((s.modifySet (kind.key agentID) (texts.foldl MemberSet.add ·)).send i msg).Fits json agentID i
      kind content True := by
  rw [← sendTo_some, Fits, stored_sendTo, stored_modifySet_self, replayed_sendTo, if_pos rfl, hmsg]
  refine Replica.Follows.fill h ?_ fun x => ?_
  · ext v
    simp [stored, MemberSet.mem_def, hempty]
  · refine (hxs x).trans (exists_congr fun v => and_congr_left fun _ => ?_)
    change v ∈ texts ↔ v ∈ texts.foldl MemberSet.add (s.store.set (kind.key agentID))
    rw [MemberSet.mem_foldl_add, MemberSet.mem_def, hempty]
    simp

/-- A request answers its list. -/
theorem Fits.sendProcessListResponse (h : s.Fits json agentID i .process content answered)
    (hID : (s.socket i).agentID = agentID) (hsend : s.sendProcessListResponse i = some s') :
    s'.Fits json agentID i .process content True := by
  cases sendProcessListResponse_eq.symm.trans hsend
  subst hID
  dsimp only
  split
  · exact h.answer (fun x => by simp [readings, ListKind.read, stored, ListKind.key, MemberSet.mem_def])
      rfl
  · rename_i hempty
    exact h.fill (not_not.mp hempty) (fun x => by simp [ListKind.read]) rfl

theorem Fits.sendCounterListResponse {isMachine : Bool}
    (h : s.Fits json agentID i (.counter isMachine) content answered)
    (hID : (s.socket i).agentID = agentID)
    (hsend : s.sendCounterListResponse json i isMachine = some s') :
    s'.Fits json agentID i (.counter isMachine) content True := by
  replace hsend := sendCounterListResponse_eq.symm.trans hsend
  subst hID
  dsimp only at hsend
  split at hsend
  · obtain ⟨jvs, hjvs, rfl⟩ := Option.map_eq_some_iff.mp hsend
    refine h.answer (fun x => ?_) (if_pos rfl)
    rw [← mapM_eq_filterMap hjvs, List.mem_map]
    simp only [List.mem_filterMap]
    constructor
    · rintro ⟨jv, ⟨v, hv, hjv⟩, rfl⟩
      exact ⟨v, hv, by rw [ListKind.read, hjv, Option.map_some]⟩
    · rintro ⟨v, hv, hread⟩
      obtain ⟨jv, hjv, rfl⟩ := Option.map_eq_some_iff.mp hread
      exact ⟨jv, ⟨v, hv, hjv⟩, rfl⟩
  · rename_i hempty
    cases hsend
    refine h.fill (not_not.mp hempty) (fun x => ?_) (if_pos rfl)
    simp only [JsonCpp.defaultCounterList, List.mem_map, exists_exists_and_eq_and]
    refine exists_congr fun c => and_congr_right fun hc => ?_
    have hread : (ListKind.counter isMachine).read json (json.jsonToStr c) = some c.counter := by
      simp only [ListKind.read, JsonCpp.counter?, json.strToJson_jsonToStr isMachine c hc,
        Option.map_some]
    rw [hread, Option.some.injEq]

end Server

/-! ### The requests of a registered client -/

/-- What a client sends once it is registered, as far as its lists are concerned. -/
def AgentMessage.IsRequest : AgentMessage → Prop
  | processListRequest => True
  | counterListRequest _ => True
  | agentReady => True
  | recordResponse => True
  | _ => False

theorem AgentClientSocket.isRequest_of_sent {c : AgentClientSocket} {msg : ServerMessage} :
    ∀ m ∈ (c.packetHandling msg).2, m.IsRequest := by
  have hsend {c : AgentClientSocket} {sent : AgentMessage} (hsent : sent.IsRequest) :
      ∀ m ∈ c.sendIfConnected sent, m.IsRequest := by
    intro m hm
    unfold sendIfConnected at hm
    split at hm
    · rwa [List.mem_singleton.mp hm]
    · cases hm
  cases msg with
  | agentIDResponse agentID alreadyRunning =>
    cases alreadyRunning
    · exact hsend trivial
    · exact nofun
  | processListResponse => exact hsend trivial
  | counterListResponse isMachine =>
    cases isMachine <;> exact hsend trivial
  | startRecord => exact hsend trivial
  | processCommandRequest type => cases type <;> exact nofun
  | counterCommandRequest isMachine type => cases type <;> exact nofun

/-- The request that a list is sent. -/
def AgentMessage.Asks : AgentMessage → ListKind → Prop
  | processListRequest, .process => True
  | counterListRequest isMachine, .counter isMachine' => isMachine = isMachine'
  | _, _ => False

namespace Server

variable {ι : Type} [DecidableEq ι] {s s' : Server ι} {i : ι} {ext : Externals} {now : Int}
  {agentID : Int} {kind : ListKind} {content : Set ByteStr} {answered : Prop} {msg : AgentMessage}

theorem asks_of_processListResponse {names : List ByteStr}
    (h : kind.AnsweredBy (.processListResponse names)) :
    AgentMessage.processListRequest.Asks kind := by
  cases kind with
  | process => trivial
  | counter => exact absurd h id

theorem asks_of_counterListResponse {isMachine : Bool} {names : List ByteStr}
    (h : kind.AnsweredBy (.counterListResponse isMachine names)) :
    (AgentMessage.counterListRequest isMachine).Asks kind := by
  cases kind with
  | process => exact absurd h id
  | counter isMachine' => exact h

/-- A message that answers no more than what has been asked for. -/
theorem send_answers (s : Server ι) {m : ServerMessage}
    (h : ∀ {kind : ListKind}, kind.AnsweredBy m → msg.Asks kind) :
    (s.send i m).outbox i = s.outbox i ++ [m] ∧
      ∀ kind : ListKind, (∃ m' ∈ [m], kind.AnsweredBy m') → msg.Asks kind := by
  refine ⟨Function.update_self .., ?_⟩
  rintro kind ⟨m', hm', hanswered⟩
  rw [List.mem_singleton.mp hm'] at hanswered
  exact h hanswered

/-- A request registers nothing, and its answer is the list that it asks for. -/
theorem request_effect (hmsg : msg.IsRequest)
    (h : AgentSocket.packetHandling ext now i s msg = some s') :
    s'.agentList = s.agentList ∧ s'.socket = s.socket ∧
      ∃ msgs, s'.outbox i = s.outbox i ++ msgs ∧
        ∀ kind : ListKind, (∃ m ∈ msgs, kind.AnsweredBy m) → msg.Asks kind := by
  cases packetChange_of_packetHandling h with
  | processList => exact ⟨rfl, rfl, _, send_answers _ asks_of_processListResponse⟩
  | defaultProcesses => exact ⟨rfl, rfl, _, send_answers _ asks_of_processListResponse⟩
  | counterList => exact ⟨rfl, rfl, _, send_answers _ asks_of_counterListResponse⟩
  | defaultCounters => exact ⟨rfl, rfl, _, send_answers _ asks_of_counterListResponse⟩
  | ready =>
    refine ⟨rfl, rfl, [.startRecord true (-1) 10 1 0, .startRecord false (-1) 10 1 0], ?_, ?_⟩
    · simp [send]
    · intro kind h
      cases kind <;> simp [ListKind.AnsweredBy] at h
  | recordResponse => exact ⟨rfl, rfl, [], by simp, by simp⟩
  | _ => cases hmsg

/-- A request keeps every list in step, and from then on the one it asks for is up to date. -/
theorem Fits.request (h : s.Fits ext.json agentID i kind content answered)
    (hID : (s.socket i).agentID = agentID) (hmsg : msg.IsRequest)
    (hstep : AgentSocket.packetHandling ext now i s msg = some s') :
    s'.Fits ext.json agentID i kind content (answered ∨ msg.Asks kind) := by
  by_cases hasks : msg.Asks kind
  · have hfit : s'.Fits ext.json agentID i kind content True := by
      cases msg <;> cases kind <;> try cases hasks
      · exact h.sendProcessListResponse hID hstep
      · exact h.sendCounterListResponse hID hstep
    exact hfit.imp fun _ => trivial
  suffices hfit : s'.Fits ext.json agentID i kind content answered from
    hfit.imp fun h => h.resolve_right hasks
  have hkey {kind' : ListKind} (hkind : kind ≠ kind') :
      kind.key agentID ≠ kind'.key (s.socket i).agentID :=
    fun hkey => hkind (ListKind.key_inj.mp hkey).2
  cases packetChange_of_packetHandling hstep with
  | processList =>
    have hkind : kind ≠ .process := fun hkind => hasks (by rw [hkind]; trivial)
    exact h.told (if_neg hkind)
  | defaultProcesses =>
    have hkind : kind ≠ .process := fun hkind => hasks (by rw [hkind]; trivial)
    exact (h.modifySet_of_ne (hkey hkind)).told (if_neg hkind)
  | @counterList isMachine =>
    have hkind : kind ≠ .counter isMachine := fun hkind => hasks (by rw [hkind]; rfl)
    exact h.told (if_neg hkind)
  | @defaultCounters isMachine =>
    have hkind : kind ≠ .counter isMachine := fun hkind => hasks (by rw [hkind]; rfl)
    exact (h.modifySet_of_ne (hkey hkind)).told (if_neg hkind)
  | @ready _ store hrun =>
    obtain ⟨_, _, hrun', hset, -⟩ := recordAt_changeAgentState (s := s.store)
    cases hrun.symm.trans hrun'
    have hfit : ({ s with store } : Server ι).Fits ext.json agentID i kind content answered := by
      rw [Fits, stored, hset]
      exact h
    exact (hfit.told rfl).told rfl
  | recordResponse => exact h
  | _ => cases hmsg

end Server

/-! ## The system -/

/-- `toServer` holds what the client has sent and the server has not handled; `processed`, what the
client has handled. What the server has sent is in its outbox for the client's socket. -/
structure AgentLink (ι : Type) where
  server : Server ι
  client : AgentClientSocket
  toServer : List AgentMessage
  processed : List ServerMessage

/-- The server handles a web command or the next packet of the client, or the client handles its
next message, or a set of the store comes to be listed in another order. -/
inductive LinkEvent where
  | web (msg : WebMessage)
  | serve (now : Int)
  | read
  | reorder (key : ByteStr) (members : MemberSet)

namespace AgentLink

variable {ι : Type} [DecidableEq ι]

/-- A client has connected, and has sent its `AgentIDRequest`. -/
def init (server : Server ι) (client : AgentClientSocket) (tempAddr : Int) (ramSize : BitVec 64) :
    AgentLink ι :=
  let (client, sent) := client.connProcess false tempAddr ramSize
  ⟨server, client, sent, []⟩

/-- `i` is the client's socket on the server. -/
def step (ext : Externals) (i : ι) (r : AgentLink ι) : LinkEvent → Option (AgentLink ι)
  | .web msg =>
    if msg.token? = some (-1) then none
    else (r.server.step ext (.web msg)).map fun server => { r with server }
  | .serve now =>
    match r.toServer with
    | [] => none
    | msg :: toServer =>
      (r.server.step ext (.agent i now msg)).map fun server => { r with server, toServer }
  | .read =>
    match r.server.outbox i with
    | [] => none
    | msg :: rest =>
      let (client, sent) := r.client.packetHandling msg
      some {
        server := { r.server with outbox := Function.update r.server.outbox i rest }
        client := client
        toServer := r.toServer ++ sent
        processed := r.processed ++ [msg] }
  | .reorder key members =>
    (r.server.step ext (.reorder key members)).map fun server => { r with server }

def machine (ext : Externals) (i : ι) : EventMachine (AgentLink ι) LinkEvent := ⟨step ext i⟩

/-- What a step can be. -/
theorem step_cases {ext : Externals} {i : ι} {r r' : AgentLink ι} {e : LinkEvent}
    (h : (machine ext i).step r e = some r') :
    (∃ msg response s', e = .web msg ∧ msg.token? ≠ some (-1) ∧
      WebCommandSocket.packetHandling ext.json r.server msg = some (response, s') ∧
      r' = { r with server := s' }) ∨
    (∃ now msg toServer s', e = .serve now ∧ r.toServer = msg :: toServer ∧
      AgentSocket.packetHandling ext now i r.server msg = some s' ∧
      r' = { r with server := s', toServer }) ∨
    (∃ msg rest, e = .read ∧ r.server.outbox i = msg :: rest ∧
      r' = ⟨{ r.server with outbox := Function.update r.server.outbox i rest },
        (r.client.packetHandling msg).1, r.toServer ++ (r.client.packetHandling msg).2,
        r.processed ++ [msg]⟩) ∨
    ∃ key members, e = .reorder key members ∧
      (r.server.store.set key).members.Perm members.members ∧
      r' = { r with server := r.server.modifySet key fun _ => members } := by
  cases e with
  | web msg =>
    obtain ⟨hmsg, hstep⟩ := Option.ite_none_left_eq_some.mp h
    obtain ⟨_, hserver, rfl⟩ := Option.map_eq_some_iff.mp hstep
    obtain ⟨⟨response, s'⟩, hweb, rfl⟩ := Option.map_eq_some_iff.mp hserver
    exact .inl ⟨msg, response, s', rfl, hmsg, hweb, rfl⟩
  | serve now =>
    simp only [machine, step] at h
    split at h
    · cases h
    · rename_i msg toServer hmsgs
      obtain ⟨s', hserve, rfl⟩ := Option.map_eq_some_iff.mp h
      exact .inr (.inl ⟨now, msg, toServer, s', rfl, hmsgs, hserve, rfl⟩)
  | read =>
    cases hmsgs : r.server.outbox i with
    | nil => simp [machine, step, hmsgs] at h
    | cons msg rest =>
      simp only [machine, step, hmsgs, Option.some.injEq] at h
      exact .inr (.inr (.inl ⟨msg, rest, rfl, rfl, h.symm⟩))
  | reorder key members =>
    obtain ⟨_, hreorder, rfl⟩ := Option.map_eq_some_iff.mp h
    obtain ⟨hperm, heq⟩ := Option.ite_none_right_eq_some.mp hreorder
    exact .inr (.inr (.inr ⟨key, members, rfl, hperm, by rw [← Option.some.inj heq]; rfl⟩))

/-- The server has sent the list as a whole. -/
def Answered (i : ι) (kind : ListKind) (r : AgentLink ι) : Prop :=
  ∃ msg ∈ r.processed ++ r.server.outbox i, kind.AnsweredBy msg

/-- The client when it has handled all messages in flight. -/
def caughtUp (i : ι) (r : AgentLink ι) : AgentClientSocket :=
  (r.server.outbox i).foldl (fun c msg => (c.packetHandling msg).1) r.client

/-- Its lists, as sets. -/
def view (i : ι) (kind : ListKind) (r : AgentLink ι) : Set ByteStr :=
  replay ((r.server.outbox i).map (·.update kind)) (r.client.query.content kind)

omit [DecidableEq ι] in
/-- The lists of a client that has caught up are the views. -/
theorem mem_caughtUp {i : ι} {kind : ListKind} {r : AgentLink ι}
    (h : (r.client.query.list kind).Nodup) (x : ByteStr) :
    x ∈ (r.caughtUp i).query.list kind ↔ x ∈ r.view i kind := by
  unfold caughtUp view
  generalize r.server.outbox i = msgs
  generalize r.client = c at h ⊢
  induction msgs generalizing c with
  | nil => rfl
  | cons msg msgs ih =>
    have hone := c.query_packetHandling h msg
    rw [List.foldl_cons, ih _ hone.1, hone.2]
    rfl

end AgentLink

end PSM
