import PSM.ListReplication

/-! The client's lists of counters.

The server stores texts, a command removes the first text of a name, and the client is told the
counter of the text. So a list stays in step exactly as long as no text that is left has the counter
of one that a command removes (`KeepsCounterList`). -/

namespace PSM
open ByteStr Redis RedisManager Replica

/-! ## Removing by name -/

/-- The rounds of a `CDELETELIST`: the counters of the members that it removes, and the members that
are left. -/
def JsonCpp.removeNamed (json : JsonCpp) :
    List ByteStr → MemberSet → Option (List ByteStr × MemberSet)
  | [], members => some ([], members)
  | name :: names, members => do
    match ← json.firstNamed name members.members with
    | some (value, jv) =>
      let (removed, left) ← json.removeNamed names (members.remove value)
      some (jv.counter :: removed, left)
    | none => json.removeNamed names members

section
variable {json : JsonCpp} {name value : ByteStr} {jv : CounterJson} {names removed : List ByteStr}
  {members left : MemberSet}

theorem JsonCpp.counter?_of_firstNamed {v : List ByteStr}
    (h : json.firstNamed name v = some (some (value, jv))) : json.counter? value = some jv := by
  induction v with
  | nil => cases h
  | cons w v ih =>
    unfold firstNamed at h
    split at h
    · rename_i jv' hw
      split at h
      · cases h
        exact hw
      · exact ih h
    · cases h

/-- Members that are left were there, and of those that are not the counter is in the list. -/
theorem JsonCpp.removeNamed_spec (h : json.removeNamed names members = some (removed, left)) :
    (∀ v ∈ left, v ∈ members) ∧
      ∀ v ∈ members, v ∉ left → ∃ x ∈ removed, (json.counter? v).map CounterJson.counter = some x := by
  induction names generalizing members removed with
  | nil =>
    cases h
    exact ⟨fun _ hv => hv, fun _ hv hv' => absurd hv hv'⟩
  | cons name names ih =>
    obtain ⟨found, hfound, h⟩ := Option.bind_eq_some_iff.mp h
    rcases found with _ | ⟨value, jv⟩
    · exact ih h
    · obtain ⟨⟨removed', left'⟩, hrest, heq⟩ := Option.bind_eq_some_iff.mp h
      cases heq
      obtain ⟨hsub, hgone⟩ := ih hrest
      refine ⟨fun v hv => (MemberSet.mem_remove.mp (hsub v hv)).1, fun v hv hv' => ?_⟩
      by_cases hvalue : v = value
      · subst hvalue
        exact ⟨jv.counter, List.mem_cons_self, by rw [counter?_of_firstNamed hfound, Option.map_some]⟩
      · obtain ⟨x, hx, hread⟩ := hgone v (MemberSet.mem_remove.mpr ⟨hv, hvalue⟩) hv'
        exact ⟨x, List.mem_cons_of_mem _ hx, hread⟩

end

namespace Server
variable {ι : Type} [DecidableEq ι]

/-- What the rounds do to the list that they remove from. -/
theorem counterCommands_cDeleteList {json : JsonCpp} {agentID : Int} {i : ι} {isMachine b : Bool}
    {names : List ByteStr} {s s' : Server ι} (content : Set ByteStr)
    (h : WebCommandSocket.counterCommands json agentID (some i) isMachine .cDeleteList names s =
      some (b, s')) :
    ∃ removed left,
      json.removeNamed names (s.store.set (counterListKey agentID isMachine)) = some (removed, left) ∧
      s'.stored agentID (.counter isMachine) = {v | v ∈ left} ∧
      s'.replayed i (.counter isMachine) content =
        s.replayed i (.counter isMachine) content \ {x | x ∈ removed} := by
  induction names generalizing s b with
  | nil =>
    cases h
    exact ⟨[], _, rfl, rfl, by simp⟩
  | cons name names ih =>
    obtain ⟨⟨done, t⟩, hone, h⟩ := Option.bind_eq_some_iff.mp h
    obtain ⟨⟨resultv, t'⟩, hrest, heq⟩ := Option.bind_eq_some_iff.mp h
    cases heq
    rw [counterCommand_cDeleteList_eq] at hone
    obtain ⟨found, hfound, heq⟩ := Option.map_eq_some_iff.mp hone
    obtain ⟨removed, left, hremoved, hstored, hreplayed⟩ := ih hrest
    rcases found with _ | ⟨value, jv⟩ <;> cases heq
    · refine ⟨removed, left, ?_, hstored, hreplayed⟩
      rw [JsonCpp.removeNamed, hfound]
      exact hremoved
    · refine ⟨jv.counter :: removed, left, ?_, hstored, ?_⟩
      · rw [sendTo_store] at hremoved
        simp only [modifySet, Store.modifySet_set_self] at hremoved
        rw [JsonCpp.removeNamed, hfound]
        simp [hremoved]
      · have hupdate : (ServerMessage.counterCommandRequest isMachine .cDeleteList jv.counter).update
            (.counter isMachine) = .remove jv.counter := if_pos rfl
        rw [hreplayed, replayed_sendTo, if_pos rfl, hupdate]
        ext x
        simp [Update.apply, replayed, modifySet, and_assoc]

end Server

/-! ## The condition -/

namespace AgentLink

variable {ι : Type} [DecidableEq ι]

/-- Once the list has been answered, and the client has caught up, it holds the counters of the
stored texts. -/
def CounterListReplicates (json : JsonCpp) (i : ι) (isMachine : Bool) (r : AgentLink ι) : Prop :=
  r.Answered i (.counter isMachine) → ∀ x, x ∈ (r.caughtUp i).query.list (.counter isMachine) ↔
    ∃ v ∈ r.server.store.set (counterListKey (r.server.socket i).agentID isMachine),
      (json.counter? v).map CounterJson.counter = some x

/-- If the event is a command that removes counters from the answered list, no member that is left
has the counter of one that is removed. -/
def KeepsCounterList (json : JsonCpp) (i : ι) (isMachine : Bool) (r : AgentLink ι) :
    LinkEvent → Prop
  | .web (.counterCommandRequest token isMachine' .cDeleteList names) =>
    isMachine' = isMachine → r.server.getAgentSocketByToken token = some i →
    r.Answered i (.counter isMachine) → ∀ removed left,
      json.removeNamed names (r.server.store.set
        (counterListKey (r.server.socket i).agentID isMachine)) = some (removed, left) →
      ∀ v ∈ left, ∀ x, (json.counter? v).map CounterJson.counter = some x → x ∉ removed
  | _ => True

section
variable {ext : Externals} {i : ι} {t : Int} {isMachine : Bool} {r r' : AgentLink ι}
  {e : LinkEvent} {s : Server ι} {client : AgentClientSocket} {ramSize : BitVec 64}

omit [DecidableEq ι] in
theorem counterListReplicates_iff (hr : r.Linked i t (.counter isMachine))
    (h : r.InStep ext.json i (.counter isMachine) False) :
    r.CounterListReplicates ext.json i isMachine ↔
      r.InStep ext.json i (.counter isMachine) (r.Answered i (.counter isMachine)) := by
  constructor
  · intro hrep
    refine ⟨h.sub, fun ha x ⟨v, hv, hread⟩ => ?_⟩
    exact (mem_caughtUp hr.nodup x).mp ((hrep ha x).mpr ⟨v, hv, hread⟩)
  · intro hin ha x
    rw [mem_caughtUp hr.nodup]
    exact Set.ext_iff.mp (hin.eq ha) x

/-- What a command that removes counters from the client's list does to it. -/
theorem removes_effect {token : Int} {names : List ByteStr} {response : Option WebResponse}
    {s' : Server ι} (hs : RecordsNumbered r.server.store) (hreg : r.Registered i t)
    (hown : agentIDAt r.server.store token = some (r.server.socket i).agentID)
    (hweb : WebCommandSocket.packetHandling ext.json r.server
      (.counterCommandRequest token isMachine .cDeleteList names) = some (response, s')) :
    ∃ removed left,
      ext.json.removeNamed names (r.server.store.set
        (counterListKey (r.server.socket i).agentID isMachine)) = some (removed, left) ∧
      ∀ answered, InStep ext.json i (.counter isMachine) answered { r with server := s' } ↔
        Replica.Follows ((ListKind.counter isMachine).read ext.json) {v | v ∈ left} answered
          (r.view i (.counter isMachine) \ {x | x ∈ removed}) := by
  obtain ⟨agentID, b, hID, -, hcommands⟩ := Server.counterCommandRequest_cases hweb
  cases hID.symm.trans hown
  rw [(hreg.own hs token).mp hown] at hcommands
  obtain ⟨removed, left, hremoved, hstored, hview⟩ :=
    Server.counterCommands_cDeleteList (r.client.query.content (.counter isMachine)) hcommands
  refine ⟨removed, left, hremoved, fun answered => ?_⟩
  rw [← hstored, InStep, (Server.webEffect_web hweb).socket, Server.Fits, hview]
  rfl

/-- An answered list is kept up to date exactly under the condition. -/
theorem removes_iff {token : Int} {names : List ByteStr} {response : Option WebResponse}
    {s' : Server ι} (hs : RecordsNumbered r.server.store) (hreg : r.Registered i t)
    (h : r.InStep ext.json i (.counter isMachine) (r.Answered i (.counter isMachine)))
    (hown : agentIDAt r.server.store token = some (r.server.socket i).agentID)
    (hweb : WebCommandSocket.packetHandling ext.json r.server
      (.counterCommandRequest token isMachine .cDeleteList names) = some (response, s')) :
    InStep ext.json i (.counter isMachine)
      (Answered i (.counter isMachine) { r with server := s' }) { r with server := s' } ↔
      r.KeepsCounterList ext.json i isMachine
        (.web (.counterCommandRequest token isMachine .cDeleteList names)) := by
  obtain ⟨removed, left, hremoved, hin⟩ := removes_effect hs hreg hown hweb
  obtain ⟨hsub, hgone⟩ := JsonCpp.removeNamed_spec hremoved
  rw [answered_web_iff hweb, hin]
  by_cases hans : r.Answered i (.counter isMachine)
  · have hiff := sdiff_eq_readings_iff (h.eq hans) hsub hgone
    constructor
    · intro hfollows _ _ _ removed' left' hremoved'
      cases hremoved.symm.trans hremoved'
      exact hiff.mp (hfollows.eq hans)
    · intro hkeeps
      have heq := hiff.mpr (hkeeps rfl ((hreg.own hs token).mp hown) hans removed left hremoved)
      exact ⟨heq.subset, fun _ => heq.superset⟩
  · refine iff_of_true ?_ fun _ _ ha => absurd ha hans
    exact ⟨sdiff_subset_readings h.sub hgone, fun ha => absurd ha hans⟩

/-- The step of a command that removes counters from the client's list. -/
theorem RemovesFrom.step (h : RemovesFrom i (.counter isMachine) r e)
    (hstep : (machine ext i).step r e = some r') : ∃ token names response s',
    e = .web (.counterCommandRequest token isMachine .cDeleteList names) ∧
      agentIDAt r.server.store token = some (r.server.socket i).agentID ∧
      (WebMessage.counterCommandRequest token isMachine .cDeleteList names).token? ≠ some (-1) ∧
      WebCommandSocket.packetHandling ext.json r.server
        (.counterCommandRequest token isMachine .cDeleteList names) = some (response, s') ∧
      r' = { r with server := s' } := by
  obtain ⟨token, isMachine', names, rfl, hown, hkind⟩ := h.eq
  cases hkind
  obtain ⟨msg, response, s', he, hmsg, hweb, rfl⟩ | ⟨_, _, _, _, he, -⟩ | ⟨_, _, he, -⟩ |
    ⟨_, _, he, -⟩ := step_cases hstep <;> cases he
  exact ⟨token, names, response, s', rfl, hown, hmsg, hweb, rfl⟩

/-- The list never has more than the stored set. -/
theorem inStep_sub_step (hr : r.Linked i t (.counter isMachine))
    (h : r.InStep ext.json i (.counter isMachine) False)
    (hstep : (machine ext i).step r e = some r') :
    r'.InStep ext.json i (.counter isMachine) False := by
  by_cases hremoves : RemovesFrom i (.counter isMachine) r e
  · obtain ⟨token, names, response, s', rfl, hown, hmsg, hweb, rfl⟩ := hremoves.step hstep
    rcases hr.phase with hw | hreg
    · exact inStep_of_empty (hw.web hmsg hweb).view_eq id
    · obtain ⟨removed, left, hremoved, hin⟩ := removes_effect hr.numbered hreg hown hweb
      exact (hin False).mpr
        ⟨sdiff_subset_readings h.sub (JsonCpp.removeNamed_spec hremoved).2, False.elim⟩
  · obtain ⟨asked, -, h'⟩ := h.step hr (fun _ => id) hremoves hstep
    exact h'.imp False.elim

/-- A step keeps the list up to date exactly when it meets the condition. -/
theorem inStep_step_iff (hr : r.Linked i t (.counter isMachine))
    (h : r.InStep ext.json i (.counter isMachine) (r.Answered i (.counter isMachine)))
    (hstep : (machine ext i).step r e = some r') :
    r'.InStep ext.json i (.counter isMachine) (r'.Answered i (.counter isMachine)) ↔
      r.KeepsCounterList ext.json i isMachine e := by
  by_cases hremoves : RemovesFrom i (.counter isMachine) r e
  · obtain ⟨token, names, response, s', rfl, hown, hmsg, hweb, rfl⟩ := hremoves.step hstep
    rcases hr.phase with hw | hreg
    · exact iff_of_true (hw.web hmsg hweb).inStep fun _ _ ha => absurd ha hw.not_answered
    · exact removes_iff hr.numbered hreg h hown hweb
  · obtain ⟨asked, hasked, h'⟩ := h.step hr (fun hw => hw.not_answered) hremoves hstep
    refine iff_of_true (h'.imp hasked) ?_
    unfold KeepsCounterList
    split
    · rintro rfl hlookup hans
      rcases hr.phase with hw | hreg
      · exact absurd hans hw.not_answered
      · exact absurd ⟨(hreg.own hr.numbered _).mpr hlookup, rfl⟩ hremoves
    · trivial

/-! ## Runs -/

/-- The list holds the stored counters in every state of a run, exactly when every step meets the
condition; and then a client that has read everything has the stored counters. -/
theorem counterList_replicates_iff (hs : Connects ext i t s)
    (hclient : client.query.list (.counter isMachine) = []) {es : List LinkEvent}
    (hrun : (machine ext i).run
      (init (AgentSocket.acceptProcess false i s) client t ramSize) es = some r) :
    ((machine ext i).Always (CounterListReplicates ext.json i isMachine)
        (init (AgentSocket.acceptProcess false i s) client t ramSize) es ↔
      (machine ext i).Meets (KeepsCounterList ext.json i isMachine)
        (init (AgentSocket.acceptProcess false i s) client t ramSize) es) ∧
    ((machine ext i).Meets (KeepsCounterList ext.json i isMachine)
        (init (AgentSocket.acceptProcess false i s) client t ramSize) es →
      r.server.outbox i = [] →
      (∃ names, ServerMessage.counterListResponse isMachine names ∈ r.processed) →
      ∃ jv, recordAt r.server.store t = some jv ∧
        ∀ x, x ∈ r.client.query.list (.counter isMachine) ↔
          ∃ v ∈ r.server.store.set (counterListKey jv.agentNumber isMachine),
            (ext.json.counter? v).map CounterJson.counter = some x) := by
  have hlinked : Linked i t (.counter isMachine)
      (init (AgentSocket.acceptProcess false i s) client t ramSize) := hs.linked hclient
  have hin : InStep ext.json i (.counter isMachine) _
      (init (AgentSocket.acceptProcess false i s) client t ramSize) := (hs.waiting hclient).inStep
  have hiff := EventMachine.always_iff_meets (M := machine ext i)
    (I := CounterListReplicates ext.json i isMachine)
    (J := fun r => r.Linked i t (.counter isMachine) ∧
      r.InStep ext.json i (.counter isMachine) False)
    (C := KeepsCounterList ext.json i isMachine)
    (fun hstep ⟨hr, h⟩ => ⟨hr.step hstep, inStep_sub_step hr h hstep⟩)
    (fun hstep ⟨hr, h⟩ hrep => by
      rw [counterListReplicates_iff (hr.step hstep) (inStep_sub_step hr h hstep)]
      exact inStep_step_iff hr ((counterListReplicates_iff hr h).mp hrep) hstep)
    ⟨hlinked, hin.imp False.elim⟩
    ((counterListReplicates_iff hlinked (hin.imp False.elim)).mpr hin) hrun
  refine ⟨hiff, fun hmeets hread ⟨names, hnames⟩ => ?_⟩
  have hans : r.Answered i (.counter isMachine) := ⟨_, List.mem_append_left _ hnames, rfl⟩
  have hlinked' : r.Linked i t (.counter isMachine) :=
    EventMachine.run_invariant (fun hr hstep => hr.step hstep) hlinked hrun
  obtain ⟨jv, hjv, hnumber⟩ := hlinked'.stored hans
  have hrep := (hiff.mpr hmeets).last hrun hans
  rw [caughtUp, hread] at hrep
  exact ⟨jv, hjv, by rwa [hnumber]⟩

/-! ## Two texts with one counter -/

def cpu : CounterJson := ⟨ascii "CPU", ascii "% Processor Time", []⟩

/-- The client connects and asks for its lists. -/
def connectAndAsk : List LinkEvent :=
  [.serve 0, .read, .serve 0, .read, .serve 0, .read, .serve 0, .read]

/-- A counter is added that one of the defaults has already, under another name. -/
def addCpu : List LinkEvent :=
  [.web (.counterCommandRequest 7 false .cAddList [styledText cpu]), .read]

def deleteCpu : List LinkEvent :=
  [.web (.counterCommandRequest 7 false .cDeleteList [cpu.name]), .read]

def cpuExternals : Externals := .ofTexts [(styledText cpu, cpu)]

theorem counterList_replicates_iff_cpu : ∃ r : AgentLink Nat,
    (machine cpuExternals 0).run
      (init (AgentSocket.acceptProcess false 0 (.init Store.empty)) {} 7 0#64)
      (connectAndAsk ++ addCpu) = some r ∧
    ((machine cpuExternals 0).Always (CounterListReplicates cpuExternals.json 0 false)
        (init (AgentSocket.acceptProcess false 0 (.init Store.empty)) {} 7 0#64)
        (connectAndAsk ++ addCpu) ↔
      (machine cpuExternals 0).Meets (KeepsCounterList cpuExternals.json 0 false)
        (init (AgentSocket.acceptProcess false 0 (.init Store.empty)) {} 7 0#64)
        (connectAndAsk ++ addCpu)) := by
  have hconnects : Connects cpuExternals 0 7 (.init Store.empty) :=
    ⟨⟨Store.empty, [], recordsNumbered_empty rfl, rfl⟩, nofun, nofun, by decide⟩
  obtain ⟨r, hrun⟩ : ∃ r : AgentLink Nat, (machine cpuExternals 0).run
      (init (AgentSocket.acceptProcess false 0 (.init Store.empty)) {} 7 0#64)
      (connectAndAsk ++ addCpu) = some r := ⟨_, rfl⟩
  exact ⟨r, hrun, (counterList_replicates_iff hconnects rfl hrun).1⟩

/-- The counter is removed from the client though the default that has it is still stored. -/
theorem not_counterList_replicates_cpu : ∃ r : AgentLink Nat,
    (machine cpuExternals 0).run
      (init (AgentSocket.acceptProcess false 0 (.init Store.empty)) {} 7 0#64)
      (connectAndAsk ++ addCpu ++ deleteCpu) = some r ∧
    r.server.outbox 0 = [] ∧
    (∃ names, ServerMessage.counterListResponse false names ∈ r.processed) ∧
    ∃ jv, recordAt r.server.store 7 = some jv ∧
      ¬∀ x, x ∈ r.client.query.list (.counter false) ↔
        ∃ v ∈ r.server.store.set (counterListKey jv.agentNumber false),
          (cpuExternals.json.counter? v).map CounterJson.counter = some x := by
  refine ⟨_, rfl, rfl,
    ⟨_, List.mem_cons_of_mem _ (List.mem_cons_of_mem _ List.mem_cons_self)⟩, _, rfl, fun h => ?_⟩
  have hmem := (h cpu.counter).mpr ⟨styledText ⟨ascii "CPUTime", cpu.counter, ascii "%"⟩, by decide, rfl⟩
  exact absurd hmem (by decide)

end

end AgentLink

end PSM
