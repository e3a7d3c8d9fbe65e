import PSM.AgentLink
import PSM.StoreSteps

/-! Members that the web deletes from the lists of an agent.

A request for a list that is empty stores the defaults, whether it is the first request or all
members have been deleted. So a deleted member stays deleted, and requests leave a list alone once
it has been answered, exactly when no later request finds the list empty (`NeverEmptied`). -/

namespace PSM
open ByteStr Redis RedisManager

namespace Server

variable {ι : Type} [DecidableEq ι]

/-- A request of the agent for the list. -/
def Requests (agentID : Int) (kind : ListKind) (s : Server ι) : ServerEvent ι → Prop
  | .agent i _ .processListRequest => kind = .process ∧ (s.socket i).agentID = agentID
  | .agent i _ (.counterListRequest isMachine) =>
    kind = .counter isMachine ∧ (s.socket i).agentID = agentID
  | _ => False

/-- A command of the web to add the member to the list. -/
def AddsTo (agentID : Int) (kind : ListKind) (x : ByteStr) (s : Server ι) : ServerEvent ι → Prop
  | .web (.processCommandRequest token type name) => type = .addList ∧ name = x ∧
    kind = .process ∧ agentIDAt s.store token = some agentID
  | .web (.counterCommandRequest token isMachine type names) => type = .cAddList ∧ x ∈ names ∧
    kind = .counter isMachine ∧ agentIDAt s.store token = some agentID
  | _ => False

/-! ## What a step adds -/

section
variable {s s' : Server ι} {ext : Externals} {json : JsonCpp} {i : ι} {now agentID token : Int}
  {kind : ListKind} {x : ByteStr}

omit [DecidableEq ι] in
/-- In another list nothing changes. -/
theorem mem_stored_modifySet (agentID' : Int) (kind' : ListKind) {f : MemberSet → MemberSet}
    (h : x ∈ (s.modifySet (kind'.key agentID') f).stored agentID kind) :
    x ∈ s.stored agentID kind ∨
      agentID' = agentID ∧ kind' = kind ∧ x ∈ f (s.store.set (kind.key agentID)) := by
  by_cases hkey : kind.key agentID = kind'.key agentID'
  · obtain ⟨rfl, rfl⟩ := ListKind.key_inj.mp hkey
    rw [stored_modifySet_self] at h
    exact .inr ⟨rfl, rfl, h⟩
  · rw [stored_modifySet_of_ne hkey] at h
    exact .inl h

omit [DecidableEq ι] in
theorem mem_stored_add (agentID' : Int) (kind' : ListKind) {name : ByteStr}
    (h : x ∈ (s.modifySet (kind'.key agentID') (·.add name)).stored agentID kind) :
    x ∈ s.stored agentID kind ∨ name = x ∧ kind = kind' ∧ agentID' = agentID := by
  rcases mem_stored_modifySet agentID' kind' h with hx | ⟨rfl, rfl, hmem⟩
  · exact .inl hx
  · rcases MemberSet.mem_add.mp hmem with rfl | hx
    · exact .inr ⟨rfl, rfl, rfl⟩
    · exact .inl hx

omit [DecidableEq ι] in
theorem mem_stored_remove (agentID' : Int) (kind' : ListKind) {name : ByteStr}
    (h : x ∈ (s.modifySet (kind'.key agentID') (·.remove name)).stored agentID kind) :
    x ∈ s.stored agentID kind := by
  rcases mem_stored_modifySet agentID' kind' h with hx | ⟨rfl, rfl, hmem⟩
  · exact hx
  · exact (MemberSet.mem_remove.mp hmem).1

theorem mem_processCommand {type : ProcessCommandType} {name : ByteStr} {b : Bool}
    (h : WebCommandSocket.processCommand token type name s = some (b, s'))
    (hx : x ∈ s'.stored agentID kind) : x ∈ s.stored agentID kind ∨
      type = .addList ∧ name = x ∧ kind = .process ∧ agentIDAt s.store token = some agentID := by
  cases type with
  | addList =>
    rw [processCommand_addList_eq] at h
    obtain ⟨agentID', hID, heq⟩ := Option.map_eq_some_iff.mp h
    have hx' : x ∈ (s.modifySet (processListKey agentID') (·.add name)).stored agentID kind := by
      cases heq
      split at hx
      · rwa [stored_sendTo] at hx
      · exact hx
    rcases mem_stored_add agentID' .process hx' with hx | ⟨hname, hkind, rfl⟩
    · exact .inl hx
    · exact .inr ⟨rfl, hname, hkind, hID⟩
  | deleteList =>
    rw [processCommand_deleteList_eq] at h
    obtain ⟨agentID', hID, heq⟩ := Option.map_eq_some_iff.mp h
    have hx' : x ∈ (s.modifySet (processListKey agentID') (·.remove name)).stored agentID kind := by
      cases heq
      split at hx
      · rwa [stored_sendTo] at hx
      · exact hx
    exact .inl (mem_stored_remove agentID' .process hx')
  | _ =>
    obtain ⟨_, -, -, rfl⟩ := eq_of_processCommand h (by decide) (by decide)
    exact .inl hx

theorem mem_counterCommand {agentID' : Int} {socket : Option ι} {isMachine : Bool}
    {type : CounterCommandType} {name : ByteStr} {b : Bool}
    (h : WebCommandSocket.counterCommand json agentID' socket isMachine type name s =
      some (b, s')) (hx : x ∈ s'.stored agentID kind) : x ∈ s.stored agentID kind ∨
      type = .cAddList ∧ name = x ∧ kind = .counter isMachine ∧ agentID' = agentID ∧
        ∃ jv, json.strToJson x = .object jv := by
  cases type with
  | cAddList =>
    rw [counterCommand_cAddList_eq] at h
    dsimp only at h
    split at h
    · cases h
      exact .inl hx
    · cases h
    · rename_i jv hread
      split at h <;> cases h
      · exact .inl hx
      · have hx' : x ∈ (s.modifySet (counterListKey agentID' isMachine) (·.add name)).stored
            agentID kind := by
          rwa [← stored_sendTo]
        rcases mem_stored_add agentID' (.counter isMachine) hx' with hx | ⟨rfl, hkind, hID⟩
        · exact .inl hx
        · exact .inr ⟨rfl, rfl, hkind, hID, jv, hread⟩
  | cDeleteList =>
    rw [counterCommand_cDeleteList_eq] at h
    obtain ⟨removed, -, heq⟩ := Option.map_eq_some_iff.mp h
    rcases removed with _ | ⟨value, jv⟩ <;> cases heq
    · exact .inl hx
    · rw [stored_sendTo] at hx
      exact .inl (mem_stored_remove agentID' (.counter isMachine) hx)

theorem mem_counterCommands {agentID' : Int} {socket : Option ι} {isMachine : Bool}
    {type : CounterCommandType} {names : List ByteStr} {b : Bool}
    (h : WebCommandSocket.counterCommands json agentID' socket isMachine type names s =
      some (b, s')) (hx : x ∈ s'.stored agentID kind) : x ∈ s.stored agentID kind ∨
      type = .cAddList ∧ x ∈ names ∧ kind = .counter isMachine ∧ agentID' = agentID ∧
        ∃ jv, json.strToJson x = .object jv := by
  induction names generalizing s b with
  | nil => cases h; exact .inl hx
  | cons name names ih =>
    obtain ⟨⟨done, t⟩, hone, h⟩ := Option.bind_eq_some_iff.mp h
    obtain ⟨⟨resultv, t'⟩, hrest, heq⟩ := Option.bind_eq_some_iff.mp h
    cases heq
    rcases ih hrest with hx | ⟨htype, hmem, hkind⟩
    · rcases mem_counterCommand hone hx with hx | ⟨htype, rfl, hkind⟩
      · exact .inl hx
      · exact .inr ⟨htype, List.mem_cons_self, hkind⟩
    · exact .inr ⟨htype, List.mem_cons_of_mem _ hmem, hkind⟩

theorem mem_web {msg : WebMessage} {response : Option WebResponse}
    (h : WebCommandSocket.packetHandling json s msg = some (response, s'))
    (hx : x ∈ s'.stored agentID kind) :
    x ∈ s.stored agentID kind ∨ s.AddsTo agentID kind x (.web msg) := by
  cases msg with
  | healthAck => cases h; exact .inl hx
  | processCommandRequest token type name =>
    obtain ⟨⟨result, t⟩, hcommand, heq⟩ := Option.bind_eq_some_iff.mp h
    cases heq
    exact mem_processCommand hcommand hx
  | counterCommandRequest token isMachine type names =>
    obtain ⟨agentID', b, hID, -, hcommands⟩ := counterCommandRequest_cases h
    rcases mem_counterCommands hcommands hx with hx | ⟨htype, hmem, hkind, rfl, -⟩
    · exact .inl hx
    · exact .inr ⟨htype, hmem, hkind, hID⟩
  | invalid => cases h; exact .inl hx

omit [DecidableEq ι] in
theorem stored_eq_empty_iff :
    s.stored agentID kind = ∅ ↔ (s.store.set (kind.key agentID)).members = [] := by
  rw [Set.eq_empty_iff_forall_notMem, List.eq_nil_iff_forall_not_mem]
  rfl

omit [DecidableEq ι] in
theorem requests_cases {e : ServerEvent ι} (h : s.Requests agentID kind e) : ∃ i now,
    agentID = (s.socket i).agentID ∧ ((kind = .process ∧ e = .agent i now .processListRequest) ∨
      ∃ isMachine, kind = .counter isMachine ∧
        e = .agent i now (.counterListRequest isMachine)) := by
  cases e with
  | agent i now msg =>
    cases msg with
    | processListRequest => exact ⟨i, now, h.2.symm, .inl ⟨h.1, rfl⟩⟩
    | counterListRequest isMachine => exact ⟨i, now, h.2.symm, .inr ⟨isMachine, h.1, rfl⟩⟩
    | _ => cases h
  | _ => cases h

/-- A request leaves a list with members alone. -/
theorem requests_keep {e : ServerEvent ι} (hreq : s.Requests agentID kind e)
    (h : (machine ext).step s e = some s') (hne : s.stored agentID kind ≠ ∅) :
    s'.stored agentID kind = s.stored agentID kind := by
  rw [ne_eq, stored_eq_empty_iff] at hne
  obtain ⟨i, now, rfl, ⟨rfl, rfl⟩ | ⟨isMachine, rfl, rfl⟩⟩ := requests_cases hreq
  · cases change_of_step h with | agent h
    cases h with
    | processList => rfl
    | defaultProcesses hempty => exact absurd hempty hne
  · cases change_of_step h with | agent h
    cases h with
    | counterList => rfl
    | defaultCounters hempty => exact absurd hempty hne

omit [DecidableEq ι] in
theorem stored_fill_ne_empty (kind : ListKind) {xs : List ByteStr} (hxs : xs ≠ []) :
    (s.modifySet (kind.key agentID) (xs.foldl MemberSet.add ·)).stored agentID kind ≠ ∅ := by
  obtain ⟨y, ys, rfl⟩ := List.exists_cons_of_ne_nil hxs
  rw [stored_modifySet_self, ← Set.nonempty_iff_ne_empty]
  exact ⟨y, MemberSet.mem_foldl_add.mpr (.inr List.mem_cons_self)⟩

/-- A request stores the defaults in an empty list. -/
theorem requests_fill {e : ServerEvent ι} (hreq : s.Requests agentID kind e)
    (h : (machine ext).step s e = some s') (hempty : s.stored agentID kind = ∅) :
    s'.stored agentID kind ≠ ∅ := by
  rw [stored_eq_empty_iff] at hempty
  obtain ⟨i, now, rfl, ⟨rfl, rfl⟩ | ⟨isMachine, rfl, rfl⟩⟩ := requests_cases hreq
  · cases change_of_step h with | agent h
    cases h with
    | processList hne => exact absurd hempty hne
    | defaultProcesses => exact stored_fill_ne_empty .process (by decide)
  · cases change_of_step h with | agent h
    cases h with
    | counterList hne => exact absurd hempty hne
    | defaultCounters =>
      have hdefaults : ext.json.defaultCounterList isMachine ≠ [] := by
        cases isMachine <;> exact List.cons_ne_nil _ _
      exact stored_fill_ne_empty (.counter isMachine) hdefaults

omit [DecidableEq ι] in
theorem stored_changeAgentState {change : AgentRecord → AgentRecord} {b : Bool}
    {store : Store HashValue} (h : (changeAgentState token change).run s.store = some (b, store)) :
    ({ s with store } : Server ι).stored agentID kind = s.stored agentID kind := by
  obtain ⟨_, _, hrun, hset, -⟩ := recordAt_changeAgentState (s := s.store)
  cases h.symm.trans hrun
  simp only [stored, hset]

theorem mem_packet {msg : AgentMessage} (h : AgentSocket.packetHandling ext now i s msg = some s')
    (hx : x ∈ s'.stored agentID kind) : x ∈ s.stored agentID kind ∨
      s.Requests agentID kind (.agent i now msg) ∧ s.stored agentID kind = ∅ := by
  cases packetChange_of_packetHandling h with
  | defaultProcesses hempty =>
    replace hx : x ∈ (s.modifySet (processListKey (s.socket i).agentID)
      (defaultProcessList.foldl MemberSet.add ·)).stored agentID kind := hx
    rcases mem_stored_modifySet _ .process hx with hx | ⟨rfl, rfl, -⟩
    · exact .inl hx
    · exact .inr ⟨⟨rfl, rfl⟩, stored_eq_empty_iff.mpr hempty⟩
  | @defaultCounters isMachine hempty =>
    replace hx : x ∈ (s.modifySet (counterListKey (s.socket i).agentID isMachine)
      ((ext.json.defaultCounterList isMachine).foldl MemberSet.add ·)).stored agentID kind := hx
    rcases mem_stored_modifySet _ (.counter isMachine) hx with hx | ⟨rfl, rfl, -⟩
    · exact .inl hx
    · exact .inr ⟨⟨rfl, rfl⟩, stored_eq_empty_iff.mpr hempty⟩
  | snapshot hrun =>
    cases saveCurrentProcessList_run_eq.symm.trans hrun
    left
    by_cases hkey : kind.key agentID = currentProcessListKey (s.socket i).agentID
    · simp [stored, hkey] at hx
    · simpa [stored, hkey] using hx
  | @ready _ store hrun =>
    replace hx : x ∈ ({ s with store } : Server ι).stored agentID kind := hx
    exact .inl (stored_changeAgentState hrun ▸ hx)
  | @processInfo info _ _ hrun =>
    obtain ⟨_, hrun', -, hset⟩ := pushEach_run _ _ info s.store
    cases hrun.symm.trans hrun'
    exact .inl (by simpa only [stored, hset] using hx)
  | @machineInfo info _ _ hrun =>
    obtain ⟨_, hrun', -, hset⟩ := pushEach_run _ _ info s.store
    cases hrun.symm.trans hrun'
    exact .inl (by simpa only [stored, hset] using hx)
  | _ => exact .inl hx

/-- A member that comes in with a step has been added by a command, or the list was empty and has
been requested. -/
theorem mem_step {e : ServerEvent ι} (h : (machine ext).step s e = some s')
    (hx : x ∈ s'.stored agentID kind) : x ∈ s.stored agentID kind ∨
      s.AddsTo agentID kind x e ∨ s.Requests agentID kind e ∧ s.stored agentID kind = ∅ := by
  cases change_of_step h with
  | @disconnect _ _ _ store store' hrun hrun' =>
    have hstored : ({ s with store } : Server ι).stored agentID kind = s.stored agentID kind :=
      stored_changeAgentState hrun
    have hstored' : ({ s with store := store' } : Server ι).stored agentID kind =
        ({ s with store } : Server ι).stored agentID kind :=
      stored_changeAgentState (s := { s with store }) hrun'
    exact .inl (hstored ▸ hstored' ▸ hx)
  | agent => exact (mem_packet h hx).imp_right .inr
  | web hweb => exact (mem_web hweb hx).imp_right .inl
  | reorder hperm => exact .inl (stored_reorder hperm ▸ hx)
  | _ => exact .inl hx

end

/-! ## Runs -/

section
variable (ext : Externals) (agentID : Int) (kind : ListKind) (s : Server ι)
  (es : List (ServerEvent ι))

/-- The list has been requested in the run. -/
def AnsweredIn : Prop := ¬(machine ext).Meets (fun t e => ¬t.Requests agentID kind e) s es

/-- A command of the web removes the member. -/
def Removes (x : ByteStr) (s : Server ι) (e : ServerEvent ι) : Prop :=
  (∃ msg, e = .web msg) ∧ x ∈ s.stored agentID kind ∧
    ∃ s', (machine ext).step s e = some s' ∧ x ∉ s'.stored agentID kind

/-- A command of the web adds the member, which was not there. -/
def AcceptsAdd (x : ByteStr) (s : Server ι) (e : ServerEvent ι) : Prop :=
  s.AddsTo agentID kind x e ∧ x ∉ s.stored agentID kind ∧
    ∃ s', (machine ext).step s e = some s' ∧ x ∈ s'.stored agentID kind

/-- What is removed once the list has been answered is not there in any later state, unless it has
been added in between. -/
def DeletedStay : Prop := ∀ before d after rest, es = before ++ d :: (after ++ rest) →
  AnsweredIn ext agentID kind s before → ∀ t u x, (machine ext).run s before = some t →
  Removes ext agentID kind x t d → (machine ext).run t (d :: after) = some u →
  (machine ext).Meets (fun v e => ¬AcceptsAdd ext agentID kind x v e) t (d :: after) →
  x ∉ u.stored agentID kind

/-- Once the list has been answered, requests leave it alone. -/
def RequestsKeep : Prop := ∀ before e rest, es = before ++ e :: rest →
  AnsweredIn ext agentID kind s before → ∀ t u, (machine ext).run s before = some t →
  t.Requests agentID kind e → (machine ext).step t e = some u →
  u.stored agentID kind = t.stored agentID kind

/-- Once the list has been answered, no request finds it empty. -/
def NeverEmptied : Prop := ∀ before e rest, es = before ++ e :: rest →
  AnsweredIn ext agentID kind s before → ∀ t, (machine ext).run s before = some t →
  t.Requests agentID kind e → t.stored agentID kind ≠ ∅

variable {ext agentID kind s es}

theorem AnsweredIn.append (h : AnsweredIn ext agentID kind s es) (fs : List (ServerEvent ι)) :
    AnsweredIn ext agentID kind s (es ++ fs) := fun hmeets => h hmeets.of_append

theorem NeverEmptied.requestsKeep (h : NeverEmptied ext agentID kind s es) :
    RequestsKeep ext agentID kind s es :=
  fun before e rest hes hanswered t _ hrun hreq hstep =>
    requests_keep hreq hstep (h before e rest hes hanswered t hrun hreq)

/-- By induction on the events since the removal. -/
theorem NeverEmptied.deletedStay (h : NeverEmptied ext agentID kind s es) :
    DeletedStay ext agentID kind s es := by
  intro before d after rest hes hanswered t u x hbefore hremoves hrun hmeets
  induction after using List.reverseRecOn generalizing u rest with
  | nil =>
    obtain ⟨-, -, _, hstep, hx⟩ := hremoves
    rw [EventMachine.run_cons, hstep] at hrun
    cases hrun
    exact hx
  | append_singleton after e ih =>
    rw [← List.cons_append] at hrun hmeets
    obtain ⟨v, hv, hstep⟩ := EventMachine.run_concat_iff.mp hrun
    obtain ⟨hmeets, hadd⟩ := (EventMachine.meets_concat_iff hv).mp hmeets
    have hxv : x ∉ v.stored agentID kind := ih (e :: rest) (by rw [hes]; simp) v hv hmeets
    intro hxu
    rcases mem_step hstep hxu with hx | hadds | ⟨hreq, hempty⟩
    · exact hxv hx
    · exact hadd ⟨hadds, hxv, u, hstep, hxu⟩
    · refine h (before ++ d :: after) e rest (by rw [hes]; simp) (hanswered.append _) v ?_ hreq
        hempty
      rw [EventMachine.run_append, hbefore]
      exact hv

end

/-- What the web deletes from a list stays deleted, and requests leave the list alone, if and only
if no request after the first one finds the list empty. -/
theorem deletedStay_iff {ext : Externals} {agentID : Int} {kind : ListKind} {s s' : Server ι}
    {es : List (ServerEvent ι)} (hrun : (machine ext).run s es = some s') :
    DeletedStay ext agentID kind s es ∧ RequestsKeep ext agentID kind s es ↔
      NeverEmptied ext agentID kind s es := by
  refine ⟨fun ⟨_, hkeep⟩ before e rest hes hanswered t hbefore hreq hempty => ?_,
    fun h => ⟨h.deletedStay, h.requestsKeep⟩⟩
  obtain ⟨t', hstep⟩ : ∃ t', (machine ext).step t e = some t' := by
    rw [hes, EventMachine.run_append, hbefore, Option.bind_some, EventMachine.run_cons,
      Option.bind_eq_some_iff] at hrun
    exact ⟨hrun.choose, hrun.choose_spec.1⟩
  have hsame := hkeep before e rest hes hanswered t t' hbefore hreq hstep
  exact requests_fill hreq hstep hempty (hsame.trans hempty)

/-- An agent registers and asks for its list of processes, and the web deletes two of the three. -/
def deleteTwo : List (ServerEvent Unit) :=
  [.accept false (), .agent () 0 (.agentIDRequest 7 1 0), .agent () 0 .processListRequest,
    .web (.processCommandRequest 7 .deleteList (ascii "KakaoTalk")),
    .web (.processCommandRequest 7 .deleteList (ascii "notepad"))]

def deleteMelon : ServerEvent Unit :=
  .web (.processCommandRequest 7 .deleteList (ascii "Melon"))

/-- The agent connects again and asks for the list. -/
def reconnect : List (ServerEvent Unit) :=
  [.disconnect false (), .accept false (), .agent () 0 (.agentIDRequest 7 1 0),
    .agent () 0 .processListRequest]

theorem deletedStay_iff_deleteTwo : ∃ s,
    (machine (.ofTexts [])).run (init Store.empty) (deleteTwo ++ reconnect) = some s ∧
      (DeletedStay (.ofTexts []) 0 .process (init Store.empty) (deleteTwo ++ reconnect) ∧
        RequestsKeep (.ofTexts []) 0 .process (init Store.empty) (deleteTwo ++ reconnect) ↔
      NeverEmptied (.ofTexts []) 0 .process (init Store.empty) (deleteTwo ++ reconnect)) :=
  ⟨_, rfl, deletedStay_iff rfl⟩

/-- When the third one is deleted as well, the agent gets all three back. -/
theorem not_deletedStay_deleteMelon : ∃ s,
    (machine (.ofTexts [])).run (init Store.empty) (deleteTwo ++ deleteMelon :: reconnect) =
      some s ∧
    ¬DeletedStay (.ofTexts []) 0 .process (init Store.empty)
      (deleteTwo ++ deleteMelon :: reconnect) := by
  have hanswered : AnsweredIn (.ofTexts []) 0 .process (init Store.empty) deleteTwo :=
    fun hmeets => ((hmeets.2 _ rfl).2 _ rfl).1 ⟨rfl, rfl⟩
  obtain ⟨t, ht, hmem⟩ : ∃ t, (machine (.ofTexts [])).run (init Store.empty) deleteTwo = some t ∧
      ascii "Melon" ∈ t.store.set (processListKey 0) := ⟨_, rfl, by decide⟩
  obtain ⟨t', hstep, hremoved⟩ : ∃ t', (machine (.ofTexts [])).step t deleteMelon = some t' ∧
      ascii "Melon" ∉ t'.store.set (processListKey 0) := by
    cases ht
    exact ⟨_, rfl, by decide⟩
  obtain ⟨u, hrun, hback⟩ : ∃ u, (machine (.ofTexts [])).run t (deleteMelon :: reconnect) =
      some u ∧ ascii "Melon" ∈ u.store.set (processListKey 0) := by
    cases ht
    exact ⟨_, rfl, by decide⟩
  have hmeets : (machine (.ofTexts [])).Meets
      (fun v e => ¬AcceptsAdd (.ofTexts []) 0 .process (ascii "Melon") v e) t
      (deleteMelon :: reconnect) :=
    ⟨fun h => absurd h.1.1 (by decide), fun _ _ => ⟨fun h => h.1, fun _ _ => ⟨fun h => h.1,
      fun _ _ => ⟨fun h => h.1, fun _ _ => ⟨fun h => h.1, fun _ _ => trivial⟩⟩⟩⟩⟩
  refine ⟨u, ?_, fun h => ?_⟩
  · rw [EventMachine.run_append, ht]
    exact hrun
  · exact h deleteTwo deleteMelon reconnect [] rfl hanswered t u (ascii "Melon") ht
      ⟨⟨_, rfl⟩, hmem, t', hstep, hremoved⟩ hrun hmeets hback

end Server

end PSM
