import PSM.AgentServer

/-! What the handlers do to the hashes and the lists of the store.

A snapshot of an agent's processes goes into a hash and its logs go into lists. Apart from these the
handlers change the records of the agents and the sets. -/

namespace PSM
open ByteStr Redis RedisManager

/-- The lists are left alone, and of the hashes all but `AgentList`. -/
structure KeepsData (s s' : Store HashValue) : Prop where
  hash : ∀ key, key ≠ RedisManager.agentList → s'.hash key = s.hash key
  list : s'.list = s.list

namespace KeepsData

variable {s s' s'' : Store HashValue} {token : Int} {jv : AgentRecord}

theorem refl (s : Store HashValue) : KeepsData s s := ⟨fun _ _ => rfl, rfl⟩

theorem trans (h : KeepsData s s') (h' : KeepsData s' s'') : KeepsData s s'' where
  hash key hkey := (h'.hash key hkey).trans (h.hash key hkey)
  list := h'.list.trans h.list

theorem setRecord : KeepsData s (RedisManager.setRecord s token jv) :=
  ⟨fun _ hkey => Function.update_of_ne hkey .., rfl⟩

theorem changeAgentState {change : AgentRecord → AgentRecord} {b : Bool}
    (h : (RedisManager.changeAgentState token change).run s = some (b, s')) : KeepsData s s' := by
  rw [changeAgentState_run] at h
  split at h <;> cases h
  · exact setRecord
  · exact refl s

end KeepsData

namespace Server

variable {ι : Type} [DecidableEq ι]

/-- An agent sends what goes into hashes or lists. -/
def SendsData : ServerEvent ι → Prop
  | .agent _ _ (.currentProcessListSend _) => True
  | .agent _ _ (.processInfoSend _) => True
  | .agent _ _ (.machineInfoSend _) => True
  | _ => False

section
variable {s s' : Server ι} {ext : Externals} {i : ι} {now : Int}

omit [DecidableEq ι] in
theorem sendsData_cases {e : ServerEvent ι} (h : SendsData e) : ∃ i now,
    (∃ msg, e = .agent i now (.currentProcessListSend msg)) ∨
    (∃ info, e = .agent i now (.processInfoSend info)) ∨
    ∃ info, e = .agent i now (.machineInfoSend info) := by
  cases e with
  | agent i now msg =>
    refine ⟨i, now, ?_⟩
    cases msg with
    | currentProcessListSend msg => exact .inl ⟨msg, rfl⟩
    | processInfoSend info => exact .inr (.inl ⟨info, rfl⟩)
    | machineInfoSend info => exact .inr (.inr ⟨info, rfl⟩)
    | _ => cases h
  | _ => cases h

omit [DecidableEq ι] in
theorem keepsData_modifySet {key : ByteStr} {f : MemberSet → MemberSet} :
    KeepsData s.store (s.modifySet key f).store := ⟨fun _ _ => rfl, rfl⟩

theorem keepsData_web {json : JsonCpp} {msg : WebMessage} {response : Option WebResponse}
    (h : WebCommandSocket.packetHandling json s msg = some (response, s')) :
    KeepsData s.store s'.store := by
  rcases webChanges h with rfl | ⟨token, agentID, -, -, hchanges⟩
  · exact .refl _
  clear h
  induction hchanges with
  | refl => exact .refl _
  | tail _ hchange ih =>
    cases hchange with
    | set => exact ih.trans keepsData_modifySet
    | tell => rwa [sendTo_store]
    | webMap => exact ih

theorem keepsData_packet {msg : AgentMessage}
    (hmsg : ¬SendsData (.agent i now msg : ServerEvent ι))
    (h : AgentSocket.packetHandling ext now i s msg = some s') : KeepsData s.store s'.store := by
  cases packetChange_of_packetHandling h with
  | register => exact KeepsData.setRecord
  | defaultProcesses => exact ⟨fun _ _ => rfl, rfl⟩
  | defaultCounters => exact ⟨fun _ _ => rfl, rfl⟩
  | snapshot => exact absurd trivial hmsg
  | ready hrun => exact KeepsData.changeAgentState hrun
  | processInfo => exact absurd trivial hmsg
  | machineInfo => exact absurd trivial hmsg
  | _ => exact .refl _

theorem keepsData_step {e : ServerEvent ι} (he : ¬SendsData e)
    (h : (machine ext).step s e = some s') : KeepsData s.store s'.store := by
  cases change_of_step h with
  | disconnect hrun hrun' =>
    exact (KeepsData.changeAgentState hrun).trans (KeepsData.changeAgentState hrun')
  | agent => exact keepsData_packet he h
  | web hweb => exact keepsData_web hweb
  | reorder => exact keepsData_modifySet
  | _ => exact .refl _

/-! ## Snapshots and logs -/

theorem currentProcessListSend_step {msg : Option Agent.CsCurrentProcessListSend}
    (h : (machine ext).step s (.agent i now (.currentProcessListSend msg)) = some s') :
    let key := currentProcessListKey (s.socket i).agentID
    s'.store.hash = Function.update s.store.hash key (snapshot (msg.elim [] (·.processInfo))) ∧
      s'.store.list = Function.update s.store.list key [] := by
  cases change_of_step h with | agent h
  cases h with | snapshot hrun
  cases saveCurrentProcessList_run_eq.symm.trans hrun
  exact ⟨rfl, rfl⟩

theorem processInfoSend_step {info : List Agent.ProcessInfos}
    (h : (machine ext).step s (.agent i now (.processInfoSend info)) = some s') :
    s'.store.hash = s.store.hash ∧ ∃ b, (saveProcessInfo ext.ops s.counterNameMap
      (s.socket i).agentID info).run s.store = some (b, s'.store) := by
  cases change_of_step h with | agent h
  cases h with | processInfo hrun
  obtain ⟨_, hrun', hhash, -⟩ := pushEach_run _ _ info s.store
  cases hrun.symm.trans hrun'
  exact ⟨hhash, _, hrun⟩

theorem machineInfoSend_step {info : List Agent.MachineInfos}
    (h : (machine ext).step s (.agent i now (.machineInfoSend info)) = some s') :
    s'.store.hash = s.store.hash ∧ ∃ b, (saveMachineInfo ext.ops s.counterNameMap
      (s.socket i).agentID info).run s.store = some (b, s'.store) := by
  cases change_of_step h with | agent h
  cases h with | machineInfo hrun
  obtain ⟨_, hrun', hhash, -⟩ := pushEach_run _ _ info s.store
  cases hrun.symm.trans hrun'
  exact ⟨hhash, _, hrun⟩

end

end Server

end PSM
