import PSM.AgentNumbers
import PSM.AgentServer

/-! The stored state of the agents and the live connections.

A record says that its agent is on from `InitAgent` and recording from `AgentReady`, both handled
when the logic thread comes to the packet; the disconnect completion clears both on another thread.
So a packet that is still queued when its connection ends can turn the record on again with no
connection left to turn it off. `always_agrees_iff` says exactly which steps do so. -/

namespace PSM
open ByteStr Redis RedisManager

/-- The agent is on or recording, by its record. -/
def AgentRecord.Active (jv : AgentRecord) : Prop := jv.isOn = true ∨ jv.isRecording = true

namespace Server

variable {ι : Type}

def Active (s : Server ι) (token : Int) : Prop := ∃ jv, recordAt s.store token = some jv ∧ jv.Active

/-- A socket in the list has the token. -/
def Live (s : Server ι) (token : Int) : Prop := ∃ i ∈ s.agentList, (s.socket i).token = token

/-- The record of a token that no listed socket has is neither on nor recording. -/
def Agrees (s : Server ι) : Prop :=
  ∀ token jv, recordAt s.store token = some jv → (∀ i ∈ s.agentList, (s.socket i).token ≠ token) →
    jv.isOn = false ∧ jv.isRecording = false

theorem agrees_iff_forall {s : Server ι} : s.Agrees ↔ ∀ token, s.Active token → s.Live token := by
  constructor
  · rintro h token ⟨jv, hjv, hactive⟩
    by_contra hlive
    have hoff := h token jv hjv fun i hi he => hlive ⟨i, hi, he⟩
    rcases hactive with hactive | hactive
    · rw [hoff.1] at hactive
      cases hactive
    · rw [hoff.2] at hactive
      cases hactive
  · intro h token jv hjv hnone
    have hactive : ¬jv.Active := fun hactive =>
      let ⟨i, hi, he⟩ := h token ⟨jv, hjv, hactive⟩
      hnone i hi he
    simpa [AgentRecord.Active] using hactive

/-! ## What the handlers do to records and tokens -/

/-- The list, the tokens and the records are the same. -/
structure SameAgents (s s' : Server ι) : Prop where
  agentList : s'.agentList = s.agentList
  token : ∀ i, (s'.socket i).token = (s.socket i).token
  hash : s'.store.hash RedisManager.agentList = s.store.hash RedisManager.agentList

theorem SameAgents.refl (s : Server ι) : SameAgents s s := ⟨rfl, fun _ => rfl, rfl⟩

theorem SameAgents.trans {s s' s'' : Server ι} (h : SameAgents s s') (h' : SameAgents s' s'') :
    SameAgents s s'' where
  agentList := h'.agentList.trans h.agentList
  token i := (h'.token i).trans (h.token i)
  hash := h'.hash.trans h.hash

theorem SameAgents.active_iff {s s' : Server ι} (h : SameAgents s s') {token : Int} :
    s'.Active token ↔ s.Active token := by
  simp only [Active, recordAt, h.hash]

theorem SameAgents.live_iff {s s' : Server ι} (h : SameAgents s s') {token : Int} :
    s'.Live token ↔ s.Live token := by
  simp only [Live, h.agentList, h.token]

theorem SameAgents.agrees_congr {s s' : Server ι} (h : SameAgents s s') : s'.Agrees ↔ s.Agrees := by
  simp only [Server.agrees_iff_forall, h.active_iff, h.live_iff]

section
variable [DecidableEq ι] {s s' : Server ι} {i : ι} {ext : Externals} {now : Int}

omit [DecidableEq ι] in
theorem WebEffect.sameAgents {socket : Option ι} (h : WebEffect socket s s') : SameAgents s s' :=
  ⟨h.agentList, fun _ => by rw [h.socket], congrFun h.hash _⟩

theorem sameAgents_send {msg : ServerMessage} : SameAgents s (s.send i msg) :=
  ⟨rfl, fun _ => rfl, rfl⟩

omit [DecidableEq ι] in
theorem sameAgents_modifySet {key : ByteStr} {f : MemberSet → MemberSet} :
    SameAgents s (s.modifySet key f) := ⟨rfl, fun _ => rfl, rfl⟩

/-- The packets that neither register an agent nor start its recording. -/
def Quiet : AgentMessage → Prop
  | .agentIDRequest .. => False
  | .agentReady => False
  | _ => True

theorem sameAgents_packet {msg : AgentMessage} (hquiet : Quiet msg)
    (h : AgentSocket.packetHandling ext now i s msg = some s') : SameAgents s s' := by
  cases packetChange_of_packetHandling h with
  | register => cases hquiet
  | refuse => cases hquiet
  | ready => cases hquiet
  | processList => exact sameAgents_send
  | defaultProcesses => exact sameAgents_modifySet.trans sameAgents_send
  | counterList => exact ⟨rfl, fun _ => rfl, rfl⟩
  | defaultCounters => exact sameAgents_modifySet.trans sameAgents_send
  | snapshot hrun =>
    obtain ⟨_, hrun', hhash⟩ := saveCurrentProcessList_run (s.socket i).agentID _ s.store
    cases hrun.symm.trans hrun'
    exact ⟨rfl, fun _ => rfl, hhash⟩
  | @processInfo info _ _ hrun =>
    obtain ⟨_, hrun', hhash, -⟩ := pushEach_run _ _ info s.store
    cases hrun.symm.trans hrun'
    exact ⟨rfl, fun _ => rfl, congrFun hhash _⟩
  | @machineInfo info _ _ hrun =>
    obtain ⟨_, hrun', hhash, -⟩ := pushEach_run _ _ info s.store
    cases hrun.symm.trans hrun'
    exact ⟨rfl, fun _ => rfl, congrFun hhash _⟩
  | recordResponse => exact .refl s
  | healthAck =>
    refine ⟨rfl, fun j => ?_, rfl⟩
    by_cases hj : j = i
    · subst hj
      simp [setSocket]
    · simp [setSocket, hj]
  | invalid => exact .refl s

/-! ## The packets that change the state -/

omit [DecidableEq ι] in
theorem getAgentSocketByToken_eq_none_iff {token : Int} :
    s.getAgentSocketByToken token = none ↔ ¬s.Live token := by
  simp [getAgentSocketByToken, Live]

/-- An accepted request turns its token on, and keeps the records agreeing exactly when the socket
is still listed and leaves no active token behind. -/
theorem agrees_registered_iff {token hostIP : Int} {jv : AgentRecord}
    (hnone : s.getAgentSocketByToken token = none) (hon : jv.isOn = true) (hs : s.Agrees) :
    (s.registered i token hostIP jv).Agrees ↔
      i ∈ s.agentList ∧ (s.Active (s.socket i).token →
        ∃ j ∈ s.agentList, j ≠ i ∧ (s.socket j).token = (s.socket i).token) := by
  rw [getAgentSocketByToken_eq_none_iff] at hnone
  rw [agrees_iff_forall] at hs
  have hactive : ∀ t, (s.registered i token hostIP jv).Active t ↔ t = token ∨ s.Active t := by
    intro t
    have hrecord : recordAt (s.registered i token hostIP jv).store t =
        if t = token then some jv else recordAt s.store t := recordAt_setRecord
    unfold Active
    rw [hrecord]
    by_cases ht : t = token
    · simp [ht, AgentRecord.Active, hon]
    · simp [ht]
  have hlive : ∀ t, (s.registered i token hostIP jv).Live t ↔
      ∃ j ∈ s.agentList, if j = i then token = t else (s.socket j).token = t := by
    intro t
    refine exists_congr fun j => and_congr_right fun _ => ?_
    by_cases hj : j = i
    · simp [registered, setSocket, send, hj]
    · simp [registered, setSocket, send, hj]
  rw [agrees_iff_forall]
  constructor
  · intro h
    obtain ⟨j, hj, hif⟩ := (hlive token).mp (h token ((hactive token).mpr (.inl rfl)))
    have hji : j = i := by
      by_contra hji
      rw [if_neg hji] at hif
      exact hnone ⟨j, hj, hif⟩
    subst hji
    refine ⟨hj, fun hact => ?_⟩
    obtain ⟨j', hj', hif'⟩ := (hlive _).mp (h _ ((hactive _).mpr (.inr hact)))
    by_cases hjj : j' = j
    · rw [if_pos hjj] at hif'
      exact absurd ⟨j, hj, hif'.symm⟩ hnone
    · rw [if_neg hjj] at hif'
      exact ⟨j', hj', hjj, hif'⟩
  · rintro ⟨hi, hother⟩ t ht
    rw [hlive]
    rcases (hactive t).mp ht with rfl | hact
    · exact ⟨i, hi, by rw [if_pos rfl]⟩
    · obtain ⟨j, hj, hjt⟩ := hs t hact
      by_cases hji : j = i
      · subst hji
        obtain ⟨j', hj', hne, htok⟩ := hother (hjt.symm ▸ hact)
        exact ⟨j', hj', by rw [if_neg hne, htok, hjt]⟩
      · exact ⟨j, hj, by rw [if_neg hji, hjt]⟩

/-- Recording starts only for a token with a record, and then some listed socket must have it. -/
theorem agrees_agentReady_iff (hs : s.Agrees)
    (h : AgentSocket.packetHandling ext now i s .agentReady = some s') :
    s'.Agrees ↔ (recordAt s.store (s.socket i).token ≠ none → s.Live (s.socket i).token) := by
  cases packetChange_of_packetHandling h with | ready hrun
  obtain ⟨_, _, hrun', -, hrecord⟩ := recordAt_changeAgentState (s := s.store)
  cases hrun.symm.trans hrun'
  rw [agrees_iff_forall] at hs ⊢
  constructor
  · intro h hne
    obtain ⟨jv, hjv⟩ := Option.ne_none_iff_exists'.mp hne
    exact h _ ⟨_, (hrecord _).trans (by rw [if_pos rfl, hjv]; rfl), .inr rfl⟩
  · rintro h t ⟨jv, hjv, hact⟩
    replace hjv := (hrecord t).symm.trans hjv
    by_cases ht : t = (s.socket i).token
    · subst ht
      rw [if_pos rfl] at hjv
      exact h fun hnone => by rw [hnone] at hjv; cases hjv
    · rw [if_neg ht] at hjv
      exact hs t ⟨jv, hjv, hact⟩

/-- The completion of a disconnect turns the socket's own token off. -/
theorem agrees_disconnProcess {isError : Bool} (hs : s.Agrees)
    (h : AgentSocket.disconnProcess isError i s = some s') : s'.Agrees := by
  unfold AgentSocket.disconnProcess at h
  split at h
  · cases h
    exact hs
  obtain ⟨⟨b, t⟩, hredis, h⟩ := Option.bind_eq_some_iff.mp h
  obtain ⟨⟨b', t'⟩, hredis', heq⟩ := Option.bind_eq_some_iff.mp h
  cases heq
  obtain ⟨store, hrun, rfl⟩ := redis_eq_some_iff.mp hredis
  obtain ⟨store', hrun', rfl⟩ := redis_eq_some_iff.mp hredis'
  obtain ⟨_, _, hrun₁, -, hrecord₁⟩ := recordAt_changeAgentState (s := s.store)
  cases hrun.symm.trans hrun₁
  obtain ⟨_, _, hrun₂, -, hrecord₂⟩ := recordAt_changeAgentState (s := store)
  cases hrun'.symm.trans hrun₂
  rw [agrees_iff_forall] at hs ⊢
  rintro t ⟨jv, hjv, hact⟩
  replace hjv := (hrecord₂ t).symm.trans hjv
  rw [hrecord₁] at hjv
  by_cases ht : t = (s.socket i).token
  · rw [if_pos ht, if_pos ht, Option.map_map] at hjv
    obtain ⟨old, -, rfl⟩ := Option.map_eq_some_iff.mp hjv
    rcases hact with hact | hact <;> cases hact
  · rw [if_neg ht, if_neg ht] at hjv
    obtain ⟨j, hj, hjt⟩ := hs t ⟨jv, hjv, hact⟩
    refine ⟨j, List.mem_filter.mpr ⟨hj, ?_⟩, hjt⟩
    rw [decide_eq_true_eq]
    rintro rfl
    exact ht hjt.symm

theorem agrees_acceptProcess {isError : Bool} (hnew : i ∉ s.agentList) (hs : s.Agrees) :
    (AgentSocket.acceptProcess isError i s).Agrees := by
  unfold AgentSocket.acceptProcess
  split
  · exact hs
  rw [agrees_iff_forall] at hs ⊢
  rintro t ht
  obtain ⟨j, hj, hjt⟩ := hs t ht
  have hji : j ≠ i := ne_of_mem_of_not_mem hj hnew
  exact ⟨j, List.mem_append_left _ hj, by simp [setSocket, addAgent, hji, hjt]⟩

/-! ## The numbering -/

omit [DecidableEq ι] in
theorem SameAgents.extends (h : SameAgents s s') : RecordsExtend s.store s'.store := by
  have hrewrites : Rewrites s.store s'.store :=
    ⟨fun field => by rw [numberAt, h.hash]; rfl, by rw [agentCount, h.hash]; rfl,
      fun field hfield => by rwa [ReadsAsRecord, h.hash]⟩
  exact hrewrites.recordsExtend

/-- A handler keeps the store numbered, and every number that has been given. -/
theorem extends_step {e : ServerEvent ι} (hs : RecordsNumbered s.store)
    (h : (machine ext).step s e = some s') : RecordsExtend s.store s'.store := by
  cases change_of_step h with
  | disconnect hrun hrun' =>
    have hrewrites := changeAgentState_rewrites (by exact fun _ => rfl) hrun
    exact (hrewrites.trans (changeAgentState_rewrites (by exact fun _ => rfl) hrun')).recordsExtend
  | @agent i now msg _ hpacket =>
    replace h : AgentSocket.packetHandling ext now i s msg = some s' := h
    cases hpacket with
    | register _ hjv => exact initRecord_extends hs hjv
    | refuse => exact RecordsExtend.refl _
    | ready hrun => exact (changeAgentState_rewrites (by exact fun _ => rfl) hrun).recordsExtend
    | _ => exact (sameAgents_packet (by trivial) h).extends
  | web hweb => exact (webEffect_web hweb).sameAgents.extends
  | reorder => exact sameAgents_modifySet.extends
  | _ => exact RecordsExtend.refl _

/-- The numbering also holds over whole handlers. -/
theorem numbered_run {es : List (ServerEvent ι)} (hs : RecordsNumbered s.store)
    (h : (machine ext).run s es = some s') : RecordsNumbered s'.store :=
  EventMachine.run_invariant (I := fun s => RecordsNumbered s.store)
    (fun hs hstep => (extends_step hs hstep).1 hs) hs h

end

end Server

/-! ## The servers with the queue of the logic thread -/

/-- A packet in `operationQueue`, with its owner. -/
inductive Packet (ι : Type) where
  | agent (i : ι) (msg : AgentMessage)
  | webCommand (msg : WebMessage)

structure AgentApp (ι : Type) where
  server : Server ι
  operationQueue : List (Packet ι)

/-- A completion is handled, a packet is queued, or the logic thread handles the next packet. -/
inductive AppEvent (ι : Type) where
  | accept (isError : Bool) (i : ι)
  | disconnect (isError : Bool) (i : ι)
  | enqueueOper (packet : Packet ι)
  | process (now : Int)

namespace AgentApp

variable {ι : Type}

def init (store : Store HashValue) : AgentApp ι := ⟨.init store, []⟩

variable [DecidableEq ι]

/-- The handler of a packet. -/
def handler (now : Int) : Packet ι → ServerEvent ι
  | .agent i msg => .agent i now msg
  | .webCommand msg => .web msg

def step (ext : Externals) (app : AgentApp ι) : AppEvent ι → Option (AgentApp ι)
  | .accept isError i =>
    (app.server.step ext (.accept isError i)).map fun server => { app with server }
  | .disconnect isError i =>
    (app.server.step ext (.disconnect isError i)).map fun server => { app with server }
  | .enqueueOper packet => some { app with operationQueue := app.operationQueue ++ [packet] }
  | .process now =>
    match app.operationQueue with
    | [] => none
    | packet :: queue =>
      (app.server.step ext (handler now packet)).map fun server => ⟨server, queue⟩

def machine (ext : Externals) : EventMachine (AgentApp ι) (AppEvent ι) := ⟨step ext⟩

/-- An accepted `AgentIDRequest` finds its socket in the list, and the token that the socket had
before, if active, is also the token of another listed socket. An `AgentReady` whose token has a
record finds a listed socket with this token. -/
def InTime (s : Server ι) : Packet ι → Prop
  | .agent i (.agentIDRequest token _ _) => s.getAgentSocketByToken token = none →
    i ∈ s.agentList ∧ (s.Active (s.socket i).token →
      ∃ j ∈ s.agentList, j ≠ i ∧ (s.socket j).token = (s.socket i).token)
  | .agent i .agentReady => recordAt s.store (s.socket i).token ≠ none → s.Live (s.socket i).token
  | _ => True

/-- The next packet is in time, if it is handled now. -/
def HandlesInTime (app : AgentApp ι) : AppEvent ι → Prop
  | .process _ => ∀ packet ∈ app.operationQueue.head?, InTime app.server packet
  | _ => True

section
variable {ext : Externals} {app app' : AgentApp ι} {e : AppEvent ι}

theorem agrees_packet_iff {now : Int} {packet : Packet ι} {s s' : Server ι} (hs : s.Agrees)
    (h : s.step ext (handler now packet) = some s') : s'.Agrees ↔ InTime s packet := by
  cases packet with
  | agent i msg =>
    replace h : AgentSocket.packetHandling ext now i s msg = some s' := h
    cases Server.packetChange_of_packetHandling h with
    | register hfind hjv =>
      simp only [InTime, hfind, forall_const]
      exact Server.agrees_registered_iff hfind (initValue_isOn hjv) hs
    | refuse hfind =>
      simp only [InTime, hfind]
      exact iff_of_true (Server.sameAgents_send.agrees_congr.mpr hs) nofun
    | ready => exact Server.agrees_agentReady_iff hs h
    | _ => exact iff_of_true ((Server.sameAgents_packet (by trivial) h).agrees_congr.mpr hs) trivial
  | webCommand msg =>
    obtain ⟨⟨response, t⟩, hweb, rfl⟩ := Option.map_eq_some_iff.mp h
    exact iff_of_true ((Server.webEffect_web hweb).sameAgents.agrees_congr.mpr hs) trivial

/-- From a state that agrees, a step keeps it so exactly when it handles its packet in time. -/
theorem agrees_step_iff (hs : app.server.Agrees) (h : (machine ext).step app e = some app') :
    app'.server.Agrees ↔ app.HandlesInTime e := by
  cases e with
  | accept isError i =>
    obtain ⟨server, hstep, rfl⟩ := Option.map_eq_some_iff.mp h
    obtain ⟨hnew, heq⟩ := Option.ite_none_left_eq_some.mp hstep
    cases heq
    exact iff_of_true (Server.agrees_acceptProcess hnew hs) trivial
  | disconnect isError i =>
    obtain ⟨server, hstep, rfl⟩ := Option.map_eq_some_iff.mp h
    exact iff_of_true (Server.agrees_disconnProcess hs hstep) trivial
  | enqueueOper packet =>
    cases h
    exact iff_of_true hs trivial
  | process now =>
    simp only [machine, step] at h
    split at h
    · cases h
    · rename_i packet queue hqueue
      obtain ⟨server, hstep, rfl⟩ := Option.map_eq_some_iff.mp h
      simp only [HandlesInTime, hqueue, List.head?_cons, Option.mem_some_iff, forall_eq']
      exact agrees_packet_iff hs hstep

/-- Records and connections agree in every state of a run from a store with no record on, exactly
when no record is left recording there and every packet of the run is handled in time. -/
theorem always_agrees_iff {store : Store HashValue}
    (hoff : ∀ token jv, recordAt store token = some jv → jv.isOn = false)
    {es : List (AppEvent ι)} (hrun : (machine ext).run (init store) es = some app) :
    (machine ext).Always (fun app => app.server.Agrees) (init store) es ↔
      (∀ token jv, recordAt store token = some jv → jv.isRecording = false) ∧
      (machine ext).Meets HandlesInTime (init store) es := by
  have hiff (hinit : (init store : AgentApp ι).server.Agrees) :=
    EventMachine.always_iff_meets (M := machine ext) (J := fun _ => True)
      (I := fun app : AgentApp ι => app.server.Agrees) (fun _ _ => trivial)
      (fun hstep _ hs => agrees_step_iff hs hstep) trivial hinit hrun
  constructor
  · intro h
    have hinit : (init store : AgentApp ι).server.Agrees := h.first
    exact ⟨fun token jv hjv => (hinit token jv hjv nofun).2, (hiff hinit).mp h⟩
  · intro ⟨hrec, h⟩
    exact (hiff fun token jv hjv _ => ⟨hoff token jv hjv, hrec token jv hjv⟩).mpr h

/-- An agent registers and its connection ends. -/
def registerAndLeave : List (AppEvent Nat) := [.accept false 0,
  .enqueueOper (.agent 0 (.agentIDRequest 7 7 0#64)), .process 0, .disconnect false 0]

theorem always_agrees_iff_one :
    ∃ app, (machine (.ofTexts [])).run (init Store.empty) registerAndLeave = some app ∧
      ((machine (.ofTexts [])).Always (fun app => app.server.Agrees) (init Store.empty)
          registerAndLeave ↔
        (∀ token jv, recordAt Store.empty token = some jv → jv.isRecording = false) ∧
        (machine (.ofTexts [])).Meets HandlesInTime (init Store.empty) registerAndLeave) :=
  ⟨_, rfl, always_agrees_iff (fun _ _ h => by cases h) rfl⟩

/-- The connection ends while the packet is queued. -/
theorem not_agrees_after_disconnect : ∃ app : AgentApp Nat,
    (machine (.ofTexts [])).run (init Store.empty) [.accept false 0,
      .enqueueOper (.agent 0 (.agentIDRequest 7 7 0#64)), .disconnect false 0, .process 0] =
        some app ∧
    app.operationQueue = [] ∧ ¬app.server.Agrees := by
  refine ⟨_, rfl, rfl, fun h => ?_⟩
  have hoff := (h 7 _ rfl nofun).1
  cases hoff

end

end AgentApp

end PSM
