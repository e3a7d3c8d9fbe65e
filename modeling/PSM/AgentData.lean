import PSM.AgentState

/-! Whose data the store holds.

Apart from `AgentList`, every key that a handler uses begins with an agent number: the one that the
socket was given, or the one that is looked up for the token of a command. A socket that has not
registered and a token without a record have the number -1, which no function refuses, so the keys
of -1 are written like those of an agent (`ownsData_iff`). -/

namespace PSM
open ByteStr Redis RedisManager

/-! ## The keys of the programs -/

namespace RedisManager

/-- The keys of the data of an agent. -/
def IsAgentKey (agentID : Int) (key : ByteStr) : Prop := ∃ what, key = agentKey agentID what

section
variable {P : ByteStr → Prop} {agentID token : Int} {json : JsonCpp} {m : CounterNameMap}
  {isMachine : Bool} {key x : ByteStr}

/-- All commands of the program have keys of `P`. -/
abbrev CallsKeys (P : ByteStr → Prop) (p : Client HashValue α) : Prop :=
  p.Calls fun c => ∀ key ∈ c.key?, P key

theorem callsKeys_command {c : Command HashValue} (hc : c.key? = some key) (hkey : P key) :
    CallsKeys P (Prog.command c) :=
  .command fun key' h => by
    cases hc.symm.trans h
    exact hkey

theorem callsKeys_getAgentJVByToken (h : P agentList) :
    CallsKeys P (getAgentJVByToken token) := by
  refine (callsKeys_command rfl h).bind fun r => ?_
  split <;> trivial

theorem callsKeys_changeAgentState {change : AgentRecord → AgentRecord} (h : P agentList) :
    CallsKeys P (changeAgentState token change) := by
  refine (callsKeys_getAgentJVByToken h).bind fun r => ?_
  cases r with
  | none => trivial
  | some jv => exact (callsKeys_command rfl h).bind fun _ => trivial

theorem callsKeys_saveCurrentProcessList {msg : Option Agent.CsCurrentProcessListSend}
    (h : P (currentProcessListKey agentID)) :
    CallsKeys P (saveCurrentProcessList agentID msg) := by
  have hset : ∀ processInfo : List Agent.CurrentProcess,
      CallsKeys P (setProcesses (currentProcessListKey agentID) processInfo) := by
    intro processInfo
    induction processInfo with
    | nil => trivial
    | cons pi processInfo ih =>
      refine (callsKeys_command rfl h).bind fun r => ?_
      split <;> [exact ih; trivial]
  have hnone : ∀ {c : Command HashValue}, c.key? = none → CallsKeys P (Prog.command c) :=
    fun hc => .command fun key' h => by rw [hc] at h; cases h
  refine (hnone rfl).bind fun r => ?_
  split
  · trivial
  · refine (callsKeys_command rfl h).bind fun r => ?_
    split
    · trivial
    · refine (hset _).bind fun b => ?_
      split
      · exact (hnone rfl).bind fun _ => trivial
      · trivial

theorem callsKeys_pushEach {keyOf : α → ByteStr} {values : α → List ByteStr} {info : List α}
    (h : ∀ x, P (keyOf x)) : CallsKeys P (pushEach keyOf values info) := by
  have hpush : ∀ x vs, CallsKeys P (pushAll (keyOf x) vs) := by
    intro x vs
    induction vs with
    | nil => trivial
    | cons v vs ih =>
      refine (callsKeys_command rfl (h x)).bind fun r => ?_
      split <;> [exact ih; trivial]
  induction info with
  | nil => trivial
  | cons x info ih =>
    refine (hpush x _).bind fun b => ?_
    split <;> [exact ih; trivial]

theorem JsonCpp.mem_of_firstNamed {v : List ByteStr} {value : ByteStr} {jv : CounterJson}
    (h : json.firstNamed x v = some (some (value, jv))) : value ∈ v := by
  induction v with
  | nil => cases h
  | cons w v ih =>
    unfold JsonCpp.firstNamed at h
    split at h
    · split at h
      · cases h
        exact List.mem_cons_self
      · exact List.mem_cons_of_mem _ (ih h)
    · cases h

/-! ## When nothing changes -/

variable {s s' : Store HashValue}

theorem modifySet_ne {f : MemberSet → MemberSet} (h : f (s.set key) ≠ s.set key) :
    s.modifySet key f ≠ s := by
  intro heq
  have hset := congrArg (·.set key) heq
  exact h (by simpa using hset)

/-- Defaults are stored where there was nothing. -/
theorem fill_ne {xs : List ByteStr} (hx : x ∈ xs) (hempty : (s.set key).members = []) :
    s.modifySet key (xs.foldl MemberSet.add ·) ≠ s := by
  refine modifySet_ne fun heq => ?_
  have hmem : x ∈ xs.foldl MemberSet.add (s.set key) := MemberSet.mem_foldl_add.mpr (.inr hx)
  rw [heq, MemberSet.mem_def, hempty] at hmem
  cases hmem

/-- A loop of pushes changes a list unless it has nothing to push. -/
theorem pushEach_run_eq_iff {keyOf : α → ByteStr} {values : α → List ByteStr} {info : List α} {b : Bool}
    (h : (pushEach keyOf values info).run s = some (b, s')) :
    s' = s ↔ ∀ x ∈ info, values x = [] := by
  constructor
  · rintro rfl x hx
    have hlist : s'.list (keyOf x) = _ := pushEach_list h
    have hnil := List.reverse_eq_nil_iff.mp (List.self_eq_append_left.mp hlist)
    exact List.flatMap_eq_nil_iff.mp hnil x (List.mem_filter.mpr ⟨hx, decide_eq_true rfl⟩)
  · intro hnil
    obtain ⟨t, hrun, hhash, hset⟩ := pushEach_run keyOf values info s
    cases hrun.symm.trans h
    have hlist : s'.list = s.list := funext fun key => by
      have hpushed : (info.filter (keyOf · = key)).flatMap values = [] :=
        List.flatMap_eq_nil_iff.mpr fun x hx => hnil x (List.mem_of_mem_filter hx)
      rw [pushEach_list h, hpushed, List.reverse_nil, List.nil_append]
    exact Store.eq_iff.mpr ⟨hhash, hset, hlist⟩

end

end RedisManager

namespace Server

variable {ι : Type} [DecidableEq ι]

/-- The number whose data an event is about. -/
def actor? (s : Server ι) : ServerEvent ι → Option Int
  | .agent i _ .processListRequest => some (s.socket i).agentID
  | .agent i _ (.counterListRequest _) => some (s.socket i).agentID
  | .agent i _ (.currentProcessListSend _) => some (s.socket i).agentID
  | .agent i _ (.processInfoSend _) => some (s.socket i).agentID
  | .agent i _ (.machineInfoSend _) => some (s.socket i).agentID
  | .web msg => msg.token?.bind (agentIDAt s.store)
  | _ => none

/-- The keys that a handler may change. -/
def OwnKey (actor? : Option Int) (key : ByteStr) : Prop :=
  match actor? with
  | some agentID => IsAgentKey agentID key
  | none => key = RedisManager.agentList

/-- A set comes to be listed in another order, which is not done by a handler. -/
def IsReorder : ServerEvent ι → Prop
  | .reorder .. => True
  | _ => False

section
variable {s s' : Server ι} {i : ι} {ext : Externals} {now : Int} {P : ByteStr → Prop}

omit [DecidableEq ι] in
theorem sameBut_modifySet {key : ByteStr} {f : MemberSet → MemberSet} (h : P key) :
    s.store.SameBut P (s.modifySet key f).store := .modifySet h

theorem sameBut_packet {msg : AgentMessage}
    (h : AgentSocket.packetHandling ext now i s msg = some s') :
    s.store.SameBut (OwnKey (s.actor? (.agent i now msg))) s'.store := by
  cases packetChange_of_packetHandling h with
  | @register token hostIP ramSize jv =>
    have hsame : s.store.SameBut (OwnKey none) (setRecord s.store token jv) :=
      (exec_sameBut _ _).mono fun key hkey => (Option.some_inj.mp hkey).symm
    exact hsame
  | defaultProcesses =>
    dsimp only [send]
    exact sameBut_modifySet (P := IsAgentKey _) ⟨_, rfl⟩
  | defaultCounters =>
    dsimp only [send]
    exact sameBut_modifySet (P := IsAgentKey _) ⟨_, rfl⟩
  | snapshot hrun => exact Client.sameBut (callsKeys_saveCurrentProcessList ⟨_, rfl⟩) hrun
  | ready hrun => exact Client.sameBut (P := OwnKey none) (callsKeys_changeAgentState rfl) hrun
  | processInfo hrun => exact Client.sameBut (callsKeys_pushEach fun _ => ⟨_, rfl⟩) hrun
  | machineInfo hrun => exact Client.sameBut (callsKeys_pushEach fun _ => ⟨_, rfl⟩) hrun
  | _ => exact .refl _

theorem sameBut_web {json : JsonCpp} {msg : WebMessage} {response : Option WebResponse}
    (h : WebCommandSocket.packetHandling json s msg = some (response, s')) :
    s.store.SameBut (OwnKey (s.actor? (.web msg))) s'.store := by
  rcases webChanges h with rfl | ⟨token, agentID, htoken, hID, hchanges⟩
  · exact .refl _
  have hactor : s.actor? (.web msg) = some agentID := by rw [actor?, htoken, Option.bind_some, hID]
  rw [hactor]
  clear h
  induction hchanges with
  | refl => exact .refl _
  | tail _ hchange ih =>
    cases hchange with
    | set what => exact ih.trans (sameBut_modifySet (P := IsAgentKey agentID) ⟨what, rfl⟩)
    | tell => rwa [sendTo_store]
    | webMap => exact ih

/-- A handler changes the data that it is about, or `AgentList`. -/
theorem sameBut_step {e : ServerEvent ι} (he : ¬IsReorder e)
    (h : (machine ext).step s e = some s') :
    s.store.SameBut (OwnKey (s.actor? e)) s'.store := by
  cases change_of_step h with
  | disconnect hrun hrun' =>
    have hsame := Client.sameBut (P := OwnKey none) (callsKeys_changeAgentState rfl) hrun
    exact hsame.trans (Client.sameBut (callsKeys_changeAgentState rfl) hrun')
  | agent => exact sameBut_packet h
  | web hweb => exact sameBut_web hweb
  | reorder => exact absurd trivial he
  | _ => exact .refl _

end

/-! ## Events that change nothing -/

/-- A counter command that changes nothing. -/
def CommandFails (json : JsonCpp) (list : MemberSet) (type : CounterCommandType)
    (name : ByteStr) : Prop :=
  match type with
  | .cAddList => ∀ jv, json.strToJson name = .object jv → name ∈ list
  | .cDeleteList => ∀ found, json.firstNamed name list.members ≠ some (some found)

/-- The message would change none of the data under the number of the event: the list asked for is
not empty, the snapshot is the stored one, there are no logs, and a command adds what is there or
removes what is not. -/
def LeavesAlone (json : JsonCpp) (s : Server ι) : ServerEvent ι → Prop
  | .agent i _ .processListRequest =>
    (s.store.set (processListKey (s.socket i).agentID)).members ≠ []
  | .agent i _ (.counterListRequest isMachine) =>
    (s.store.set (counterListKey (s.socket i).agentID isMachine)).members ≠ []
  | .agent i _ (.currentProcessListSend msg) =>
    let key := currentProcessListKey (s.socket i).agentID
    s.store.hash key = snapshot (msg.elim [] (·.processInfo)) ∧ s.store.set key = .empty ∧
      s.store.list key = []
  | .agent _ _ (.processInfoSend info) => ∀ pi ∈ info, pi.logs = []
  | .agent _ _ (.machineInfoSend info) => ∀ mi ∈ info, mi.logs = []
  | .web (.processCommandRequest token .addList name) =>
    ∀ agentID ∈ agentIDAt s.store token, name ∈ s.store.set (processListKey agentID)
  | .web (.processCommandRequest token .deleteList name) =>
    ∀ agentID ∈ agentIDAt s.store token, name ∉ s.store.set (processListKey agentID)
  | .web (.counterCommandRequest token isMachine type names) =>
    ∀ agentID ∈ agentIDAt s.store token, ∀ name ∈ names,
      CommandFails json (s.store.set (counterListKey agentID isMachine)) type name
  | _ => True

section
variable {s s' : Server ι} {i : ι} {ext : Externals} {now : Int} {json : JsonCpp}

theorem packet_leavesAlone_iff {msg : AgentMessage}
    (hactor : s.actor? (.agent i now msg) ≠ none)
    (h : AgentSocket.packetHandling ext now i s msg = some s') :
    s'.store = s.store ↔ LeavesAlone json s (.agent i now msg) := by
  cases packetChange_of_packetHandling h with
  | processList hne => exact iff_of_true rfl hne
  | defaultProcesses hempty =>
    have hmem : ascii "Melon" ∈ defaultProcessList := List.mem_cons_self
    exact iff_of_false (fill_ne hmem hempty) (not_not_intro hempty)
  | counterList hne => exact iff_of_true rfl hne
  | @defaultCounters isMachine hempty =>
    obtain ⟨x, hx⟩ : ∃ x, x ∈ ext.json.defaultCounterList isMachine := by
      cases isMachine <;> exact ⟨_, List.mem_cons_self⟩
    exact iff_of_false (fill_ne hx hempty) (not_not_intro hempty)
  | snapshot hrun =>
    cases saveCurrentProcessList_run_eq.symm.trans hrun
    simp only [Store.eq_iff, Function.update_eq_self_iff, LeavesAlone]
    simp only [eq_comm]
  | processInfo hrun => simpa [LeavesAlone, processInfoValues] using pushEach_run_eq_iff hrun
  | machineInfo hrun => simpa [LeavesAlone, machineInfoValues] using pushEach_run_eq_iff hrun
  | _ => exact absurd rfl hactor

theorem processCommand_leavesAlone_iff {token agentID : Int} {type : ProcessCommandType}
    {name : ByteStr} {b : Bool} (hID : agentIDAt s.store token = some agentID)
    (h : WebCommandSocket.processCommand token type name s = some (b, s')) :
    (s'.store = s.store ↔ LeavesAlone json s (.web (.processCommandRequest token type name))) ∧
      (s'.store = s.store → b = false) := by
  cases type with
  | addList =>
    rw [processCommand_addList_eq, hID] at h
    cases h
    simp only [LeavesAlone, hID, Option.mem_some_iff, forall_eq']
    by_cases hname : name ∈ s.store.set (processListKey agentID)
    · have hsame : (s.modifySet (processListKey agentID) (·.add name)).store = s.store :=
        Store.modifySet_eq_self (f := (·.add name)) (MemberSet.add_of_mem hname)
      simp [hname, hsame]
    · have hne : s.store.modifySet (processListKey agentID) (·.add name) ≠ s.store :=
        modifySet_ne fun heq => hname (heq ▸ MemberSet.mem_add.mpr (.inl rfl))
      simp [hname, modifySet, hne]
  | deleteList =>
    rw [processCommand_deleteList_eq, hID] at h
    cases h
    simp only [LeavesAlone, hID, Option.mem_some_iff, forall_eq']
    by_cases hname : name ∈ s.store.set (processListKey agentID)
    · have hne : s.store.modifySet (processListKey agentID) (·.remove name) ≠ s.store :=
        modifySet_ne fun heq => (MemberSet.mem_remove.mp (heq ▸ hname)).2 rfl
      simp [hname, modifySet, hne]
    · have hsame : (s.modifySet (processListKey agentID) (·.remove name)).store = s.store :=
        Store.modifySet_eq_self (f := (·.remove name)) (MemberSet.remove_of_notMem hname)
      simp [hname, hsame]
  | _ =>
    obtain ⟨_, -, rfl, rfl⟩ := eq_of_processCommand h (by decide) (by decide)
    simp [LeavesAlone]

/-- The change of a list that a type of counter command can make. -/
def Toward (type : CounterCommandType) (list list' : MemberSet) : Prop :=
  match type with
  | .cAddList => ∀ x, x ∈ list → x ∈ list'
  | .cDeleteList => ∀ x, x ∈ list' → x ∈ list

theorem Toward.trans {type : CounterCommandType} {l l' l'' : MemberSet} (h : Toward type l l')
    (h' : Toward type l' l'') : Toward type l l'' := by
  cases type with
  | cAddList => exact fun x hx => h' x (h x hx)
  | cDeleteList => exact fun x hx => h x (h' x hx)

theorem Toward.antisymm {type : CounterCommandType} {l l' : MemberSet} (h : Toward type l l')
    (h' : Toward type l' l) : ∀ x, x ∈ l ↔ x ∈ l' := by
  cases type with
  | cAddList => exact fun x => ⟨h x, h' x⟩
  | cDeleteList => exact fun x => ⟨h' x, h x⟩

section
variable {agentID : Int} {socket : Option ι} {isMachine : Bool} {type : CounterCommandType}

/-- A counter command fails and changes nothing, or it changes its list. -/
theorem counterCommand_cases {name : ByteStr} {done : Bool}
    (h : WebCommandSocket.counterCommand json agentID socket isMachine type name s =
      some (done, s')) :
    let key := counterListKey agentID isMachine
    Toward type (s.store.set key) (s'.store.set key) ∧
    ((done = false ∧ s'.store = s.store ∧ CommandFails json (s.store.set key) type name) ∨
      (done = true ∧ (∃ x, ¬(x ∈ s.store.set key ↔ x ∈ s'.store.set key)) ∧
        ¬CommandFails json (s.store.set key) type name)) := by
  cases type with
  | cAddList =>
    rw [counterCommand_cAddList_eq] at h
    cases hjson : json.strToJson name with
    | null =>
      rw [hjson] at h
      cases h
      exact ⟨fun _ => id, .inl ⟨rfl, rfl, fun jv hjv => by rw [hjson] at hjv; cases hjv⟩⟩
    | other => rw [hjson] at h; cases h
    | object jv =>
      rw [hjson] at h
      dsimp only at h
      split at h <;> cases h
      · rename_i hmem
        exact ⟨fun _ => id, .inl ⟨rfl, rfl, fun _ _ => hmem⟩⟩
      · rename_i hmem
        have hset : ∀ x, x ∈ (((s.modifySet (counterListKey agentID isMachine) (·.add name)).sendTo
            socket (.counterCommandRequest isMachine .cAddList jv.counter)).setWebMap
              (s.webCounterNameMap.insert jv.counter jv.name)).store.set
                (counterListKey agentID isMachine) ↔
              x = name ∨ x ∈ s.store.set (counterListKey agentID isMachine) := by
          intro x
          simp [setWebMap, modifySet]
        refine ⟨fun x hx => (hset x).mpr (.inr hx), .inr ⟨rfl, ⟨name, fun hiff => ?_⟩, ?_⟩⟩
        · exact hmem (hiff.mpr ((hset name).mpr (.inl rfl)))
        · exact fun hfails => hmem (hfails jv hjson)
  | cDeleteList =>
    rw [counterCommand_cDeleteList_eq] at h
    obtain ⟨found, hfound, heq⟩ := Option.map_eq_some_iff.mp h
    cases found with
    | none =>
      cases heq
      exact ⟨fun _ => id, .inl ⟨rfl, rfl, fun found hne => by rw [hfound] at hne; cases hne⟩⟩
    | some found =>
      obtain ⟨value, jv⟩ := found
      cases heq
      have hmem : value ∈ s.store.set (counterListKey agentID isMachine) :=
        JsonCpp.mem_of_firstNamed hfound
      have hset : ∀ x, x ∈ ((s.modifySet (counterListKey agentID isMachine)
          (·.remove value)).sendTo socket
            (.counterCommandRequest isMachine .cDeleteList jv.counter)).store.set
              (counterListKey agentID isMachine) ↔
            x ∈ s.store.set (counterListKey agentID isMachine) ∧ x ≠ value := by
        intro x
        simp [modifySet]
      refine ⟨fun x hx => ((hset x).mp hx).1, .inr ⟨rfl, ⟨value, fun hiff => ?_⟩, ?_⟩⟩
      · exact ((hset value).mp (hiff.mp hmem)).2 rfl
      · exact fun hfails => hfails _ hfound

/-- The rounds of a counter command change nothing if each fails on the list as it was, and then the
command fails. A round never undoes what an earlier one did. -/
theorem counterCommands_leavesAlone {names : List ByteStr} {b : Bool}
    (h : WebCommandSocket.counterCommands json agentID socket isMachine type names s =
      some (b, s')) :
    let key := counterListKey agentID isMachine
    Toward type (s.store.set key) (s'.store.set key) ∧
    (s'.store = s.store ↔ ∀ name ∈ names, CommandFails json (s.store.set key) type name) ∧
    (s'.store = s.store → b = false) := by
  induction names generalizing s b with
  | nil =>
    cases h
    refine ⟨?_, by simp, fun _ => rfl⟩
    cases type <;> exact fun _ => id
  | cons name names ih =>
    obtain ⟨⟨done, t⟩, hone, h⟩ := Option.bind_eq_some_iff.mp h
    obtain ⟨⟨resultv, t'⟩, hrest, heq⟩ := Option.bind_eq_some_iff.mp h
    cases heq
    obtain ⟨htoward, hcases⟩ := counterCommand_cases hone
    obtain ⟨htoward', hiff, hfalse⟩ := ih hrest
    refine ⟨htoward.trans htoward', ?_⟩
    rcases hcases with ⟨rfl, hsame, hfails⟩ | ⟨rfl, ⟨x, hx⟩, hdone⟩
    · rw [hsame] at hiff hfalse
      simpa [hfails] using ⟨hiff, hfalse⟩
    · have hne : s'.store ≠ s.store := fun heq => hx (htoward.antisymm (heq ▸ htoward') x)
      simp [hne, hdone]

end

end

/-! ## Registered agents own the data -/

/-- The number is that of a record. -/
def IsAgentNumber (store : Store HashValue) (n : Int) : Prop :=
  ∃ field, numberAt store field = some (some n)

/-- The answer that a message of the web gets. -/
def response? (ext : Externals) (s : Server ι) : ServerEvent ι → Option WebResponse
  | .web msg => (WebCommandSocket.packetHandling ext.json s msg).bind (·.1)
  | _ => none

/-- Besides `AgentList`, a handler changes keys of numbers of records only. A message that is about
no such number changes nothing, and a command for a token without a record is answered with a
failure. -/
structure OwnsData (ext : Externals) (s : Server ι) (e : ServerEvent ι) (s' : Server ι) : Prop where
  keys : s.store.SameBut (fun key => key = RedisManager.agentList ∨
    ∃ n, IsAgentNumber s.store n ∧ IsAgentKey n key) s'.store
  unattributed : ∀ n, s.actor? e = some n → ¬IsAgentNumber s.store n → s'.store = s.store
  unknown : ∀ msg token, e = .web msg → msg.token? = some token → recordAt s.store token = none →
    ∃ response, s.response? ext e = some response ∧ response.success = false

/-- An event that is about the number of no agent changes nothing. -/
def Harmless (ext : Externals) (s : Server ι) (e : ServerEvent ι) : Prop :=
  s.actor? e = some (-1) → LeavesAlone ext.json s e

/-- The store is numbered, and a socket has -1 or the number of a record. -/
structure Known (s : Server ι) : Prop where
  numbered : RecordsNumbered s.store
  agentID : ∀ i, (s.socket i).agentID = -1 ∨ IsAgentNumber s.store (s.socket i).agentID

section
variable {s s' : Server ι} {ext : Externals} {e : ServerEvent ι} {n : Int}

theorem IsAgentNumber.keeps {store store' : Store HashValue} (h : IsAgentNumber store n)
    (hkeeps : Keeps store store') : IsAgentNumber store' n :=
  h.imp fun field hfield => hkeeps field _ hfield

theorem isAgentNumber_of_agentIDAt {store : Store HashValue} (hs : RecordsNumbered store)
    {token : Int} (h : agentIDAt store token = some n) : n = -1 ∨ IsAgentNumber store n := by
  by_cases hn : n = -1
  · exact .inl hn
  · exact .inr ⟨_, (hs.agentIDAt_eq_some_iff hn).mp h⟩

/-- The records of a numbered store are found by their token. -/
theorem agentIDAt_of_recordAt_none {store : Store HashValue} (hs : RecordsNumbered store) {token : Int}
    (h : recordAt store token = none) : agentIDAt store token = some (-1) := by
  have hfield := numberAt_of_not_unreadable (hs.reads.not_unreadable token) h
  rw [agentIDAt, Option.map_eq_none_iff.mp hfield]

omit [DecidableEq ι] in
theorem Known.init {store : Store HashValue} (hs : RecordsNumbered store) :
    (Server.init store : Server ι).Known := ⟨hs, fun _ => .inl rfl⟩

/-- The number of the record that `InitAgent` writes is then that of a record. -/
theorem isAgentNumber_setRecord {store : Store HashValue} {token : Int} {jv : AgentRecord} :
    IsAgentNumber (setRecord store token jv) jv.agentNumber :=
  ⟨decimal token, numberAt_of_recordAt (by rw [recordAt_setRecord, if_pos rfl])⟩

theorem agentID_packet {i : ι} {now : Int} {msg : AgentMessage}
    (hrequest : ∀ token hostIP ramSize, msg ≠ .agentIDRequest token hostIP ramSize)
    (h : AgentSocket.packetHandling ext now i s msg = some s') (j : ι) :
    (s'.socket j).agentID = (s.socket j).agentID := by
  cases packetChange_of_packetHandling h with
  | register => exact absurd rfl (hrequest _ _ _)
  | healthAck =>
    by_cases hj : j = i
    · subst hj
      simp [setSocket]
    · simp [setSocket, hj]
  | _ => rfl

/-- A socket's number is changed by an accept and by an accepted request only. -/
theorem agentID_step (h : (machine ext).step s e = some s') (i : ι) :
    (s'.socket i).agentID = (s.socket i).agentID ∨ (s'.socket i).agentID = -1 ∨
      IsAgentNumber s'.store (s'.socket i).agentID := by
  cases change_of_step h with
  | @accept j =>
    by_cases hij : i = j
    · subst hij
      exact .inr (.inl (by simp [AgentSocket.acceptProcess, setSocket]))
    · exact .inl (by simp [AgentSocket.acceptProcess, setSocket, addAgent, hij])
  | @agent j now msg _ hpacket =>
    replace h : AgentSocket.packetHandling ext now j s msg = some s' := h
    cases hpacket with
    | @register token hostIP ramSize jv =>
      by_cases hij : i = j
      · subst hij
        refine .inr (.inr ?_)
        have hnumber : ((s.registered i token hostIP jv).socket i).agentID = jv.agentNumber := by
          simp [registered, setSocket, send]
        rw [hnumber]
        exact isAgentNumber_setRecord
      · exact .inl (by rw [registered_socket_of_ne hij])
    | refuse => exact .inl rfl
    | _ => exact .inl (agentID_packet (fun _ _ _ he => by cases he) h i)
  | web hweb => exact .inl (by rw [(webEffect_web hweb).socket])
  | _ => exact .inl rfl

theorem Known.step (hs : s.Known) (h : (machine ext).step s e = some s') : s'.Known where
  numbered := (extends_step hs.numbered h).1 hs.numbered
  agentID i := by
    rcases agentID_step h i with heq | hnumber
    · rw [heq]
      exact (hs.agentID i).imp_right (·.keeps (extends_step hs.numbered h).2)
    · exact hnumber

omit [DecidableEq ι] in
/-- A number that a handler uses is -1 or the number of a record. -/
theorem Known.actor (hs : s.Known) (h : s.actor? e = some n) :
    n = -1 ∨ IsAgentNumber s.store n := by
  cases e with
  | agent i now msg =>
    cases msg <;> cases h <;> exact hs.agentID i
  | web msg =>
    obtain ⟨token, -, hID⟩ := Option.bind_eq_some_iff.mp h
    exact isAgentNumber_of_agentIDAt hs.numbered hID
  | _ => cases h

theorem IsAgentNumber.ne_neg_one {store : Store HashValue} (hs : RecordsNumbered store)
    (h : IsAgentNumber store n) : n ≠ -1 :=
  h.elim fun _ hfield => hs.ne_neg_one hfield

/-- A message that changes nothing is answered with a failure, if it is a command. -/
theorem web_leavesAlone_iff {msg : WebMessage} {response : Option WebResponse}
    {token : Int} (htoken : msg.token? = some token)
    (h : WebCommandSocket.packetHandling ext.json s msg = some (response, s')) :
    (s'.store = s.store ↔ LeavesAlone ext.json s (.web msg)) ∧
      ∃ r, response = some r ∧ (s'.store = s.store → r.success = false) := by
  cases msg with
  | processCommandRequest token' type name =>
    obtain ⟨⟨result, t⟩, hcommand, heq⟩ := Option.bind_eq_some_iff.mp h
    cases heq
    obtain ⟨agentID, hID, -⟩ := webChanges_processCommand hcommand
    obtain ⟨hiff, hfalse⟩ := processCommand_leavesAlone_iff hID hcommand
    exact ⟨hiff, _, rfl, hfalse⟩
  | counterCommandRequest token' isMachine type names =>
    obtain ⟨agentID, b, hID, rfl, hcommands⟩ := counterCommandRequest_cases h
    obtain ⟨-, hiff, hfalse⟩ := counterCommands_leavesAlone hcommands
    refine ⟨?_, _, rfl, hfalse⟩
    simpa [LeavesAlone, hID] using hiff
  | _ => cases htoken

theorem leavesAlone_iff (hactor : s.actor? e = some n) (h : (machine ext).step s e = some s') :
    s'.store = s.store ↔ LeavesAlone ext.json s e := by
  cases e with
  | agent i now msg => exact packet_leavesAlone_iff (by simp [hactor]) h
  | web msg =>
    obtain ⟨⟨response, t⟩, hweb, rfl⟩ := Option.map_eq_some_iff.mp h
    obtain ⟨token, htoken, -⟩ := Option.bind_eq_some_iff.mp hactor
    exact (web_leavesAlone_iff htoken hweb).1
  | _ => cases hactor

/-- One step: the only number that is used and is not that of a record is -1. -/
theorem ownsData_step_iff (hs : s.Known) (he : ¬IsReorder e)
    (h : (machine ext).step s e = some s') : OwnsData ext s e s' ↔ Harmless ext s e := by
  constructor
  · intro howns hactor
    refine (leavesAlone_iff hactor h).mp (howns.unattributed _ hactor fun hnumber => ?_)
    exact hnumber.ne_neg_one hs.numbered rfl
  · intro hharmless
    have hsame : s.actor? e = some (-1) → s'.store = s.store := fun hactor =>
      (leavesAlone_iff hactor h).mpr (hharmless hactor)
    refine ⟨?_, fun n hactor hnot => ?_, ?_⟩
    · have hbut := sameBut_step he h
      cases hactor : s.actor? e with
      | none =>
        rw [hactor] at hbut
        exact hbut.mono fun key => .inl
      | some n =>
        rw [hactor] at hbut
        rcases hs.actor hactor with rfl | hnumber
        · rw [hsame hactor]
          exact .refl _
        · exact hbut.mono fun key hkey => .inr ⟨n, hnumber, hkey⟩
    · rcases hs.actor hactor with rfl | hnumber
      · exact hsame hactor
      · exact absurd hnumber hnot
    · rintro msg token rfl htoken hnone
      obtain ⟨⟨response, t⟩, hweb, rfl⟩ := Option.map_eq_some_iff.mp h
      obtain ⟨-, r, rfl, hfalse⟩ := web_leavesAlone_iff htoken hweb
      have hactor : s.actor? (.web msg) = some (-1) := by
        simp only [actor?, htoken, Option.bind_some]
        exact agentIDAt_of_recordAt_none hs.numbered hnone
      exact ⟨r, by rw [response?, hweb]; rfl, hfalse (hsame hactor)⟩

/-- In a run of the servers every handler writes data of registered agents only, exactly when no
event that is about the number -1 changes anything. -/
theorem ownsData_iff {store : Store HashValue} {es : List (ServerEvent ι)} (hs : RecordsNumbered store)
    (hrun : (machine ext).run (Server.init store) es = some s') :
    (machine ext).Meets (fun s e => ∀ s', (machine ext).step s e = some s' → ¬IsReorder e →
      OwnsData ext s e s') (Server.init store) es ↔
    (machine ext).Meets (Harmless ext) (Server.init store) es := by
  refine EventMachine.meets_congr_of_run (J := Known) (fun hs hstep => hs.step hstep) ?_
    (Known.init hs) hrun
  intro s e s' hs hstep
  constructor
  · intro howns
    by_cases he : IsReorder e
    · cases e with
      | reorder => exact nofun
      | _ => cases he
    · exact (ownsData_step_iff hs he hstep).mp (howns s' hstep he)
  · intro hharmless s'' hstep' he
    exact (ownsData_step_iff hs he hstep').mpr hharmless

/-- An agent registers and asks for its list, and the web adds to it. -/
def addToRegistered : List (ServerEvent Nat) :=
  [.accept false 0, .agent 0 0 (.agentIDRequest 7 1 0#64), .agent 0 0 .processListRequest,
    .web (.processCommandRequest 7 .addList (ascii "app"))]

theorem ownsData_iff_registered :
    ∃ s', (machine (.ofTexts [])).run (Server.init Store.empty) addToRegistered = some s' ∧
      (machine (.ofTexts [])).Meets
        (fun s e => ∀ s', (machine (.ofTexts [])).step s e = some s' → ¬IsReorder e →
          OwnsData (.ofTexts []) s e s') (Server.init Store.empty) addToRegistered := by
  obtain ⟨s', hrun⟩ : ∃ s', (machine (.ofTexts [])).run (Server.init Store.empty)
      addToRegistered = some s' := ⟨_, rfl⟩
  refine ⟨s', hrun, (ownsData_iff (recordsNumbered_empty rfl) hrun).mpr ?_⟩
  -- in each state the event is about no number or about 0
  refine ⟨nofun, fun _ h => ?_⟩
  cases h
  refine ⟨nofun, fun _ h => ?_⟩
  cases h
  refine ⟨nofun, fun _ h => ?_⟩
  cases h
  exact ⟨nofun, fun _ _ => trivial⟩

/-- A name is added for a token that no agent has. -/
def addToUnknown : ServerEvent Nat := .web (.processCommandRequest 8 .addList (ascii "app"))

theorem not_ownsData_unknown :
    ∃ s', (machine (.ofTexts [])).run (Server.init Store.empty) [addToUnknown] = some s' ∧
      (∀ field, numberAt s'.store field = none) ∧
      (s'.store.set (ascii "-1:ProcessList")).members = [ascii "app"] ∧
      (Server.init Store.empty).response? (.ofTexts []) addToUnknown =
        some (.processCommandResponse 8 .addList true) ∧
      ¬(machine (.ofTexts [])).Meets
        (fun s e => ∀ s', (machine (.ofTexts [])).step s e = some s' → ¬IsReorder e →
          OwnsData (.ofTexts []) s e s') (Server.init Store.empty) [addToUnknown] := by
  refine ⟨_, rfl, fun _ => rfl, by decide, rfl, fun hmeets => ?_⟩
  obtain ⟨response, hresponse, hfailure⟩ := (hmeets.1 _ rfl nofun).unknown _ 8 rfl rfl rfl
  cases hresponse
  cases hfailure

end

end Server

end PSM
