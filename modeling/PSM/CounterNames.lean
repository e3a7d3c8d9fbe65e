import PSM.AgentServer

/-! The names under which counter logs are stored.

A log is stored under the name that the map of `agentServer` gives for its counter path. The map
keeps the first name it is told, and it is told the names of the default counters and then those of
the lists that `agentServer` sends out; the commands of the web fill the map of `webCommandServer`.
So the name of a stored counter is used exactly when it was the first one read for its path
(`savesUnderNames_iff`). -/

namespace PSM
open ByteStr Redis RedisManager

/-! ## The map -/

namespace CounterNameMap

theorem insertAll_append (m : CounterNameMap) (cs ds : List CounterJson) :
    m.insertAll (cs ++ ds) = (m.insertAll cs).insertAll ds := List.foldl_append

/-- The first name that is inserted stays. -/
theorem insertAll_apply (m : CounterNameMap) (cs : List CounterJson) (counter : ByteStr) :
    m.insertAll cs counter =
      (m counter).or ((cs.find? (·.counter = counter)).map CounterJson.name) := by
  induction cs generalizing m with
  | nil => simp [insertAll]
  | cons c cs ih =>
    have hcons : m.insertAll (c :: cs) = (m.insert c.counter c.name).insertAll cs := rfl
    rw [hcons, ih, List.find?_cons]
    by_cases h : c.counter = counter
    · cases hm : m counter <;> simp [insert, h, hm]
    · have h' : ¬counter = c.counter := fun e => h e.symm
      simp [insert, h, h']

end CounterNameMap

/-! ## What a run reads -/

namespace Server

variable {ι : Type} [DecidableEq ι]

/-- The counters of the members of a set, as listed. -/
def readCounters (json : JsonCpp) (members : MemberSet) : List CounterJson :=
  members.members.filterMap json.counter?

/-- The counters whose names `agentServer` reads while it handles a packet. -/
def namesRead (json : JsonCpp) (s : Server ι) : ServerEvent ι → List CounterJson
  | .agent i _ (.counterListRequest isMachine) =>
    readCounters json (s.store.set (counterListKey (s.socket i).agentID isMachine))
  | _ => []

/-- All of them since `agentServer` started, those of `Init` first. -/
def namesReadSince (ext : Externals) (store : Store HashValue) (es : List (ServerEvent ι)) :
    List CounterJson :=
  defaultCounters ++ defaultMachineCounters ++
    (machine ext).collect (namesRead ext.json) (init store) es

section
variable {s s' : Server ι} {ext : Externals} {e : ServerEvent ι} {store : Store HashValue}
  {es : List (ServerEvent ι)}

/-- A step adds to the map what it reads. -/
theorem counterNameMap_step (h : (machine ext).step s e = some s') :
    s'.counterNameMap = s.counterNameMap.insertAll (namesRead ext.json s e) := by
  cases change_of_step h with
  | agent h =>
    cases h with
    | counterList _ hread =>
      rw [namesRead, readCounters, mapM_eq_filterMap hread]
      rfl
    | defaultCounters hempty =>
      rw [namesRead, readCounters, hempty]
      rfl
    | _ => rfl
  | web hweb => exact (webEffect_web hweb).counterNameMap
  | _ => rfl

/-- After a run, the map gives for each path the first name read. -/
theorem counterNameMap_run (h : (machine ext).run (init store) es = some s) (counter : ByteStr) :
    s.counterNameMap counter =
      ((namesReadSince ext store es).find? (·.counter = counter)).map CounterJson.name := by
  have hmap := EventMachine.run_collect Server.counterNameMap CounterNameMap.insertAll
    (fun _ => rfl) CounterNameMap.insertAll_append counterNameMap_step h
  rw [hmap, init, CounterNameMap.init, ← CounterNameMap.insertAll_append,
    CounterNameMap.insertAll_apply]
  rfl

end

/-! ## What is saved -/

/-- The name of the only stored counter with the path, if there is just one. -/
def storedName (json : JsonCpp) (members : MemberSet) (counter : ByteStr) : Option ByteStr :=
  match (readCounters json members).filter (·.counter = counter) with
  | [jv] => some jv.name
  | _ => none

/-- The commands push each entry of a packet under the key of the stored name of its counter; one
without a stored name may go anywhere. -/
def PushUnderNames (json : JsonCpp) (members : MemberSet) (m : CounterNameMap)
    (counterName : α → ByteStr) (key : ByteStr → α → ByteStr) (values : α → List ByteStr)
    (info : List α) (commands : List (Command HashValue)) : Prop :=
  commands = info.flatMap fun x => (values x).map (.lpush (key
    ((storedName json members (counterName x)).getD (counterNameToNewName m (counterName x))) x))

/-- If the handler saves logs, then under the stored names of their counters. -/
def SavesUnderNames (ext : Externals) (s : Server ι) : ServerEvent ι → Prop
  | .agent i _ (.processInfoSend info) =>
    let agentID := (s.socket i).agentID
    PushUnderNames ext.json (s.store.set (counterListKey agentID false)) s.counterNameMap
      (·.counterName) (processLogKey agentID) (processInfoValues ext.ops s.counterNameMap) info
      (Prog.commands exec (saveProcessInfo ext.ops s.counterNameMap agentID info) s.store)
  | .agent i _ (.machineInfoSend info) =>
    let agentID := (s.socket i).agentID
    PushUnderNames ext.json (s.store.set (counterListKey agentID true)) s.counterNameMap
      (·.counterName) (fun name _ => machineLogKey agentID name) (machineInfoValues ext.ops) info
      (Prog.commands exec (saveMachineInfo ext.ops s.counterNameMap agentID info) s.store)
  | _ => True

/-- A stored name is the first one that was read for its path. -/
def StoredReadFirst (json : JsonCpp) (members : MemberSet) (read : List CounterJson)
    (counter : ByteStr) : Prop :=
  ∀ name, storedName json members counter = some name →
    ((read.find? (·.counter = counter)).map CounterJson.name).getD (ascii "etc") = name

/-- The logs that the handler saves are of counters whose stored names were read first. -/
def SavesReadFirst (json : JsonCpp) (s : Server ι) (read : List CounterJson) :
    ServerEvent ι → Prop
  | .agent i _ (.processInfoSend info) => ∀ pi ∈ info, pi.logs ≠ [] →
    StoredReadFirst json (s.store.set (counterListKey (s.socket i).agentID false)) read
      pi.counterName
  | .agent i _ (.machineInfoSend info) => ∀ mi ∈ info, mi.logs ≠ [] →
    StoredReadFirst json (s.store.set (counterListKey (s.socket i).agentID true)) read
      mi.counterName
  | _ => True

theorem flatMap_eq_flatMap_iff {f g : α → List β} {xs : List α}
    (hlen : ∀ x, (f x).length = (g x).length) :
    xs.flatMap f = xs.flatMap g ↔ ∀ x ∈ xs, f x = g x := by
  induction xs with
  | nil => simp
  | cons x xs ih =>
    rw [List.flatMap_cons, List.flatMap_cons, List.forall_mem_cons, ← ih]
    exact ⟨fun h => List.append_inj h (hlen x), fun ⟨h, h'⟩ => by rw [h, h']⟩

/-- The entries are pushed under the stored names exactly when the map gives these names. -/
theorem pushUnderNames_iff {json : JsonCpp} {members : MemberSet} {m : CounterNameMap}
    {counterName : α → ByteStr} {key : ByteStr → α → ByteStr} {values : α → List ByteStr}
    {info : List α} {store : Store HashValue}
    (hkey : ∀ x, Function.Injective (key · x)) :
    PushUnderNames json members m counterName key values info (Prog.commands exec
        (pushEach (fun x => key (counterNameToNewName m (counterName x)) x) values info) store) ↔
      ∀ x ∈ info, values x ≠ [] → ∀ name, storedName json members (counterName x) = some name →
        counterNameToNewName m (counterName x) = name := by
  rw [PushUnderNames, pushEach_commands, flatMap_eq_flatMap_iff (by simp)]
  refine forall₂_congr fun x _ => ?_
  cases hvalues : values x with
  | nil => simp
  | cons v vs =>
    cases storedName json members (counterName x) with
    | none => simp
    | some name =>
      simp only [Option.getD_some, List.map_cons, List.cons.injEq, Command.lpush.injEq, and_true,
        ne_eq, reduceCtorEq, not_false_eq_true, forall_const, Option.some.injEq, forall_eq']
      constructor
      · intro h
        exact hkey x h.1
      · intro h
        simp [h]

section
variable {s : Server ι} {ext : Externals} {store : Store HashValue} {es : List (ServerEvent ι)}

theorem processLogKey_injective (agentID : Int) (pi : Agent.ProcessInfos) :
    Function.Injective (processLogKey agentID · pi) := fun name name' h => by
  simpa [processLogKey, agentKey] using h

theorem machineLogKey_injective (agentID : Int) : Function.Injective (machineLogKey agentID) :=
  fun name name' h => by simpa [machineLogKey, agentKey] using h

/-- In every run, the next handler saves logs under the stored names of their counters exactly when
these are the names that `agentServer` has read first. -/
theorem savesUnderNames_iff (hrun : (machine ext).run (init store) es = some s)
    (e : ServerEvent ι) :
    s.SavesUnderNames ext e ↔ s.SavesReadFirst ext.json (namesReadSince ext store es) e := by
  have hname (counter : ByteStr) : counterNameToNewName s.counterNameMap counter =
      (((namesReadSince ext store es).find? (·.counter = counter)).map CounterJson.name).getD
        (ascii "etc") := by
    rw [counterNameToNewName, counterNameMap_run hrun]
  cases e with
  | agent i now msg =>
    cases msg with
    | processInfoSend info =>
      simp only [SavesUnderNames, SavesReadFirst, StoredReadFirst, ← hname]
      refine (pushUnderNames_iff fun pi => processLogKey_injective _ pi).trans (forall₂_congr fun pi _ => ?_)
      simp [processInfoValues]
    | machineInfoSend info =>
      simp only [SavesUnderNames, SavesReadFirst, StoredReadFirst, ← hname]
      refine (pushUnderNames_iff fun _ => machineLogKey_injective _).trans (forall₂_congr fun mi _ => ?_)
      simp [machineInfoValues]
    | _ => exact .rfl
  | _ => exact .rfl

end

/-! ## A counter added from the web -/

def handles : CounterJson := ⟨ascii "Handles", ascii "Handle Count", []⟩

def handlesExternals : Externals := .ofTexts [(styledText handles, handles)]

/-- An agent connects and asks for its counters, and then the web adds one. -/
def addHandles : List (ServerEvent Nat) := [.accept false 0,
  .agent 0 0 (.agentIDRequest 7 7 0#64), .agent 0 0 (.counterListRequest false),
  .web (.counterCommandRequest 7 false .cAddList [styledText handles])]

/-- The agent sends a log of a counter. -/
def saveLog (counter : ByteStr) : ServerEvent Nat :=
  .agent 0 0 (.processInfoSend [⟨counter, ascii "notepad", 100#32, [⟨0#64, 0#64⟩]⟩])

theorem savesUnderNames_iff_processorTime :
    ∃ s, (machine handlesExternals).run (init Store.empty) addHandles = some s ∧
      (s.SavesUnderNames handlesExternals (saveLog (ascii "% Processor Time")) ↔
        s.SavesReadFirst handlesExternals.json
          (namesReadSince handlesExternals Store.empty addHandles)
          (saveLog (ascii "% Processor Time"))) :=
  ⟨_, rfl, savesUnderNames_iff rfl _⟩

/-- The log is stored under `etc`, though the stored counter has a name. -/
theorem not_savesUnderNames_handles :
    ∃ s, (machine handlesExternals).run (init Store.empty) addHandles = some s ∧
      storedName handlesExternals.json (s.store.set (counterListKey (s.socket 0).agentID false))
        handles.counter = some handles.name ∧
      ¬s.SavesUnderNames handlesExternals (saveLog handles.counter) := by
  refine ⟨_, rfl, rfl, fun h => ?_⟩
  have hname := (pushUnderNames_iff fun pi => processLogKey_injective _ pi).mp h _
    List.mem_cons_self (List.cons_ne_nil _ _) handles.name rfl
  exact absurd hname (by decide)

end Server

end PSM
