import PSM.CounterSeries
import PSM.MessageAgreement
import PSM.RecentValue

/-! The data of a counter, from the recorders of the clients to the charts.

The server handles what the senders of the clients were called with, between packets of other
agents, commands of the web and changes of connections. A list of the store has what was left of the
logs for its key and nothing else (`Server.list_run`), and the charts show that (`charts_eq`). -/

namespace PSM
open ByteStr Redis RedisManager SampleHold

/-! ## What is saved -/

/-- The logs of a counter that one packet brings. There is no process for a counter of the
machine. -/
structure Batch where
  agentID : Int
  name : ByteStr
  process : Option (ByteStr × BitVec 32)
  logs : List Log

namespace Batch

def key (b : Batch) : ByteStr :=
  match b.process with
  | some (processName, processID) => processLogKey b.agentID b.name ⟨[], processName, processID, []⟩
  | none => machineLogKey b.agentID b.name

/-- The samples that the sender keeps. -/
def samples (b : Batch) : List (Int × BitVec 64) :=
  changed doubleEq minusOne (b.logs.map Log.sample)

/-- The name by which the values are scaled. `SaveMachineInfo` saves them as they are. -/
def scale (b : Batch) : ByteStr := if b.process = none then [] else b.name

def texts (ops : DoubleOps) (b : Batch) : List ByteStr := b.samples.map (sampleText ops b.scale)

end Batch

/-- What is saved of an entry of a process, under the name that its counter has. -/
def ProcessCounterEntry.batch (agentID : Int) (m : CounterNameMap) (pce : ProcessCounterEntry) :
    Batch :=
  ⟨agentID, counterNameToNewName m pce.counterName, some (pce.processName, pce.processID), pce.logs⟩

def MachineCounterEntry.batch (agentID : Int) (m : CounterNameMap) (mce : MachineCounterEntry) :
    Batch :=
  ⟨agentID, counterNameToNewName m mce.counterName, none, mce.logs⟩

section
variable {ops : DoubleOps} {m : CounterNameMap} {agentID : Int}

theorem ProcessCounterEntry.processInfoValues_eq (pce : ProcessCounterEntry) :
    processInfoValues ops m
        ⟨pce.counterName, pce.processName, pce.processID, changedLogs minusOne pce.logs⟩ =
      (pce.batch agentID m).texts ops := by
  rw [Batch.texts, Batch.samples, Batch.scale, batch, if_neg (by simp), ← map_sample_changedLogs,
    List.map_map]
  rfl

theorem MachineCounterEntry.machineInfoValues_eq (mce : MachineCounterEntry) :
    machineInfoValues ops ⟨mce.counterName, changedLogs minusOne mce.logs⟩ =
      (mce.batch agentID m).texts ops := by
  rw [Batch.texts, Batch.samples, Batch.scale, batch, if_pos rfl, ← map_sample_changedLogs,
    List.map_map]
  rfl

end

/-- The server handles what a sender of a client has sent, in one frame, or something else that
brings no data. -/
inductive SystemEvent (ι : Type) where
  | call (i : ι) (now : Int) (c : ClientCall) (h : c.wire.FitsFrame)
  | other (e : ServerEvent ι) (h : ¬Server.SendsData e)

def SystemEvent.event : SystemEvent ι → ServerEvent ι
  | .call i now c _ => .agent i now c.toCase.message
  | .other e _ => e

namespace Server

variable {ι : Type} [DecidableEq ι]

def system (ext : Externals) : EventMachine (Server ι) (SystemEvent ι) :=
  ⟨fun s e => (machine ext).step s e.event⟩

/-- What is saved when an event is handled. -/
def batches (s : Server ι) : SystemEvent ι → List Batch
  | .call i _ (.processInfo processLogList) _ =>
    processLogList.map (·.batch (s.socket i).agentID s.counterNameMap)
  | .call i _ (.machineInfo machineLogList) _ =>
    machineLogList.map (·.batch (s.socket i).agentID s.counterNameMap)
  | _ => []

/-- What is saved in a run. -/
def saved (ext : Externals) (s : Server ι) (es : List (SystemEvent ι)) : List Batch :=
  (system ext).collect batches s es

/-! ## The lists -/

section
variable {ext : Externals} {s s' : Server ι} {e : SystemEvent ι} {es : List (SystemEvent ι)}
  {key : ByteStr}

/-- What is pushed under a key are the texts of the batches for it. -/
theorem pushed_eq {f : α → Batch} {info : List α} {β : Type} {g : α → β} {keyOf : β → ByteStr}
    {values : β → List ByteStr} (hkey : ∀ x, keyOf (g x) = (f x).key)
    (hvalues : ∀ x, values (g x) = (f x).texts ext.ops) :
    ((info.map g).filter (keyOf · = key)).flatMap values =
      ((info.map f).filter (·.key = key)).flatMap (Batch.texts ext.ops) := by
  rw [List.filter_map, List.filter_map, List.flatMap_map, List.flatMap_map]
  have hfilter : info.filter ((fun y => decide (keyOf y = key)) ∘ g) =
      info.filter ((fun b => decide (b.key = key)) ∘ f) := by
    refine List.filter_congr fun x _ => ?_
    simp only [Function.comp_apply, hkey]
  rw [hfilter]
  exact List.flatMap_congr fun x _ => hvalues x

theorem list_step (hkey : ∀ agentID, key ≠ currentProcessListKey agentID)
    (h : (system ext).step s e = some s') :
    s'.store.list key =
      (((s.batches e).filter (·.key = key)).flatMap (Batch.texts ext.ops)).reverse ++
        s.store.list key := by
  cases e with
  | other e he =>
    replace h : (machine ext).step s e = some s' := h
    rw [(keepsData_step he h).list]
    rfl
  | call i now c hfits =>
    replace h : (machine ext).step s (.agent i now c.toCase.message) = some s' := h
    cases c with
    | currentProcessList processList =>
      rw [(currentProcessListSend_step h).2, Function.update_of_ne (hkey _)]
      rfl
    | processInfo processLogList =>
      obtain ⟨-, b, hrun⟩ := processInfoSend_step h
      rw [pushEach_list hrun]
      apply congrArg (fun texts => List.reverse texts ++ s.store.list key)
      exact pushed_eq (fun _ => rfl) fun pce => pce.processInfoValues_eq
    | machineInfo machineLogList =>
      obtain ⟨-, b, hrun⟩ := machineInfoSend_step h
      rw [pushEach_list hrun]
      apply congrArg (fun texts => List.reverse texts ++ s.store.list key)
      exact pushed_eq (fun _ => rfl) fun mce => mce.machineInfoValues_eq
    | _ =>
      rw [(keepsData_step (by exact fun hdata => hdata) h).list]
      rfl

/-- A list of logs has the texts of all that was saved under its key, the last one first. -/
theorem list_run (hkey : ∀ agentID, key ≠ currentProcessListKey agentID)
    (h : (system ext).run s es = some s') :
    s'.store.list key =
      (((saved ext s es).filter (·.key = key)).flatMap (Batch.texts ext.ops)).reverse ++
        s.store.list key := by
  refine EventMachine.run_collect (f := batches) (fun s : Server ι => s.store.list key)
    (fun list bs => ((bs.filter (·.key = key)).flatMap (Batch.texts ext.ops)).reverse ++ list)
    (fun _ => rfl) (fun list bs bs' => ?_) (fun hstep => list_step hkey hstep) h
  rw [List.filter_append, List.flatMap_append, List.reverse_append, List.append_assoc]

/-- The logs that the clients recorded for a key, packet by packet. -/
def recordedAt (ext : Externals) (s : Server ι) (es : List (SystemEvent ι)) (key : ByteStr) :
    List (List Log) :=
  ((saved ext s es).filter (·.key = key)).map (·.logs)

/-- The list in terms of the samples that are kept. -/
theorem list_run_keptSamples {name : ByteStr}
    (hkey : ∀ agentID, key ≠ currentProcessListKey agentID) (hempty : s.store.list key = [])
    (h : (system ext).run s es = some s')
    (hscale : ∀ b ∈ saved ext s es, b.key = key → b.scale = name) :
    s'.store.list key =
      ((keptSamples (recordedAt ext s es key)).map (sampleText ext.ops name)).reverse := by
  rw [list_run hkey h, hempty, List.append_nil, keptSamples, recordedAt, List.map_map,
    List.flatMap_map, List.map_flatMap]
  refine congrArg List.reverse (List.flatMap_congr fun b hb => ?_)
  obtain ⟨hb, hbkey⟩ := List.mem_filter.mp hb
  rw [Batch.texts, hscale b hb (of_decide_eq_true hbkey)]
  rfl

end

end Server

/-- After any run a list has the kept samples of its key and nothing else, the chart of the machine
has those of its window, each once and in order, and the chart of a process holds them until the
next one. Nothing else that happens in the run can be seen in them. -/
theorem charts_eq {V ι : Type} [DecidableEq ι] [Zero V] {float : ByteStr → Option V}
    {ext : Externals} {s s' : Server ι} {es : List (SystemEvent ι)} {key name : ByteStr}
    {responseTime interval curTime : Int}
    (hreads : ReadsDecimals ext.ops float name (Server.recordedAt ext s es key))
    (hkey : ∀ agentID, key ≠ currentProcessListKey agentID) (hempty : s.store.list key = [])
    (hrun : (Server.system ext).run s es = some s')
    (hscale : ∀ b ∈ Server.saved ext s es, b.key = key → b.scale = name)
    (hincreasing : Increasing (keptSamples (Server.recordedAt ext s es key)))
    (hkept : ∀ x ∈ keptSamples (Server.recordedAt ext s es key), x.1 < curTime - responseTime) :
    s'.store.list key =
      ((keptSamples (Server.recordedAt ext s es key)).map (sampleText ext.ops name)).reverse ∧
    ∃ value : BitVec 64 → V,
      (∀ v, IsRecorded (Server.recordedAt ext s es key) v →
        float (ext.ops.toStr (scaled ext.ops name v)) = some (value v)) ∧
      RedisJob.getValueList float s'.store key responseTime interval curTime =
        some (windowSamples value (curTime - responseTime - interval)
          (keptSamples (Server.recordedAt ext s es key))) ∧
      RedisJob.getValueList_detail float s'.store key responseTime interval curTime =
        some (expand responseTime 0 (curTime - responseTime)
          (windowSamples value (curTime - responseTime - interval)
            (keptSamples (Server.recordedAt ext s es key)))) := by
  obtain ⟨value, hvalue⟩ := hreads.exists_value
  have hlist := Server.list_run_keptSamples hkey hempty hrun hscale
  have hread : RedisJob.getCounterValue float s'.store key (curTime - responseTime - interval)
      (curTime - responseTime) = some (windowSamples value (curTime - responseTime - interval)
        (keptSamples (Server.recordedAt ext s es key))) :=
    getCounterValue_eq hreads.space_notMem hlist
      (fun x hx => hvalue x.2 (isRecorded_of_mem_keptSamples hx)) hincreasing hkept
  refine ⟨hlist, value, hvalue, hread, ?_⟩
  rw [RedisJob.getValueList_detail, hread]
  rfl

/-! ## A chart -/

def busyExternals : Externals := { Externals.ofTexts [] with ops := busyOps }

/-- A client registers and sends what it has recorded of a process twice, and the web adds a process
in between. -/
def busyClient : List (SystemEvent Unit) :=
  [.other (.accept false ()) id, .call () 0 (.agentIDRequest 7 0) (by decide),
    .call () 0 (.processInfo [⟨ascii "% Processor Time", ascii "a", 1,
      [⟨10, 0x3ff0000000000000#64⟩, ⟨11, 0x3ff0000000000000#64⟩, ⟨12, 0⟩]⟩]) (by decide),
    .other (.web (.processCommandRequest 7 .addList (ascii "b"))) id,
    .call () 0 (.processInfo [⟨ascii "% Processor Time", ascii "a", 1, [⟨13, 0⟩]⟩]) (by decide)]

theorem busyKey_ne (agentID : Int) : busyKey ≠ currentProcessListKey agentID := by
  intro hkey
  have hmem : colon ∈ ascii "CPUTime:a:1" := by decide
  have heq : busyKey = agentKey 0 (ascii "CPUTime:a:1") := rfl
  rw [heq] at hkey
  rw [(decimal_colon_inj.mp hkey).2] at hmem
  exact absurd hmem (by decide)

theorem charts_eq_busyClient : ∃ s' value,
    (Server.system busyExternals).run (.init .empty) busyClient = some s' ∧
    s'.store.list busyKey = ((keptSamples (Server.recordedAt busyExternals (.init .empty) busyClient
      busyKey)).map (sampleText busyOps (ascii "CPUTime"))).reverse ∧
    RedisJob.getValueList_detail busyFloat s'.store busyKey 3 10 20 =
      some (expand 3 0 17 (windowSamples value 7
        (keptSamples (Server.recordedAt busyExternals (.init .empty) busyClient busyKey)))) := by
  obtain ⟨s', hs'⟩ : ∃ s', (Server.system busyExternals).run (.init .empty) busyClient = some s' :=
    ⟨_, rfl⟩
  have hscale : ∀ b ∈ Server.saved busyExternals (.init .empty) busyClient, b.key = busyKey →
      b.scale = ascii "CPUTime" := by decide
  obtain ⟨hlist, value, -, -, hdetail⟩ := @charts_eq Int Unit _ _ busyFloat busyExternals _ s'
    busyClient busyKey _ 3 10 20 readsDecimals_busy busyKey_ne rfl hs' hscale (by decide) (by decide)
  exact ⟨s', value, hs', hlist, hdetail⟩

end PSM
