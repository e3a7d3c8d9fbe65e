import PSM.ProcessSnapshot

/-! The order of the stored logs.

The logs of a counter of a process are pushed one by one to the front of a list, so the list has the
newest log first when they come in order. Several series can go to one list: the path of a counter
that has no name is stored as `etc`, and two paths can have one name. Then the lists have the newest
log first only if the logs of all the series of a list come in order (`timesAt_iff`). -/

namespace PSM
open ByteStr Redis RedisManager SampleHold

/-! ## Times in a list -/

namespace RedisJob

/-- The time of a text of the list. -/
def timeOf (data : ByteStr) : Option Int := (data.splitOn space)[0]?.bind int

/-- The times can be read, and do not increase from the front on. -/
def TimesNewestFirst (datalist : List ByteStr) : Prop :=
  ∃ times : List Int, datalist.map timeOf = times.map some ∧ times.Pairwise (· ≥ ·)

section
variable {V : Type} {float : ByteStr → Option V} {datalist : List ByteStr}
  {entries : List (Int × V)}

theorem timeOf_readEntry {data : ByteStr} {x : Int × V} (h : readEntry float data = some x) :
    timeOf data = some x.1 := by
  simp only [readEntry, Option.bind_eq_bind, Option.bind_eq_some_iff] at h
  obtain ⟨time, htime, value, -, curTime, hcurTime, y, -, hx⟩ := h
  obtain rfl := Option.some_inj.mp hx
  rw [timeOf, htime, Option.bind_some, hcurTime]

theorem map_timeOf_reads (h : Reads float datalist entries) :
    datalist.map timeOf = (entries.map Prod.fst).map some := by
  induction h with
  | nil => rfl
  | cons hdata _ ih => rw [List.map_cons, ih, timeOf_readEntry hdata, List.map_cons, List.map_cons]

theorem TimesNewestFirst.newestFirst (h : TimesNewestFirst datalist)
    (hreads : Reads float datalist entries) : NewestFirst entries := by
  obtain ⟨times, htimes, hpairwise⟩ := h
  rw [map_timeOf_reads hreads] at htimes
  have heq : entries.map Prod.fst = times :=
    List.map_injective_iff.mpr (Option.some_injective _) htimes
  rw [← heq, List.pairwise_map] at hpairwise
  exact hpairwise

theorem TimesNewestFirst.take (h : TimesNewestFirst datalist) (n : Nat) :
    TimesNewestFirst (datalist.take n) := by
  obtain ⟨times, htimes, hpairwise⟩ := h
  exact ⟨times.take n, by rw [List.map_take, htimes, List.map_take],
    hpairwise.sublist (List.take_sublist n _)⟩

end

end RedisJob

theorem timeOf_logText (ops : DoubleOps) (l : Agent.Log) (value : BitVec 64) :
    RedisJob.timeOf (logText ops l value) = some l.timeStamp.toInt := by
  have hascii : ascii " " = [RedisJob.space] := rfl
  rw [logText, hascii, List.append_assoc, List.singleton_append, RedisJob.timeOf,
    List.splitOn_append_cons_self_of_not_mem (space_notMem_decimal _), List.getElem?_cons_zero,
    Option.bind_some]
  exact RedisJob.int_decimal _

/-! ## The logs of a run -/

/-- A counter of an agent, given by its path, and the process if it is one of a process. -/
structure Series where
  agentID : Int
  counterName : ByteStr
  process : Option (ByteStr × BitVec 32)
  deriving DecidableEq

/-- A log that has been stored under a key. -/
structure StoredLog where
  series : Series
  key : ByteStr
  time : Int

namespace StoredLog

/-- The logs of each series are in order. -/
def SeriesInOrder (logs : List StoredLog) : Prop :=
  logs.Pairwise fun x y => x.series = y.series → x.time ≤ y.time

/-- The logs of different series are in order where they have the same key. -/
def KeysInOrder (logs : List StoredLog) : Prop :=
  logs.Pairwise fun x y => x.key = y.key → x.series ≠ y.series → x.time ≤ y.time

/-- The times under a key, the last one first. -/
def timesAt (logs : List StoredLog) (key : ByteStr) : List Int :=
  ((logs.filter (·.key = key)).map (·.time)).reverse

instance (logs : List StoredLog) : Decidable (SeriesInOrder logs) :=
  inferInstanceAs (Decidable (List.Pairwise _ _))

instance (logs : List StoredLog) : Decidable (KeysInOrder logs) :=
  inferInstanceAs (Decidable (List.Pairwise _ _))

variable {logs logs' : List StoredLog} {key : ByteStr}

@[simp] theorem timesAt_nil : timesAt [] key = [] := rfl

theorem timesAt_append : timesAt (logs ++ logs') key = timesAt logs' key ++ timesAt logs key := by
  simp [timesAt]

/-- When the logs of each series are in order, all lists have the newest first if and only if the
logs of different series are in order as well. -/
theorem timesAt_iff (h : SeriesInOrder logs) :
    (∀ log ∈ logs, (timesAt logs log.key).Pairwise (· ≥ ·)) ↔ KeysInOrder logs := by
  have hkey : ∀ key, (timesAt logs key).Pairwise (· ≥ ·) ↔
      logs.Pairwise fun x y => x.key = key → y.key = key → x.time ≤ y.time := by
    intro key
    rw [timesAt, List.pairwise_reverse, List.pairwise_map, List.pairwise_filter]
    simp only [decide_eq_true_eq]
  simp only [hkey]
  constructor
  · intro hall
    rw [KeysInOrder, List.pairwise_iff_forall_sublist]
    intro x y hsub hxy _
    have hx : x ∈ logs := hsub.subset List.mem_cons_self
    exact List.pairwise_iff_forall_sublist.mp (hall x hx) hsub rfl hxy.symm
  · intro hkeys log _
    refine (h.and hkeys).imp fun {x y} ⟨hseries, hkey⟩ hx hy => ?_
    by_cases hxy : x.series = y.series
    · exact hseries hxy
    · exact hkey (hx.trans hy.symm) hxy

end StoredLog

/-! ## Runs of the server -/

/-- The logs of an entry of a packet. -/
def entryLogs (series : Series) (key : ByteStr) (logs : List Agent.Log) : List StoredLog :=
  logs.map fun l => ⟨series, key, l.timeStamp.toInt⟩

theorem map_timeOf_entryLogs {series : Series} {key : ByteStr} {logs : List Agent.Log}
    (ops : DoubleOps) (value : Agent.Log → BitVec 64) :
    (logs.map fun l => logText ops l (value l)).map RedisJob.timeOf =
      (entryLogs series key logs).map (some ·.time) := by
  rw [entryLogs, List.map_map, List.map_map]
  refine List.map_congr_left fun l _ => ?_
  simp only [Function.comp_apply, timeOf_logText]

/-- The times of the texts that the loop of the `Save` functions pushes. -/
theorem map_timeOf_pushEach {keyOf : α → ByteStr} {values : α → List ByteStr}
    {logs : α → List StoredLog} {info : List α} {b : Bool} {s s' : Store HashValue} {key : ByteStr}
    (hkeys : ∀ x, ∀ log ∈ logs x, log.key = keyOf x)
    (htimes : ∀ x, (values x).map RedisJob.timeOf = (logs x).map (some ·.time))
    (h : (pushEach keyOf values info).run s = some (b, s')) :
    (s'.list key).map RedisJob.timeOf =
      (StoredLog.timesAt (info.flatMap logs) key).map some ++
        (s.list key).map RedisJob.timeOf := by
  rw [pushEach_list h]
  clear h
  have hpushed : ((info.filter (keyOf · = key)).flatMap values).map RedisJob.timeOf =
      ((info.flatMap logs).filter (·.key = key)).map (some ·.time) := by
    induction info with
    | nil => rfl
    | cons x info ih =>
      rw [List.flatMap_cons, List.filter_append, List.map_append]
      by_cases hx : keyOf x = key
      · have hall : (logs x).filter (·.key = key) = logs x :=
          List.filter_eq_self.mpr fun log hlog => decide_eq_true ((hkeys x log hlog).trans hx)
        rw [List.filter_cons_of_pos (by simpa using hx), List.flatMap_cons, List.map_append, ih,
          hall, htimes]
      · have hnone : (logs x).filter (·.key = key) = [] :=
          List.filter_eq_nil_iff.mpr fun log hlog hkey =>
            hx ((hkeys x log hlog).symm.trans (of_decide_eq_true hkey))
        rw [List.filter_cons_of_neg (by simpa using hx), ih, hnone, List.map_nil, List.nil_append]
  rw [List.map_append, List.map_reverse, hpushed, StoredLog.timesAt, List.map_reverse,
    List.map_map]
  rfl

namespace Server

variable {ι : Type} [DecidableEq ι]

/-- The logs that a packet stores, in order. -/
def storedLogs (s : Server ι) : ServerEvent ι → List StoredLog
  | .agent i _ (.processInfoSend info) =>
    let agentID := (s.socket i).agentID
    info.flatMap fun pi => entryLogs ⟨agentID, pi.counterName, some (pi.processName, pi.processID)⟩
      (processInfoKey s.counterNameMap agentID pi) pi.logs
  | .agent i _ (.machineInfoSend info) =>
    let agentID := (s.socket i).agentID
    info.flatMap fun mi => entryLogs ⟨agentID, mi.counterName, none⟩
      (machineInfoKey s.counterNameMap agentID mi) mi.logs
  | _ => []

section
variable {ext : Externals} {s s' : Server ι} {e : ServerEvent ι} {es : List (ServerEvent ι)}
  {key : ByteStr}

omit [DecidableEq ι] in
theorem storedLogs_eq_nil (he : ¬SendsData e) : s.storedLogs e = [] := by
  cases e with
  | agent i now msg =>
    cases msg with
    | processInfoSend => exact absurd trivial he
    | machineInfoSend => exact absurd trivial he
    | _ => rfl
  | _ => rfl

/-- What a step does to the times of a list. -/
theorem map_timeOf_step (hkey : ∀ agentID, key ≠ currentProcessListKey agentID)
    (h : (machine ext).step s e = some s') :
    (s'.store.list key).map RedisJob.timeOf =
      (StoredLog.timesAt (s.storedLogs e) key).map some ++
        (s.store.list key).map RedisJob.timeOf := by
  by_cases hdata : SendsData e
  · obtain ⟨i, now, ⟨msg, rfl⟩ | ⟨info, rfl⟩ | ⟨info, rfl⟩⟩ := sendsData_cases hdata
    · rw [(currentProcessListSend_step h).2, Function.update_of_ne (hkey _)]
      rfl
    · obtain ⟨-, b, hrun⟩ := processInfoSend_step h
      refine map_timeOf_pushEach (fun pi log hlog => ?_) (fun pi => ?_) hrun
      · obtain ⟨l, -, rfl⟩ := List.mem_map.mp hlog
        rfl
      · exact map_timeOf_entryLogs _ _
    · obtain ⟨-, b, hrun⟩ := machineInfoSend_step h
      refine map_timeOf_pushEach (fun mi log hlog => ?_) (fun mi => ?_) hrun
      · obtain ⟨l, -, rfl⟩ := List.mem_map.mp hlog
        rfl
      · exact map_timeOf_entryLogs _ _
  · rw [(keepsData_step hdata h).list, storedLogs_eq_nil hdata]
    rfl

/-- The logs stored in a run, in order. -/
def logsOf (ext : Externals) (s : Server ι) (es : List (ServerEvent ι)) : List StoredLog :=
  (machine ext).collect storedLogs s es

theorem map_timeOf_run (hkey : ∀ agentID, key ≠ currentProcessListKey agentID)
    (hempty : s.store.list key = []) (h : (machine ext).run s es = some s') :
    (s'.store.list key).map RedisJob.timeOf =
      (StoredLog.timesAt (logsOf ext s es) key).map some := by
  have hrun := EventMachine.run_collect (f := storedLogs)
    (fun s : Server ι => (s.store.list key).map RedisJob.timeOf)
    (fun times logs => (StoredLog.timesAt logs key).map some ++ times) (fun _ => rfl)
    (fun times logs logs' => by
      rw [StoredLog.timesAt_append, List.map_append, List.append_assoc])
    (fun hstep => map_timeOf_step hkey hstep) h
  rw [hrun, hempty]
  exact List.append_nil _

omit [DecidableEq ι] in
theorem key_ne_of_mem_storedLogs {log : StoredLog} (h : log ∈ s.storedLogs e) (agentID : Int) :
    log.key ≠ currentProcessListKey agentID := by
  -- the rest of the key of a log has another colon
  have hcolon : ∀ (n : Int) (what : ByteStr), colon ∈ what →
      agentKey n what ≠ currentProcessListKey agentID := by
    intro n what hmem hkey
    rw [(decimal_colon_inj.mp hkey).2] at hmem
    exact absurd hmem (by decide)
  by_cases hdata : SendsData e
  · obtain ⟨i, now, ⟨msg, rfl⟩ | ⟨info, rfl⟩ | ⟨info, rfl⟩⟩ := sendsData_cases hdata
    · exact absurd h List.not_mem_nil
    · obtain ⟨pi, -, hlog⟩ := List.mem_flatMap.mp h
      obtain ⟨l, -, rfl⟩ := List.mem_map.mp hlog
      have hmem : colon ∈ ascii ":" := by decide
      exact hcolon _ _ (List.mem_append_left _ (List.mem_append_right _ hmem))
    · obtain ⟨mi, -, hlog⟩ := List.mem_flatMap.mp h
      obtain ⟨l, -, rfl⟩ := List.mem_map.mp hlog
      have hmem : colon ∈ ascii ":Total" := by decide
      exact hcolon _ _ (List.mem_append_right _ hmem)
  · rw [storedLogs_eq_nil hdata] at h
    exact absurd h List.not_mem_nil

/-- Logs do not go where a snapshot goes. -/
theorem key_ne_of_mem_logsOf {log : StoredLog} (h : log ∈ logsOf ext s es) (agentID : Int) :
    log.key ≠ currentProcessListKey agentID :=
  EventMachine.forall_mem_collect (fun _ _ _ hlog => key_ne_of_mem_storedLogs hlog agentID) s es
    log h

theorem timesNewestFirst_list_iff {log : StoredLog} (hempty : ∀ key, s.store.list key = [])
    (hrun : (machine ext).run s es = some s') (hlog : log ∈ logsOf ext s es) :
    RedisJob.TimesNewestFirst (s'.store.list log.key) ↔
      (StoredLog.timesAt (logsOf ext s es) log.key).Pairwise (· ≥ ·) := by
  have htimes := map_timeOf_run (key_ne_of_mem_logsOf hlog) (hempty _) hrun
  constructor
  · rintro ⟨times, heq, hpairwise⟩
    rwa [List.map_injective_iff.mpr (Option.some_injective _) (htimes.symm.trans heq)]
  · exact fun hpairwise => ⟨_, htimes, hpairwise⟩

end

end Server

/-- When the logs of each series come in order, the lists in which they are stored have the newest
log first if and only if the logs of different series that are stored under one key come in order as
well. In such a list no entry of a window is skipped. -/
theorem timesNewestFirst_iff {ι : Type} [DecidableEq ι] {ext : Externals} {s s' : Server ι}
    {es : List (ServerEvent ι)} (hempty : ∀ key, s.store.list key = [])
    (hseries : StoredLog.SeriesInOrder (Server.logsOf ext s es))
    (hrun : (Server.machine ext).run s es = some s') :
    ((∀ log ∈ Server.logsOf ext s es, RedisJob.TimesNewestFirst (s'.store.list log.key)) ↔
      StoredLog.KeysInOrder (Server.logsOf ext s es)) ∧
    ∀ key, RedisJob.TimesNewestFirst (s'.store.list key) →
      ∀ (V : Type) (float : ByteStr → Option V) (startTime endTime : Int)
        (entries : List (Int × V)),
        RedisJob.Reads float (lrange (s'.store.list key) 0 (endTime - startTime)) entries →
        RedisJob.counterValues float startTime endTime
            (lrange (s'.store.list key) 0 (endTime - startTime)) =
          some (entries.filter fun x => startTime ≤ x.1 ∧ x.1 < endTime) := by
  constructor
  · rw [← StoredLog.timesAt_iff hseries]
    exact forall₂_congr fun log hlog => Server.timesNewestFirst_list_iff hempty hrun hlog
  · intro key hkey V float startTime endTime entries hreads
    obtain ⟨n, hn, -⟩ := lrange_zero (s'.store.list key) (endTime - startTime)
    rw [hn] at hreads ⊢
    exact RedisJob.counterValues_eq_filter hreads ((hkey.take n).newestFirst hreads) _ _

/-- An agent connects and sends logs of two counters of a process, twice. -/
def twoCounters (counter counter' : ByteStr) : List (ServerEvent Unit) :=
  [.accept false (), .agent () 0 (.agentIDRequest 7 1 0),
    .agent () 0 (.processInfoSend [⟨counter, ascii "a", 1, [⟨3, 0⟩, ⟨5, 0⟩]⟩,
      ⟨counter', ascii "a", 1, [⟨3, 0⟩, ⟨5, 0⟩]⟩]),
    .agent () 0 (.processInfoSend [⟨counter, ascii "a", 1, [⟨5, 0⟩]⟩])]

theorem timesNewestFirst_iff_twoCounters : ∃ s, (Server.machine noTexts).run (.init .empty)
      (twoCounters (ascii "% Processor Time") (ascii "Working Set - Private")) = some s ∧
    ∀ log ∈ Server.logsOf noTexts (.init .empty)
        (twoCounters (ascii "% Processor Time") (ascii "Working Set - Private")),
      RedisJob.TimesNewestFirst (s.store.list log.key) := by
  obtain ⟨s, hs⟩ : ∃ s, (Server.machine noTexts).run (.init .empty)
      (twoCounters (ascii "% Processor Time") (ascii "Working Set - Private")) = some s := ⟨_, rfl⟩
  have hseries : StoredLog.SeriesInOrder (Server.logsOf noTexts (.init .empty)
      (twoCounters (ascii "% Processor Time") (ascii "Working Set - Private"))) := by decide
  have hkeys : StoredLog.KeysInOrder (Server.logsOf noTexts (.init .empty)
      (twoCounters (ascii "% Processor Time") (ascii "Working Set - Private"))) := by decide
  exact ⟨s, hs, (timesNewestFirst_iff (fun _ => rfl) hseries hs).1.mpr hkeys⟩

/-- The paths of two counters have no name, and their logs are mixed. -/
theorem not_timesNewestFirst_twoCounters : ∃ s, (Server.machine noTexts).run (.init .empty)
      (twoCounters (ascii "Thread Count") (ascii "Handle Count")) = some s ∧
    StoredLog.SeriesInOrder (Server.logsOf noTexts (.init .empty)
      (twoCounters (ascii "Thread Count") (ascii "Handle Count"))) ∧
    ¬∀ log ∈ Server.logsOf noTexts (.init .empty)
        (twoCounters (ascii "Thread Count") (ascii "Handle Count")),
      RedisJob.TimesNewestFirst (s.store.list log.key) := by
  obtain ⟨s, hs⟩ : ∃ s, (Server.machine noTexts).run (.init .empty)
      (twoCounters (ascii "Thread Count") (ascii "Handle Count")) = some s := ⟨_, rfl⟩
  have hseries : StoredLog.SeriesInOrder (Server.logsOf noTexts (.init .empty)
      (twoCounters (ascii "Thread Count") (ascii "Handle Count"))) := by decide
  have hkeys : ¬StoredLog.KeysInOrder (Server.logsOf noTexts (.init .empty)
      (twoCounters (ascii "Thread Count") (ascii "Handle Count"))) := by decide
  refine ⟨s, hs, hseries, fun h => hkeys ((StoredLog.timesAt_iff hseries).mp fun log hlog => ?_)⟩
  exact (Server.timesNewestFirst_list_iff (fun _ => rfl) hs hlog).mp (h log hlog)

end PSM
