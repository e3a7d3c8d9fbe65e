import PSM.Helper
import PSM.PacketPool

/-! The entries of the watched counters (`Query::InitCounterInfo` and `Query::ClearLogList`).

`InitCounterInfo` takes an entry out of the pool, registers its counter with PDH and puts the entry
on the log list, from where `ClearLogList` gives it back. When all calls succeed the list has exactly
the watched instances (`watches_exactly`). An entry whose registration fails is on no list any more;
apart from that no entry is lost (`entries_conserved_iff`). -/

namespace PSM
open ByteStr

/-! ## Pools of entries -/

/-- A counter's handle is represented by the path that the counter was registered under. -/
structure WatchedProcess extends ProcessCounterEntry where
  counter : ByteStr

structure WatchedMachine extends MachineCounterEntry where
  counter : ByteStr

/-- A pool of entries, and the list of those that are logged. An entry is represented by its number,
and `memory` has its contents. -/
structure EntryPool (E : Type) where
  poolManager : MemPooler Nat
  memory : Nat → E
  logList : List Nat

/-- What is done to an entry of type `E` for a counter of type `T`. `write` comes before the call of
`PdhAddCounter`, and `register` is what the call and the statements after it write. -/
structure EntryKind (T E : Type) where
  clearLogs : E → E
  pushLog : E → Log → E
  write : T → E → E
  register : T → E → E

/-- The number of entries of a pool. -/
def entryPoolSize : Nat := 1000

namespace EntryPool

variable {T E : Type}

def create (memory : Nat → E) : EntryPool E := ⟨.create (List.range entryPoolSize), memory, []⟩

def modify (q : EntryPool E) (p : Nat) (f : E → E) : EntryPool E :=
  { q with memory := Function.update q.memory p (f (q.memory p)) }

/-- The loop of `ClearLogList`. -/
def freeAll (K : EntryKind T E) (q : EntryPool E) (ps : List Nat) : EntryPool E :=
  ps.foldl (fun q p => { q.modify p K.clearLogs with poolManager := (q.poolManager.free p).2 }) q

def clearLogList (K : EntryKind T E) (q : EntryPool E) : EntryPool E :=
  { freeAll K q q.logList with logList := [] }

/-- The loops of `InitCounterInfo`, from the call number `k` of `PdhAddCounter` on. There is no result
when the assertion fails. -/
def addEntries (K : EntryKind T E) (results : Nat → Bool) (k : Nat) :
    List T → EntryPool E → Option (Bool × EntryPool E)
  | [], q => some (true, q)
  | x :: xs, q =>
    match q.poolManager.alloc with
    | (some p, poolManager) =>
      let q := { q with poolManager }.modify p (K.write x)
      if results k then
        addEntries K results (k + 1) xs { q.modify p (K.register x) with logList := q.logList ++ [p] }
      else some (false, q)
    | (none, _) => none

/-- The loop of `Record` over the entries, in which some of the values can be read. -/
def pushLogs (K : EntryKind T E) (values : Nat → Option Log) (q : EntryPool E) : EntryPool E :=
  q.logList.zipIdx.foldl (fun q x => match values x.2 with
    | some log => q.modify x.1 (K.pushLog · log)
    | none => q) q

/-! ## Where the entries are -/

/-- The entries that are free or logged. -/
def blocks (q : EntryPool E) : List Nat := q.poolManager.m_freeVector ++ q.logList

/-- Each entry of the pool is in one place, once. -/
def Partitioned (q : EntryPool E) : Prop := q.blocks.Perm (List.range entryPoolSize)

/-- No entry is in two places, and those that are not free count as allocated. -/
structure Sound (q : EntryPool E) : Prop where
  nodup : q.blocks.Nodup
  lt : ∀ p ∈ q.blocks, p < entryPoolSize
  count : q.poolManager.m_nAllocCount + q.poolManager.m_freeVector.length = entryPoolSize

/-- The contents of the logged entries. -/
def entries (q : EntryPool E) : List E := q.logList.map q.memory

section
variable {K : EntryKind T E} {q q' : EntryPool E} {p k : Nat} {results : Nat → Bool}
  {xs : List T} {b : Bool}

theorem sound_create {memory : Nat → E} : (create memory).Sound where
  nodup := by simpa [blocks, create, MemPooler.create] using List.nodup_range
  lt := by simp [blocks, create, MemPooler.create]
  count := by simp [create, MemPooler.create]

theorem partitioned_create {memory : Nat → E} : (create memory).Partitioned := by
  simp [Partitioned, blocks, create, MemPooler.create]

theorem Sound.subperm (h : q.Sound) : q.blocks.Subperm (List.range entryPoolSize) :=
  List.subperm_of_subset h.nodup fun p hp => List.mem_range.mpr (h.lt p hp)

/-- Nothing is missing exactly when the number of entries is right. -/
theorem Sound.partitioned_iff (h : q.Sound) :
    q.Partitioned ↔ q.blocks.length = entryPoolSize := by
  constructor
  · intro hperm
    rw [hperm.length_eq, List.length_range]
  · intro hlength
    exact h.subperm.perm_of_length_le (by rw [hlength, List.length_range])

theorem Sound.length_logList_le (h : q.Sound) :
    q.logList.length ≤ q.poolManager.m_nAllocCount := by
  have hlength := h.subperm.length_le
  rw [blocks, List.length_append, List.length_range] at hlength
  have := h.count
  omega

theorem freeAll_poolManager {ps : List Nat} (h : ps.length ≤ q.poolManager.m_nAllocCount) :
    (freeAll K q ps).poolManager =
      ⟨q.poolManager.m_nAllocCount - ps.length, q.poolManager.m_freeVector ++ ps⟩ := by
  induction ps generalizing q with
  | nil => simp [freeAll]
  | cons p ps ih =>
    rw [List.length_cons] at h
    have hfree : (q.poolManager.free p).2 =
        ⟨q.poolManager.m_nAllocCount - 1, q.poolManager.m_freeVector ++ [p]⟩ := by
      rw [MemPooler.free, if_pos (by omega)]
    rw [freeAll, List.foldl_cons, hfree, ← freeAll, ih (by dsimp only; omega)]
    simp only [List.append_assoc, List.singleton_append, List.length_cons]
    rw [Nat.sub_sub, Nat.add_comm 1]

/-- `ClearLogList` gives every entry back. -/
theorem Sound.clearLogList (h : q.Sound) :
    (clearLogList K q).poolManager = ⟨q.poolManager.m_nAllocCount - q.logList.length, q.blocks⟩ ∧
      (clearLogList K q).logList = [] :=
  ⟨freeAll_poolManager h.length_logList_le, rfl⟩

theorem Sound.clear_blocks (h : q.Sound) : (EntryPool.clearLogList K q).blocks = q.blocks := by
  rw [blocks, (h.clearLogList).1, (h.clearLogList).2, List.append_nil]

theorem Sound.clear (h : q.Sound) : (EntryPool.clearLogList K q).Sound where
  nodup := by rw [h.clear_blocks]; exact h.nodup
  lt := by rw [h.clear_blocks]; exact h.lt
  count := by
    have := h.length_logList_le
    have := h.count
    rw [(h.clearLogList).1, blocks, List.length_append]
    dsimp only
    omega

/-- Only contents change. -/
theorem pushLogs_eq (values : Nat → Option Log) : ∃ memory,
    pushLogs K values q = ⟨q.poolManager, memory, q.logList⟩ := by
  rw [pushLogs]
  generalize q.logList.zipIdx = ps
  induction ps generalizing q with
  | nil => exact ⟨_, rfl⟩
  | cons x ps ih =>
    rw [List.foldl_cons]
    split
    · exact ih
    · exact ih

theorem pushLogs_blocks (values : Nat → Option Log) : (pushLogs K values q).blocks = q.blocks := by
  obtain ⟨memory, heq⟩ := pushLogs_eq (K := K) (q := q) values
  rw [heq]
  rfl

theorem Sound.pushLogs (h : q.Sound) (values : Nat → Option Log) :
    (EntryPool.pushLogs K values q).Sound := by
  obtain ⟨memory, heq⟩ := pushLogs_eq (K := K) (q := q) values
  rw [heq]
  exact ⟨h.nodup, h.lt, h.count⟩

/-- One round of the loops, with the head of the free list. -/
theorem addEntries_cons {x : T} {rest : List Nat} (hfree : q.poolManager.m_freeVector = p :: rest) :
    addEntries K results k (x :: xs) q =
      if results k then
        addEntries K results (k + 1) xs ⟨⟨q.poolManager.m_nAllocCount + 1, rest⟩,
          Function.update q.memory p (K.register x (K.write x (q.memory p))), q.logList ++ [p]⟩
      else some (false, ⟨⟨q.poolManager.m_nAllocCount + 1, rest⟩,
        Function.update q.memory p (K.write x (q.memory p)), q.logList⟩) := by
  rw [addEntries, MemPooler.alloc, hfree]
  simp only [modify, Function.update_self, Function.update_idem]

theorem addEntries_cons_nil {x : T} (hfree : q.poolManager.m_freeVector = []) :
    addEntries K results k (x :: xs) q = none := by
  rw [addEntries, MemPooler.alloc, hfree]

/-- An entry taken out of the pool, on no list. -/
theorem Sound.taken {rest : List Nat} (h : q.Sound)
    (hfree : q.poolManager.m_freeVector = p :: rest) {memory : Nat → E} :
    Sound ⟨⟨q.poolManager.m_nAllocCount + 1, rest⟩, memory, q.logList⟩ := by
  have hsub : (rest ++ q.logList).Sublist q.blocks := by
    rw [blocks, hfree]
    exact List.sublist_cons_self p _
  refine ⟨h.nodup.sublist hsub, fun p' hp' => h.lt p' (hsub.subset hp'), ?_⟩
  have := h.count
  rw [hfree, List.length_cons] at this
  dsimp only
  omega

theorem perm_moved {rest : List Nat} (hfree : q.poolManager.m_freeVector = p :: rest) :
    (rest ++ (q.logList ++ [p])).Perm q.blocks := by
  rw [blocks, hfree, ← List.append_assoc]
  exact List.perm_append_singleton p _

/-- An entry moved from the pool to the log list. -/
theorem Sound.moved {rest : List Nat} (h : q.Sound)
    (hfree : q.poolManager.m_freeVector = p :: rest) {memory : Nat → E} :
    Sound ⟨⟨q.poolManager.m_nAllocCount + 1, rest⟩, memory, q.logList ++ [p]⟩ := by
  have hperm := perm_moved hfree
  have htaken : Sound ⟨⟨q.poolManager.m_nAllocCount + 1, rest⟩, memory, q.logList⟩ := h.taken hfree
  exact ⟨hperm.nodup_iff.mpr h.nodup, fun p' hp' => h.lt p' (hperm.subset hp'), htaken.count⟩

/-- The loops end with all entries on the list, or with one of them on none, after a call that
failed. -/
theorem Sound.addEntries (h : q.Sound) (hadd : addEntries K results k xs q = some (b, q')) :
    q'.Sound ∧ (q'.blocks.length = q.blocks.length ∧ (∀ i < xs.length, results (k + i)) ∨
      q'.blocks.length + 1 = q.blocks.length ∧ ∃ i < xs.length, ¬results (k + i)) := by
  induction xs generalizing k q with
  | nil =>
    cases hadd
    exact ⟨h, .inl ⟨rfl, fun i hi => absurd hi (Nat.not_lt_zero i)⟩⟩
  | cons x xs ih =>
    cases hfree : q.poolManager.m_freeVector with
    | nil =>
      rw [addEntries_cons_nil hfree] at hadd
      cases hadd
    | cons p rest =>
      rw [addEntries_cons hfree] at hadd
      split at hadd
      · rename_i hk
        obtain ⟨hsound, hcases⟩ := ih (h.moved hfree) hadd
        have hlength := (perm_moved hfree).length_eq
        refine ⟨hsound, hcases.imp ?_ ?_⟩
        · rintro ⟨hblocks, hresults⟩
          refine ⟨hblocks.trans hlength, fun i hi => ?_⟩
          cases i with
          | zero => exact hk
          | succ i =>
            rw [Nat.add_succ, ← Nat.succ_add]
            exact hresults i (by simpa using hi)
        · rintro ⟨hblocks, i, hi, hresult⟩
          refine ⟨hblocks.trans hlength, i + 1, by simpa using hi, ?_⟩
          rwa [Nat.add_succ, ← Nat.succ_add]
      · rename_i hk
        cases hadd
        refine ⟨h.taken hfree, .inr ⟨?_, 0, by simp, hk⟩⟩
        simp [blocks, hfree]

/-- With entries enough, the assertion holds. -/
theorem exists_addEntries (hlength : xs.length ≤ q.poolManager.m_freeVector.length) :
    ∃ r, addEntries K results k xs q = some r := by
  induction xs generalizing k q with
  | nil => exact ⟨_, rfl⟩
  | cons x xs ih =>
    cases hfree : q.poolManager.m_freeVector with
    | nil => simp [hfree] at hlength
    | cons p rest =>
      rw [hfree, List.length_cons, List.length_cons] at hlength
      rw [addEntries_cons hfree]
      split
      · exact ih (Nat.le_of_succ_le_succ hlength)
      · exact ⟨_, rfl⟩

/-- When no call fails and there are entries enough, each counter gets an entry. -/
theorem addEntries_success (hnodup : q.blocks.Nodup)
    (hlength : xs.length ≤ q.poolManager.m_freeVector.length)
    (hresults : ∀ i < xs.length, results (k + i)) (entry : T → E)
    (hentry : ∀ x e, K.register x (K.write x e) = entry x) :
    ∃ q', addEntries K results k xs q = some (true, q') ∧
      q'.entries = q.entries ++ xs.map entry := by
  induction xs generalizing k q with
  | nil => exact ⟨q, rfl, (List.append_nil _).symm⟩
  | cons x xs ih =>
    cases hfree : q.poolManager.m_freeVector with
    | nil => simp [hfree] at hlength
    | cons p rest =>
      have hk : results k := hresults 0 (by simp)
      have hrest : ∀ i < xs.length, results (k + 1 + i) := fun i hi => by
        rw [Nat.add_assoc, Nat.add_comm 1]
        exact hresults (i + 1) (by simpa using hi)
      have hnotMem : p ∉ q.logList := by
        rw [blocks, hfree] at hnodup
        exact fun hp => (List.nodup_cons.mp hnodup).1 (List.mem_append_right _ hp)
      rw [hfree, List.length_cons, List.length_cons] at hlength
      rw [addEntries_cons hfree, if_pos hk, hentry]
      obtain ⟨q', hq', heq⟩ := @ih ⟨⟨q.poolManager.m_nAllocCount + 1, rest⟩,
        Function.update q.memory p (entry x), q.logList ++ [p]⟩ (k + 1)
        ((perm_moved hfree).nodup_iff.mpr hnodup) (by dsimp only; omega) hrest
      refine ⟨q', hq', heq.trans ?_⟩
      -- the entries that are on the list already stay as they are
      have hmap : q.logList.map (Function.update q.memory p (entry x)) = q.entries :=
        List.map_congr_left fun p' hp' => Function.update_of_ne (ne_of_mem_of_not_mem hp' hnotMem) ..
      rw [entries, List.map_append, hmap, List.map_singleton]
      dsimp only
      rw [Function.update_self, List.append_assoc, List.map_cons, List.singleton_append]

end

end EntryPool

/-! ## The pools of the recorder -/

/-- The two pools of `Query`. -/
structure QueryPools where
  process : EntryPool WatchedProcess
  machine : EntryPool WatchedMachine

/-- A call that `Record` makes, with the results of the calls of `PdhAddCounter` in it, or the loop in
which it reads the values. -/
inductive QueryCall where
  | initProcess (processList : List NumberedProcess) (checkProcessList counterList : List ByteStr)
    (results : Nat → Bool)
  | initMachine (machineCounterList : List ByteStr) (results : Nat → Bool)
  | clearLogList (isMachine : Bool)
  | pushLogs (isMachine : Bool) (values : Nat → Option Log)

namespace Query

def isCheckProcess (checkProcessList : List ByteStr) (processName : ByteStr) : Bool :=
  checkProcessList.any (processName = ·)

/-- The path of a counter of a process. -/
def counterPath (p : NumberedProcess) (counterName : ByteStr) : ByteStr :=
  if p.number = 0 then ascii "\\Process(" ++ p.name ++ ascii ")\\" ++ counterName
  else ascii "\\Process(" ++ p.name ++ ascii "#" ++ decimal p.number ++ ascii ")\\" ++ counterName

def processKind : EntryKind (NumberedProcess × ByteStr) WatchedProcess where
  clearLogs pce := { pce with logs := [] }
  pushLog pce log := { pce with logs := pce.logs ++ [log] }
  write x pce := { pce with counterName := x.2 }
  register x pce := { pce with
    counter := counterPath x.1 x.2
    processName := x.1.name
    processID := x.1.processID
    logs := [] }

def machineKind : EntryKind ByteStr WatchedMachine where
  clearLogs mce := { mce with logs := [] }
  pushLog mce log := { mce with logs := mce.logs ++ [log] }
  write _ mce := mce
  register counterName mce := { mce with counter := counterName, counterName := counterName, logs := [] }

/-- The processes and counters that the loops come to. -/
def watched (processList : List NumberedProcess) (checkProcessList counterList : List ByteStr) :
    List (NumberedProcess × ByteStr) :=
  (processList.filter fun p => isCheckProcess checkProcessList p.name).flatMap fun p =>
    counterList.map fun counterName => (p, counterName)

/-- `InitCounterInfo(query, false)`, when `UpdateProcessList` has made the given list. The first call
of `PdhAddCounter` is for the CPU counter. -/
def initProcess (processList : List NumberedProcess) (checkProcessList counterList : List ByteStr)
    (results : Nat → Bool) (q : EntryPool WatchedProcess) :
    Option (Bool × EntryPool WatchedProcess) :=
  let q := q.clearLogList processKind
  if !results 0 then some (false, q)
  else q.addEntries processKind results 1 (watched processList checkProcessList counterList)

/-- `InitCounterInfo(query, true)`. -/
def initMachine (machineCounterList : List ByteStr) (results : Nat → Bool)
    (q : EntryPool WatchedMachine) : Option (Bool × EntryPool WatchedMachine) :=
  (q.clearLogList machineKind).addEntries machineKind results 0 machineCounterList

def step (q : QueryPools) : QueryCall → Option QueryPools
  | .initProcess processList checkProcessList counterList results =>
    (initProcess processList checkProcessList counterList results q.process).map fun r =>
      { q with process := r.2 }
  | .initMachine machineCounterList results =>
    (initMachine machineCounterList results q.machine).map fun r => { q with machine := r.2 }
  | .clearLogList true => some { q with machine := q.machine.clearLogList machineKind }
  | .clearLogList false => some { q with process := q.process.clearLogList processKind }
  | .pushLogs true values => some { q with machine := q.machine.pushLogs machineKind values }
  | .pushLogs false values => some { q with process := q.process.pushLogs processKind values }

/-- Runs of the calls. A run ends where an assertion fails. -/
def poolMachine : EventMachine QueryPools QueryCall := ⟨step⟩

def initPools (memory : Nat → WatchedProcess) (mmemory : Nat → WatchedMachine) : QueryPools :=
  ⟨.create memory, .create mmemory⟩

/-! ## Conservation -/

/-- In both pools each entry is in one place. -/
def Partitioned (q : QueryPools) : Prop := q.process.Partitioned ∧ q.machine.Partitioned

structure Sound (q : QueryPools) : Prop where
  process : q.process.Sound
  machine : q.machine.Sound

/-- No call of `PdhAddCounter` for an entry fails. -/
def NoLeak : QueryCall → Prop
  | .initProcess processList checkProcessList counterList results => results 0 →
    ∀ i < (watched processList checkProcessList counterList).length, results (1 + i)
  | .initMachine machineCounterList results => ∀ i < machineCounterList.length, results (0 + i)
  | .clearLogList _ => True
  | .pushLogs _ _ => True

/-- The call does not need more entries than there are. -/
def Fits : QueryCall → Prop
  | .initProcess processList checkProcessList counterList _ =>
    (watched processList checkProcessList counterList).length ≤ entryPoolSize
  | .initMachine machineCounterList _ => machineCounterList.length ≤ entryPoolSize
  | .clearLogList _ => True
  | .pushLogs _ _ => True

/-- The number of entries that are free or logged. -/
def size (q : QueryPools) : Nat := q.process.blocks.length + q.machine.blocks.length

section
variable {q q' : QueryPools} {e : QueryCall} {es : List QueryCall}

theorem Sound.partitioned_iff (h : Sound q) :
    Partitioned q ↔ size q = entryPoolSize + entryPoolSize := by
  have hprocess := h.process.subperm.length_le
  have hmachine := h.machine.subperm.length_le
  rw [List.length_range] at hprocess hmachine
  rw [Partitioned, h.process.partitioned_iff, h.machine.partitioned_iff, size]
  omega

/-- A call loses no entry, or one of those whose registration failed. -/
theorem Sound.step (h : Sound q) (hstep : poolMachine.step q e = some q') :
    Sound q' ∧ (size q' = size q ∧ NoLeak e ∨ size q' + 1 = size q ∧ ¬NoLeak e) := by
  cases e with
  | initProcess processList checkProcessList counterList results =>
    obtain ⟨⟨b, p⟩, hinit, rfl⟩ := Option.map_eq_some_iff.mp hstep
    simp only [initProcess] at hinit
    by_cases hcpu : results 0
    · rw [hcpu, Bool.not_true, if_neg Bool.false_ne_true] at hinit
      obtain ⟨hsound, hcases⟩ := h.process.clear.addEntries hinit
      rw [h.process.clear_blocks] at hcases
      refine ⟨⟨hsound, h.machine⟩, hcases.imp ?_ ?_⟩
      · exact fun ⟨hlength, hresults⟩ => ⟨congrArg (· + _) hlength, fun _ => hresults⟩
      · rintro ⟨hlength, i, hi, hresult⟩
        refine ⟨?_, fun hno => hresult (hno hcpu i hi)⟩
        simp only [size]
        omega
    · rw [Bool.not_eq_true] at hcpu
      rw [hcpu, Bool.not_false, if_pos rfl] at hinit
      cases hinit
      refine ⟨⟨h.process.clear, h.machine⟩, .inl ⟨?_, fun hcpu' => ?_⟩⟩
      · simp only [size, h.process.clear_blocks]
      · rw [hcpu] at hcpu'
        cases hcpu'
  | initMachine machineCounterList results =>
    obtain ⟨⟨b, p⟩, hinit, rfl⟩ := Option.map_eq_some_iff.mp hstep
    obtain ⟨hsound, hcases⟩ := h.machine.clear.addEntries hinit
    rw [h.machine.clear_blocks] at hcases
    refine ⟨⟨h.process, hsound⟩, hcases.imp ?_ ?_⟩
    · exact fun ⟨hlength, hresults⟩ => ⟨congrArg (_ + ·) hlength, hresults⟩
    · rintro ⟨hlength, i, hi, hresult⟩
      refine ⟨?_, fun hno => hresult (hno i hi)⟩
      simp only [size]
      omega
  | clearLogList isMachine =>
    cases isMachine <;> cases hstep
    · refine ⟨⟨h.process.clear, h.machine⟩, .inl ⟨?_, trivial⟩⟩
      simp only [size, h.process.clear_blocks]
    · refine ⟨⟨h.process, h.machine.clear⟩, .inl ⟨?_, trivial⟩⟩
      simp only [size, h.machine.clear_blocks]
  | pushLogs isMachine values =>
    cases isMachine <;> cases hstep
    · refine ⟨⟨h.process.pushLogs values, h.machine⟩, .inl ⟨?_, trivial⟩⟩
      simp only [size, EntryPool.pushLogs_blocks]
    · refine ⟨⟨h.process, h.machine.pushLogs values⟩, .inl ⟨?_, trivial⟩⟩
      simp only [size, EntryPool.pushLogs_blocks]

/-- What an entry is for. -/
def processEntry (x : NumberedProcess × ByteStr) : WatchedProcess :=
  ⟨⟨x.2, x.1.name, x.1.processID, []⟩, counterPath x.1 x.2⟩

/-- When all calls succeed and there are entries enough, `InitCounterInfo` leaves the watched
counters on the list. -/
theorem initProcess_success {q : EntryPool WatchedProcess} (h : q.Sound)
    {processList : List NumberedProcess} {checkProcessList counterList : List ByteStr}
    {results : Nat → Bool} (hcpu : results 0)
    (hresults : ∀ i < (watched processList checkProcessList counterList).length, results (1 + i))
    (hlength : (watched processList checkProcessList counterList).length ≤ q.blocks.length) :
    ∃ q', initProcess processList checkProcessList counterList results q = some (true, q') ∧
      q'.entries = (watched processList checkProcessList counterList).map processEntry := by
  have hclear := h.clearLogList (K := processKind)
  obtain ⟨q', hq', heq⟩ := EntryPool.addEntries_success (K := processKind) (k := 1)
    (h.clear (K := processKind)).nodup (by rwa [hclear.1]) hresults processEntry fun _ _ => rfl
  refine ⟨q', ?_, ?_⟩
  · rw [initProcess, hcpu]
    exact hq'
  · rw [heq, EntryPool.entries, hclear.2]
    rfl

/-- In a state in which no entry is missing, the assertion holds. -/
theorem Sound.exists_step (h : Sound q) (hq : Partitioned q) (hfits : Fits e) :
    ∃ q', poolMachine.step q e = some q' := by
  cases e with
  | initProcess processList checkProcessList counterList results =>
    by_cases hcpu : results 0
    · have hfree := congrArg MemPooler.m_freeVector (h.process.clearLogList (K := processKind)).1
      have hlength := h.process.partitioned_iff.mp hq.1
      obtain ⟨r, hr⟩ : ∃ r, (q.process.clearLogList processKind).addEntries processKind results 1
          (watched processList checkProcessList counterList) = some r :=
        EntryPool.exists_addEntries (by rw [hfree, hlength]; exact hfits)
      exact ⟨{ q with process := r.2 }, by simp [poolMachine, Query.step, initProcess, hcpu, hr]⟩
    · rw [Bool.not_eq_true] at hcpu
      simp [poolMachine, Query.step, initProcess, hcpu]
  | initMachine machineCounterList results =>
    have hfree := congrArg MemPooler.m_freeVector (h.machine.clearLogList (K := machineKind)).1
    have hlength := h.machine.partitioned_iff.mp hq.2
    obtain ⟨r, hr⟩ : ∃ r, (q.machine.clearLogList machineKind).addEntries machineKind results 0
        machineCounterList = some r :=
      EntryPool.exists_addEntries (by rw [hfree, hlength]; exact hfits)
    exact ⟨{ q with machine := r.2 }, by simp [poolMachine, Query.step, initMachine, hr]⟩
  | clearLogList isMachine => cases isMachine <;> exact ⟨_, rfl⟩
  | pushLogs isMachine values => cases isMachine <;> exact ⟨_, rfl⟩

theorem sound_initPools {memory : Nat → WatchedProcess} {mmemory : Nat → WatchedMachine} :
    Sound (initPools memory mmemory) := ⟨EntryPool.sound_create, EntryPool.sound_create⟩

theorem partitioned_initPools {memory : Nat → WatchedProcess} {mmemory : Nat → WatchedMachine} :
    Partitioned (initPools memory mmemory) :=
  ⟨EntryPool.partitioned_create, EntryPool.partitioned_create⟩

theorem exists_run_of_noLeak (h : Sound q) (hq : Partitioned q)
    (hes : ∀ e ∈ es, NoLeak e ∧ Fits e) : ∃ q', poolMachine.run q es = some q' := by
  induction es generalizing q with
  | nil => exact ⟨q, rfl⟩
  | cons e es ih =>
    obtain ⟨⟨hno, hfits⟩, hrest⟩ := List.forall_mem_cons.mp hes
    obtain ⟨q₁, hstep⟩ := h.exists_step hq hfits
    obtain ⟨h₁, hcases⟩ := h.step hstep
    have hsize : size q₁ = size q := by
      rcases hcases with ⟨hsize, -⟩ | ⟨-, hleak⟩
      · exact hsize
      · exact absurd hno hleak
    have hq₁ : Partitioned q₁ := h₁.partitioned_iff.mpr (hsize.trans (h.partitioned_iff.mp hq))
    obtain ⟨q', hrun⟩ := ih h₁ hq₁ hrest
    exact ⟨q', by rw [EventMachine.run_cons, hstep]; exact hrun⟩

end

/-- In a run, the entries of both pools are each in one place throughout exactly when no registration
of an entry fails, and then no assertion fails as long as no call needs more entries than there
are. -/
theorem entries_conserved_iff (memory : Nat → WatchedProcess) (mmemory : Nat → WatchedMachine)
    (es : List QueryCall) :
    (∀ q, poolMachine.run (initPools memory mmemory) es = some q →
      (poolMachine.Always Partitioned (initPools memory mmemory) es ↔ ∀ e ∈ es, NoLeak e)) ∧
    ((∀ e ∈ es, NoLeak e ∧ Fits e) →
      ∃ q, poolMachine.run (initPools memory mmemory) es = some q) := by
  refine ⟨fun q hrun => ?_, exists_run_of_noLeak sound_initPools partitioned_initPools⟩
  rw [← EventMachine.meets_const_iff hrun]
  refine EventMachine.always_iff_meets (J := Sound) (fun hstep h => (h.step hstep).1) ?_
    sound_initPools partitioned_initPools hrun
  intro q e q' hstep h hq
  obtain ⟨h', hcases⟩ := h.step hstep
  rw [h'.partitioned_iff]
  have hsize := h.partitioned_iff.mp hq
  rcases hcases with ⟨hsame, hno⟩ | ⟨hless, hleak⟩
  · exact iff_of_true (hsame.trans hsize) hno
  · exact iff_of_false (by omega) hleak

/-- One process is watched for one counter. -/
def watchOne (results : Nat → Bool) : QueryCall :=
  .initProcess [⟨⟨ascii "a", 3⟩, 0⟩] [ascii "a"] [ascii "% Processor Time"] results

def blankPools : QueryPools :=
  initPools (fun _ => ⟨⟨[], [], 0, []⟩, []⟩) fun _ => ⟨⟨[], []⟩, []⟩

theorem fits_watchOne (results : Nat → Bool) : Fits (watchOne results) := by
  have hone : (watched [⟨⟨ascii "a", 3⟩, 0⟩] [ascii "a"] [ascii "% Processor Time"]).length = 1 := by
    decide
  rw [watchOne, Fits, hone]
  decide

theorem exists_watchOne (results : Nat → Bool) :
    ∃ q, poolMachine.run blankPools [watchOne results] = some q := by
  obtain ⟨q, hq⟩ := sound_initPools.exists_step partitioned_initPools (fits_watchOne results)
  exact ⟨q, by rw [EventMachine.run_cons, blankPools, hq]; rfl⟩

theorem entries_conserved_iff_watchOne :
    (∃ q, poolMachine.run blankPools [watchOne fun _ => true] = some q) ∧
      poolMachine.Always Partitioned blankPools [watchOne fun _ => true] := by
  have hiff := (entries_conserved_iff (fun _ => ⟨⟨[], [], 0, []⟩, []⟩) (fun _ => ⟨⟨[], []⟩, []⟩)
    [watchOne fun _ => true]).1
  obtain ⟨q, hq⟩ := exists_watchOne fun _ => true
  refine ⟨⟨q, hq⟩, (hiff q hq).mpr ?_⟩
  rw [List.forall_mem_singleton]
  exact fun _ _ _ => rfl

/-- The call for the entry fails, after the one for the CPU counter has succeeded. -/
theorem failed_entry_lost : ∃ q, poolMachine.run blankPools [watchOne fun i => i == 0] = some q ∧
    Fits (watchOne fun i => i == 0) ∧
    ¬poolMachine.Always Partitioned blankPools [watchOne fun i => i == 0] := by
  obtain ⟨q, hq⟩ := exists_watchOne fun i => i == 0
  refine ⟨q, hq, fits_watchOne _, fun halways => ?_⟩
  have hpart : Partitioned q := halways.last hq
  rw [EventMachine.run_cons, Option.bind_eq_some_iff] at hq
  obtain ⟨q', hstep, hq'⟩ := hq
  cases hq'
  have hinit : Sound blankPools := sound_initPools
  have hsize := hinit.partitioned_iff.mp partitioned_initPools
  obtain ⟨hsound, hcases⟩ := hinit.step hstep
  rw [hsound.partitioned_iff] at hpart
  rcases hcases with ⟨-, hno⟩ | ⟨hless, -⟩
  · exact absurd (hno rfl 0 (by decide)) (by decide)
  · omega

/-! ## The watched instances -/

/-- The instance of a process with the given number of earlier ones of its name. -/
def instanceName (name : ByteStr) (number : Nat) : ByteStr :=
  if number = 0 then name else name ++ ascii "#" ++ decimal number

/-- The entry of a process for a counter. -/
def instanceEntry (p : NumberedProcess) (counterName : ByteStr) : WatchedProcess where
  counterName := counterName
  processName := p.name
  processID := p.processID
  logs := []
  counter := ascii "\\Process(" ++ instanceName p.name p.number ++ ascii ")\\" ++ counterName

/-- The entries for a snapshot: one for each process of a watched name and each counter. -/
def instanceEntries (snapshot : List ProcessEntry) (checkProcessList counterList : List ByteStr) :
    List WatchedProcess :=
  ((Helper.numbered [] (snapshot.drop 2)).filter fun p => p.name ∈ checkProcessList).flatMap fun p =>
    counterList.map (instanceEntry p)

section
variable {processList : List NumberedProcess} {checkProcessList counterList : List ByteStr}

theorem processEntry_eq (p : NumberedProcess) (counterName : ByteStr) :
    processEntry (p, counterName) = instanceEntry p counterName := by
  unfold processEntry instanceEntry counterPath instanceName
  split <;> simp [List.append_assoc]

theorem map_processEntry_watched : (watched processList checkProcessList counterList).map processEntry =
    (processList.filter fun p => p.name ∈ checkProcessList).flatMap fun p =>
      counterList.map (instanceEntry p) := by
  have hcheck : ∀ p : NumberedProcess, isCheckProcess checkProcessList p.name =
      decide (p.name ∈ checkProcessList) := fun p => by
    rw [isCheckProcess, Bool.eq_iff_iff]
    simp
  simp only [watched, hcheck, List.map_flatMap, List.map_map, Function.comp_def, processEntry_eq]

end

/-- From any state that a run reaches, when all calls succeed and there are entries enough: the list
has one entry for each process of the snapshot with a watched name and each counter, registered for
the instance of the process. The processes of a name are numbered from 0 on. -/
theorem watches_exactly {memory : Nat → WatchedProcess} {mmemory : Nat → WatchedMachine}
    {es : List QueryCall} {q : QueryPools}
    (hrun : poolMachine.run (initPools memory mmemory) es = some q)
    {snapshot : List ProcessEntry} {processList : List NumberedProcess}
    (hupdate : Helper.UpdateProcessList snapshot processList)
    {checkProcessList counterList : List ByteStr} {results : Nat → Bool}
    (hresults : ∀ i, results i)
    (hfits : (instanceEntries snapshot checkProcessList counterList).length ≤
      q.process.blocks.length) :
    (∃ p, initProcess processList checkProcessList counterList results q.process = some (true, p) ∧
      p.entries.Perm (instanceEntries snapshot checkProcessList counterList)) ∧
    ∀ name, ((Helper.numbered [] (snapshot.drop 2)).filter (·.name = name)).map (·.number) =
      List.range ((snapshot.drop 2).countP fun e => Helper.stripped e.szExeFile = name) := by
  have hsound : Sound q := EventMachine.run_invariant (fun h hstep => (h.step hstep).1)
    sound_initPools hrun
  have hperm : ((watched processList checkProcessList counterList).map processEntry).Perm
      (instanceEntries snapshot checkProcessList counterList) := by
    rw [map_processEntry_watched, instanceEntries]
    exact (hupdate.perm_numbered.filter _).flatMap_right _
  have hlength : (watched processList checkProcessList counterList).length ≤
      q.process.blocks.length := by
    rwa [← hperm.length_eq, List.length_map] at hfits
  obtain ⟨p, hp, hentries⟩ := initProcess_success hsound.process (hresults 0)
    (fun i _ => hresults _) hlength
  refine ⟨⟨p, hp, hentries ▸ hperm⟩, fun name => ?_⟩
  rw [Helper.numbers_numbered, List.range_eq_range']
  rfl

/-- Two processes of the name `a` and one of another. -/
def threeProcesses : List ProcessEntry :=
  Helper.systemEntries ++ [⟨ascii "a.exe", 7⟩, ⟨ascii "b.exe", 8⟩, ⟨ascii "a.exe", 3⟩]

theorem watches_exactly_threeProcesses :
    (∃ p, initProcess [⟨⟨ascii "a", 3⟩, 1⟩, ⟨⟨ascii "a", 7⟩, 0⟩, ⟨⟨ascii "b", 8⟩, 0⟩] [ascii "a"]
      [ascii "Working Set"] (fun _ => true) blankPools.process = some (true, p) ∧
      p.entries.Perm (instanceEntries threeProcesses [ascii "a"] [ascii "Working Set"])) ∧
    ∀ name, ((Helper.numbered [] (threeProcesses.drop 2)).filter (·.name = name)).map (·.number) =
      List.range ((threeProcesses.drop 2).countP fun e => Helper.stripped e.szExeFile = name) := by
  have hupdate : Helper.UpdateProcessList threeProcesses
      [⟨⟨ascii "a", 3⟩, 1⟩, ⟨⟨ascii "a", 7⟩, 0⟩, ⟨⟨ascii "b", 8⟩, 0⟩] :=
    ⟨List.Perm.trans (.swap _ _ _) (.cons _ (.swap _ _ _)), by decide⟩
  have hfits : (instanceEntries threeProcesses [ascii "a"] [ascii "Working Set"]).length ≤
      blankPools.process.blocks.length := by
    have hinit : Sound blankPools := sound_initPools
    rw [hinit.process.partitioned_iff.mp EntryPool.partitioned_create]
    decide
  exact @watches_exactly _ _ [] _ rfl _ _ hupdate _ _ _ (fun _ => rfl) hfits

end Query

end PSM
