import PSM.Sender
import PSM.RedisManager
import PSM.Lib.SampleHold

/-! The values of a counter, from the client to the web.

The client thins out the samples of a counter batch by batch, the server pushes what is left to the
front of a list, and the web reads the list from its front, back to the start of a window, and fills
in the times between. `reconstructed` says that every sample of a batch that starts in the window is
there again. -/

namespace PSM
open ByteStr Redis RedisManager SampleHold

/-! ## The functions of the web -/

namespace RedisJob

def space : UInt8 := 32

/-- `int` of a decimal text. -/
def int (time : ByteStr) : Option Int :=
  (String.ofList (time.map fun b => Char.ofNat b.toNat)).toInt?

variable {V : Type}

/-- The loop of `GetCounterValue`. A text without a number before or after its first space raises an
exception. -/
def counterValues (float : ByteStr → Option V) (startTime endTime : Int) :
    List ByteStr → Option (List (Int × V))
  | [] => some []
  | data :: datalist => do
    let temp := data.splitOn space
    let time ← temp[0]?
    let value ← temp[1]?
    let curTime ← int time
    let result ← if startTime ≤ curTime ∧ endTime > curTime then
      (float value).map fun x => [(curTime, x)] else some []
    if startTime > curTime then some result
    else do
      let rest ← counterValues float startTime endTime datalist
      some (result ++ rest)

def getCounterValue (float : ByteStr → Option V) (s : Store HashValue) (key : ByteStr)
    (startTime endTime : Int) : Option (List (Int × V)) := do
  let datalist := lrange (s.list key) 0 (endTime - startTime)
  let result ← counterValues float startTime endTime datalist
  some result.reverse

/-- The time and the value of a text of the list. -/
def readEntry (float : ByteStr → Option V) (data : ByteStr) : Option (Int × V) := do
  let temp := data.splitOn space
  let time ← temp[0]?
  let value ← temp[1]?
  let curTime ← int time
  let x ← float value
  some (curTime, x)

/-- The texts have the times and the values. -/
def Reads (float : ByteStr → Option V) (datalist : List ByteStr) (entries : List (Int × V)) :
    Prop :=
  List.Forall₂ (fun data x => readEntry float data = some x) datalist entries

/-- Each value is held until the next time of the list, and the last one until the end, but no
longer than `responseTime`. -/
def getValueList_detail [Zero V] (float : ByteStr → Option V) (s : Store HashValue) (key : ByteStr)
    (responseTime interval curTime : Int) : Option (List (Int × V)) := do
  let endTime := curTime - responseTime
  let startTime := endTime - interval
  let list ← getCounterValue float s key startTime endTime
  some (expand responseTime 0 endTime list)

end RedisJob

/-! ## The samples of a counter -/

def Log.sample (l : Log) : Int × BitVec 64 := (l.timestamp.toInt, l.value)

def Agent.Log.sample (l : Agent.Log) : Int × BitVec 64 := (l.timeStamp.toInt, l.value)

/-- A double that is a number and not less than 0. -/
def nonNegative (x : BitVec 64) : Bool :=
  !isNaN x && (!x.msb || x.extractLsb' 0 63 == 0#63)

/-- The batches in which samples are recorded. -/
structure Recorded (responseTime : Int) (batches : List (List Log)) : Prop where
  increasing : Increasing (batches.map (·.map Log.sample)).flatten
  span : ∀ batch ∈ batches, ∀ l ∈ batch, ∀ l' ∈ batch,
    l'.sample.1 - l.sample.1 ≤ responseTime
  nonNegative : ∀ batch ∈ batches, ∀ l ∈ batch, nonNegative l.value

/-- What is divided by 1024 when it is saved. -/
def scaled (ops : DoubleOps) (name : ByteStr) (value : BitVec 64) : BitVec 64 :=
  if name = ascii "Memory" then ops.div1024 value else value

/-- The text of a sample. -/
def sampleText (ops : DoubleOps) (name : ByteStr) (x : Int × BitVec 64) : ByteStr :=
  decimal x.1 ++ ascii " " ++ ops.toStr (scaled ops name x.2)

/-- Where the server stores the logs of an entry. -/
def ProcessCounterEntry.key (pce : ProcessCounterEntry) (agentID : Int) (m : CounterNameMap) :
    ByteStr :=
  processInfoKey m agentID
    ⟨pce.counterName, pce.processName, pce.processID, changedLogs minusOne pce.logs⟩

/-- The client has the batch in one of its entries, whose logs are stored under the key and the
name, and no other entry is stored there. -/
def Carries (agentID : Int) (key name : ByteStr) (m : CounterNameMap)
    (processLogList : List ProcessCounterEntry) (batch : List Log) : Prop :=
  ∃ before pce after, processLogList = before ++ pce :: after ∧ pce.logs = batch ∧
    pce.key agentID m = key ∧ counterNameToNewName m pce.counterName = name ∧
    ∀ other ∈ before ++ after, other.key agentID m ≠ key

/-- The server saves the batches in order. What else happens in between leaves the list alone. -/
inductive Saves (ops : DoubleOps) (agentID : Int) (key name : ByteStr) :
    List (List Log) → Store HashValue → Store HashValue → Prop where
  | done {s s' : Store HashValue} : s'.list key = s.list key → Saves ops agentID key name [] s s'
  | save {s s₁ s₂ s' : Store HashValue} {m : CounterNameMap}
      {processLogList : List ProcessCounterEntry} {batch : List Log} {batches : List (List Log)}
      {b : Bool} : s₁.list key = s.list key →
    Carries agentID key name m processLogList batch →
    (saveProcessInfo ops m agentID (totalProcessInfo processLogList).info).run s₁ = some (b, s₂) →
    Saves ops agentID key name batches s₂ s' → Saves ops agentID key name (batch :: batches) s s'

/-- A value is among those recorded. -/
def IsRecorded (batches : List (List Log)) (value : BitVec 64) : Prop :=
  ∃ batch ∈ batches, ∃ l ∈ batch, l.value = value

/-- Python reads what the server writes for the recorded values. -/
structure ReadsDecimals {V : Type} (ops : DoubleOps) (float : ByteStr → Option V) (name : ByteStr)
    (batches : List (List Log)) : Prop where
  space_notMem : ∀ v, RedisJob.space ∉ ops.toStr v
  float_toStr : ∀ v, IsRecorded batches v → (float (ops.toStr (scaled ops name v))).isSome

/-- The window has every sample of the batches that start in it, and there is no stored sample after
it. -/
structure Window (batches : List (List Log)) (startTime endTime : Int) : Prop where
  whole : ∀ batch ∈ batches, ∀ first, batch.head? = some first → startTime ≤ first.sample.1 →
    first.sample.1 < endTime → ∀ l ∈ batch, startTime ≤ l.sample.1 ∧ l.sample.1 < endTime
  closed : ∀ batch ∈ batches, ∀ l ∈ changedLogs minusOne batch, l.sample.1 < endTime

/-! ## Thinning out -/

section
variable {cur : BitVec 64} {logs : List Log} {x : BitVec 64}

theorem doubleEq_self (h : isNaN x = false) : doubleEq x x = true := by
  simp [doubleEq, h]

theorem isNaN_of_nonNegative (h : nonNegative x) : isNaN x = false := by
  simp only [nonNegative, Bool.and_eq_true, Bool.not_eq_true'] at h
  exact h.1

theorem doubleEq_minusOne (h : nonNegative x) : doubleEq minusOne x = false := by
  by_contra hne
  rw [Bool.not_eq_false] at hne
  have hx : x = minusOne := by
    simp only [doubleEq, Bool.and_eq_true, Bool.or_eq_true, beq_iff_eq] at hne
    rcases hne.2 with heq | ⟨hzero, -⟩
    · exact heq.symm
    · exact absurd hzero (by decide)
  subst hx
  exact absurd h (by decide)

/-- What the client sends is what is left of its samples. -/
theorem map_sample_changedLogs : (changedLogs cur logs).map Agent.Log.sample =
    changed doubleEq cur (logs.map Log.sample) := by
  induction logs generalizing cur with
  | nil => rfl
  | cons l logs ih =>
    unfold changedLogs
    rw [List.map_cons, changed]
    have hl : (Log.sample l).2 = l.value := rfl
    rw [hl]
    split
    · exact ih
    · rw [List.map_cons, ih]
      rfl

end

/-! ## Reading a sample -/

theorem space_notMem_decimal (n : Int) : RedisJob.space ∉ decimal n := by
  intro h
  obtain ⟨c, hc, hspace⟩ := List.mem_map.mp h
  have hlt := isDecimalChar_lt (isDecimalChar_of_mem_repr hc)
  have hbyte := congrArg UInt8.toNat hspace
  simp only [Nat.toUInt8, UInt8.toNat_ofNat', RedisJob.space] at hbyte
  have hnat : c.toNat = ' '.toNat := by
    simp only [UInt8.reduceToNat] at hbyte
    exact (Nat.mod_eq_of_lt (by omega)).symm.trans hbyte
  obtain rfl := Char.toNat_inj.mp hnat
  rcases isDecimalChar_of_mem_repr hc with hdigit | hminus
  · exact absurd hdigit (by decide)
  · exact absurd hminus (by decide)

namespace RedisJob

theorem int_decimal (n : Int) : int (decimal n) = some n := by
  have hchars : (decimal n).map (fun b => Char.ofNat b.toNat) = n.repr.toList := by
    rw [decimal, ascii, List.map_map]
    refine (List.map_congr_left fun c hc => ?_).trans (List.map_id _)
    have hlt := isDecimalChar_lt (isDecimalChar_of_mem_repr hc)
    simp only [Function.comp_apply, Nat.toUInt8, UInt8.toNat_ofNat', id_eq]
    rw [Nat.mod_eq_of_lt (by omega), Char.ofNat_toNat]
  rw [int, hchars, String.ofList_toList, Int.toInt?_repr]

end RedisJob

section
variable {V : Type} {float : ByteStr → Option V} {value : ByteStr} {x : V}

/-- A time, a space and a text without one. -/
theorem readEntry_append (hspace : RedisJob.space ∉ value) (hvalue : float value = some x)
    (n : Int) : RedisJob.readEntry float (decimal n ++ ascii " " ++ value) = some (n, x) := by
  have hsplit : (decimal n ++ ascii " " ++ value).splitOn RedisJob.space = [decimal n, value] := by
    have hascii : ascii " " = [RedisJob.space] := rfl
    rw [hascii, List.append_assoc, List.singleton_append,
      List.splitOn_append_cons_self_of_not_mem (space_notMem_decimal _),
      List.splitOn_eq_singleton hspace]
  rw [RedisJob.readEntry, hsplit]
  simp [RedisJob.int_decimal, hvalue]

end

/-! ## Storing the samples -/

/-- The samples that are kept, of all the batches. -/
def keptSamples (batches : List (List Log)) : List (Int × BitVec 64) :=
  (batches.map (·.map Log.sample)).flatMap (changed doubleEq minusOne)

section
variable {ops : DoubleOps} {agentID : Int} {key name : ByteStr} {m : CounterNameMap}
  {s s' : Store HashValue}

/-- A batch goes in front of the list, with the samples in reverse order. -/
theorem Carries.list {processLogList : List ProcessCounterEntry} {batch : List Log} {b : Bool}
    (h : Carries agentID key name m processLogList batch)
    (hrun : (saveProcessInfo ops m agentID (totalProcessInfo processLogList).info).run s =
      some (b, s')) :
    s'.list key = ((changed doubleEq minusOne (batch.map Log.sample)).map
      (sampleText ops name)).reverse ++ s.list key := by
  obtain ⟨before, pce, after, rfl, rfl, hkey, hname, hothers⟩ := h
  rw [pushEach_list hrun, totalProcessInfo, List.filter_map, List.flatMap_map]
  have hnone : ∀ others : List ProcessCounterEntry, others ⊆ before ++ after →
      others.filter ((processInfoKey m agentID · = key) ∘ fun pce =>
        ⟨pce.counterName, pce.processName, pce.processID, changedLogs minusOne pce.logs⟩) = [] :=
    fun others h => List.filter_eq_nil_iff.mpr fun other hother hother' =>
      hothers other (h hother) (of_decide_eq_true hother')
  rw [List.filter_append, hnone before (List.subset_append_left ..), List.filter_cons_of_pos,
    hnone after (List.subset_append_right ..)]
  · rw [List.nil_append, List.flatMap_singleton, processInfoValues, hname,
      ← map_sample_changedLogs, List.map_map]
    rfl
  · exact decide_eq_true hkey

/-- The list has the samples that are kept, the last one first. -/
theorem Saves.list {batches : List (List Log)} (h : Saves ops agentID key name batches s s') :
    s'.list key = ((keptSamples batches).map (sampleText ops name)).reverse ++ s.list key := by
  induction h with
  | done h => exact h
  | save h hcarries hrun _ ih =>
    rw [ih, hcarries.list hrun, h, keptSamples, keptSamples, List.map_cons, List.flatMap_cons,
      List.map_append, List.reverse_append, List.append_assoc]

end

/-! ## Reading the list -/

namespace RedisJob

section
variable {V : Type} {float : ByteStr → Option V} {startTime endTime : Int}
  {datalist : List ByteStr} {entries : List (Int × V)}

/-- The loop ends at the first entry before the window, and leaves out those after it. -/
theorem counterValues_eq (h : Reads float datalist entries) :
    counterValues float startTime endTime datalist =
      some ((entries.takeWhile (startTime ≤ ·.1)).filter (·.1 < endTime)) := by
  induction h with
  | nil => rfl
  | @cons data x datalist entries hdata _ ih =>
    simp only [readEntry, Option.bind_eq_bind, Option.bind_eq_some_iff] at hdata
    obtain ⟨time, htime, value, hvalue, curTime, hcurTime, y, hy, hx⟩ := hdata
    obtain rfl := Option.some_inj.mp hx
    rw [counterValues, htime, hvalue, ih]
    simp only [Option.bind_eq_bind, Option.bind_some, hcurTime, hy, Option.map_some]
    by_cases hstart : startTime ≤ curTime
    · rw [List.takeWhile_cons_of_pos (by simpa using hstart), List.filter_cons]
      by_cases hend : curTime < endTime
      · simp [hstart, hend, Int.not_lt.mpr hstart]
      · simp [hstart, hend, Int.not_lt.mpr hstart]
    · rw [List.takeWhile_cons_of_neg (by simpa using hstart)]
      simp [hstart, Int.not_le.mp hstart]

end

/-- With the newest entry first, leaving the loop at the first entry before the window skips none of
the window. -/
theorem counterValues_eq_filter {V : Type} {float : ByteStr → Option V} {datalist : List ByteStr}
    {entries : List (Int × V)} (h : Reads float datalist entries) (hentries : NewestFirst entries)
    (startTime endTime : Int) : counterValues float startTime endTime datalist =
      some (entries.filter fun x => startTime ≤ x.1 ∧ x.1 < endTime) := by
  rw [counterValues_eq h, hentries.takeWhile_eq_filter, List.filter_filter]
  exact congrArg _ (List.filter_congr fun x _ => by simp [Bool.and_comm])

/-- The entries of the window among those that are read, the oldest one first. -/
def readWindow (startTime endTime : Int) (entries : List (Int × V)) : List (Int × V) :=
  ((entries.take (endTime - startTime + 1).toNat).filter fun x =>
    startTime ≤ x.1 ∧ x.1 < endTime).reverse

theorem getCounterValue_eq_readWindow {V : Type} {float : ByteStr → Option V}
    {s : Store HashValue} {key : ByteStr} {entries : List (Int × V)} {startTime endTime : Int}
    (h : Reads float (s.list key) entries) (hentries : NewestFirst entries)
    (htimes : startTime ≤ endTime) : getCounterValue float s key startTime endTime =
      some (readWindow startTime endTime entries) := by
  rw [getCounterValue, lrange_of_nonneg (Int.sub_nonneg.mpr htimes),
    counterValues_eq_filter (List.forall₂_take _ h) (hentries.sublist (List.take_sublist _ _))]
  rfl

/-- In a list with the newest entry first, the window is read as a whole if and only if none of it
comes after the part of the list that is read. -/
theorem getCounterValue_eq_window_iff {V : Type} {float : ByteStr → Option V}
    {s : Store HashValue} {key : ByteStr} {entries : List (Int × V)} {startTime endTime : Int}
    (h : Reads float (s.list key) entries) (hentries : NewestFirst entries)
    (htimes : startTime ≤ endTime) :
    getCounterValue float s key startTime endTime =
        some (entries.filter fun x => startTime ≤ x.1 ∧ x.1 < endTime).reverse ↔
      ∀ x ∈ entries.drop (endTime - startTime + 1).toNat, ¬(startTime ≤ x.1 ∧ x.1 < endTime) := by
  rw [getCounterValue_eq_readWindow h hentries htimes, readWindow]
  generalize (endTime - startTime + 1).toNat = n
  have hsplit : (entries.filter fun x => startTime ≤ x.1 ∧ x.1 < endTime) =
      ((entries.take n).filter fun x => startTime ≤ x.1 ∧ x.1 < endTime) ++
        (entries.drop n).filter fun x => startTime ≤ x.1 ∧ x.1 < endTime := by
    rw [← List.filter_append, List.take_append_drop]
  rw [Option.some_inj, List.reverse_inj, hsplit, List.self_eq_append_right,
    List.filter_eq_nil_iff]
  simp only [decide_eq_true_eq]

def floatOfOne (text : ByteStr) : Option Nat := if text = ascii "1.000000" then some 1 else none

/-- A list with the value 1 at each of the times. -/
def onesAt (times : List Int) : Store HashValue :=
  { Store.empty with
    list := fun _ => times.map fun n => decimal n ++ ascii " " ++ ascii "1.000000" }

theorem reads_onesAt (times : List Int) (key : ByteStr) :
    Reads floatOfOne ((onesAt times).list key) (times.map fun n => (n, 1)) := by
  rw [Reads, onesAt, List.forall₂_map_left_iff, List.forall₂_map_right_iff, List.forall₂_same]
  have hspace : space ∉ ascii "1.000000" := by decide
  have hfloat : floatOfOne (ascii "1.000000") = some 1 := if_pos rfl
  exact fun n _ => readEntry_append hspace hfloat n

theorem getCounterValue_eq_window_iff_onesAt :
    getCounterValue floatOfOne (onesAt [12, 11, 11, 9, 5]) (ascii "1:CPUTime:_Total") 8 12 =
      some [(9, 1), (11, 1), (11, 1)] := by
  have htimes : (8 : Int) ≤ 12 := by decide
  have h := getCounterValue_eq_window_iff
    (reads_onesAt [12, 11, 11, 9, 5] (ascii "1:CPUTime:_Total")) (by decide) htimes
  exact h.mpr (by decide)

/-- Entries after the window take the place of its own. -/
theorem getCounterValue_ne_window :
    Reads floatOfOne ((onesAt [9, 8, 7, 1]).list []) [(9, 1), (8, 1), (7, 1), (1, 1)] ∧
      NewestFirst [((9 : Int), 1), (8, 1), (7, 1), (1, 1)] ∧
      getCounterValue floatOfOne (onesAt [9, 8, 7, 1]) [] 0 2 ≠
        some ([(9, 1), (8, 1), (7, 1), (1, 1)].filter fun x => (0 : Int) ≤ x.1 ∧ x.1 < 2).reverse := by
  refine ⟨reads_onesAt _ _, by decide, ?_⟩
  have hlist : ((onesAt [9, 8, 7, 1]).list []).take (2 - 0 + 1 : Int).toNat =
      (onesAt [9, 8, 7]).list [] := rfl
  rw [getCounterValue, lrange_of_nonneg (by decide), hlist,
    counterValues_eq_filter (reads_onesAt _ _) (by decide)]
  decide

end RedisJob

/-- The samples from the start of the window on, with the values that are read. -/
def windowSamples {V : Type} (value : BitVec 64 → V) (startTime : Int)
    (samples : List (Int × BitVec 64)) : List (Int × V) :=
  (samples.filter (startTime ≤ ·.1)).map fun x => (x.1, value x.2)

section
variable {V : Type} {ops : DoubleOps} {float : ByteStr → Option V} {name : ByteStr}
  {value : BitVec 64 → V} {startTime endTime : Int} {samples : List (Int × BitVec 64)}

theorem reads_sampleText (hspace : ∀ v, RedisJob.space ∉ ops.toStr v)
    (hvalue : ∀ x ∈ samples, float (ops.toStr (scaled ops name x.2)) = some (value x.2)) :
    RedisJob.Reads float (samples.map (sampleText ops name))
      (samples.map fun x => (x.1, value x.2)) := by
  rw [RedisJob.Reads, List.forall₂_map_left_iff, List.forall₂_map_right_iff, List.forall₂_same]
  exact fun x hx => readEntry_append (hspace _) (hvalue x hx) x.1

theorem increasing_windowSamples (h : Increasing samples) :
    Increasing (windowSamples value startTime samples) :=
  List.pairwise_map.mpr (h.filter _)

theorem lt_of_mem_windowSamples (h : ∀ x ∈ samples, x.1 < endTime) {x : Int × V}
    (hx : x ∈ windowSamples value startTime samples) : x.1 < endTime := by
  obtain ⟨y, hy, rfl⟩ := List.mem_map.mp hx
  exact h y (List.mem_of_mem_filter hy)

/-- The samples of the window are read, in order. -/
theorem getCounterValue_eq {s : Store HashValue} {key : ByteStr}
    (hspace : ∀ v, RedisJob.space ∉ ops.toStr v)
    (hlist : s.list key = (samples.map (sampleText ops name)).reverse)
    (hvalue : ∀ x ∈ samples, float (ops.toStr (scaled ops name x.2)) = some (value x.2))
    (hsamples : Increasing samples) (hend : ∀ x ∈ samples, x.1 < endTime) :
    RedisJob.getCounterValue float s key startTime endTime =
      some (windowSamples value startTime samples) := by
  obtain ⟨n, hn, hlt⟩ := lrange_zero (s.list key) (endTime - startTime)
  have hread : lrange (s.list key) 0 (endTime - startTime) =
      (samples.reverse.take n).map (sampleText ops name) := by
    rw [hn, hlist, ← List.map_reverse, List.map_take]
  have hsubset : samples.reverse.take n ⊆ samples := fun x hx =>
    List.mem_reverse.mp (List.take_subset n _ hx)
  -- the prefix that is read has the whole window
  have hwindow : (samples.reverse.take n).takeWhile (startTime ≤ ·.1) =
      (samples.filter (startTime ≤ ·.1)).reverse := by
    rw [← List.take_takeWhile, hsamples.newestFirst_reverse.takeWhile_eq_filter,
      List.filter_reverse, List.take_of_length_le]
    rw [List.length_reverse]
    have hlength : (samples.filter (startTime ≤ ·.1)).length ≤ (endTime - startTime).toNat :=
      length_filter_le hsamples hend
    omega
  have htakeWhile : ((samples.reverse.take n).map fun x => (x.1, value x.2)).takeWhile
      (startTime ≤ ·.1) = (windowSamples value startTime samples).reverse := by
    rw [windowSamples, ← List.map_reverse, List.takeWhile_map, ← hwindow]
    rfl
  have hbefore : (windowSamples value startTime samples).filter (·.1 < endTime) =
      windowSamples value startTime samples :=
    List.filter_eq_self.mpr fun x hx => decide_eq_true (lt_of_mem_windowSamples hend hx)
  rw [RedisJob.getCounterValue, hread, RedisJob.counterValues_eq
    (reads_sampleText hspace fun x hx => hvalue x (hsubset hx)), htakeWhile, List.filter_reverse, hbefore]
  simp

end

/-! ## The samples again -/

/-- The number is what is read for a value: the decimal text of a double that is equal to it. -/
def Shows {V : Type} (ops : DoubleOps) (float : ByteStr → Option V) (name : ByteStr)
    (value : BitVec 64) (x : V) : Prop :=
  ∃ v, doubleEq v value ∧ float (ops.toStr (scaled ops name v)) = some x

section
variable {V : Type} {ops : DoubleOps} {float : ByteStr → Option V} {name : ByteStr}
  {responseTime startTime endTime : Int} {batches : List (List Log)} {batch : List Log} {l : Log}
  {x : Int × BitVec 64}

theorem Recorded.increasing_batch (h : Recorded responseTime batches) (hbatch : batch ∈ batches) :
    Increasing (batch.map Log.sample) :=
  (List.pairwise_flatten.mp h.increasing).1 _ (List.mem_map_of_mem hbatch)

/-- The last sample kept at or before a sample is one of its batch, with an equal value. -/
theorem Recorded.latest (h : Recorded responseTime batches) (hbatch : batch ∈ batches)
    (hl : l ∈ batch) : ∃ l' ∈ batch, IsLatest (keptSamples batches) l.sample.1 l'.sample ∧
      doubleEq l'.value l.value := by
  have hsame : ∀ x ∈ batch.map Log.sample, doubleEq x.2 x.2 := by
    intro x hx
    obtain ⟨l, hl, rfl⟩ := List.mem_map.mp hx
    exact doubleEq_self (isNaN_of_nonNegative (h.nonNegative batch hbatch l hl))
  rcases changed_latest (h.increasing_batch hbatch) hsame (List.mem_map_of_mem hl) with
    ⟨hminus, -⟩ | ⟨y, hy, hyl⟩
  · -- the first sample of a batch is kept, since no value is -1
    have hne := doubleEq_minusOne (h.nonNegative batch hbatch l hl)
    exact absurd hminus (by rw [show l.sample.2 = l.value from rfl, hne]; decide)
  · obtain ⟨l', hl', rfl⟩ := List.mem_map.mp (changed_sublist.subset hy.mem)
    exact ⟨l', hl', hy.flatMap h.increasing (List.mem_map_of_mem hbatch)
      (List.mem_map_of_mem hl), hyl⟩

theorem exists_of_mem_keptSamples (hx : x ∈ keptSamples batches) :
    ∃ batch ∈ batches, x ∈ changed doubleEq minusOne (batch.map Log.sample) := by
  obtain ⟨samples, hsamples, hx⟩ := List.mem_flatMap.mp hx
  obtain ⟨batch, hbatch, rfl⟩ := List.mem_map.mp hsamples
  exact ⟨batch, hbatch, hx⟩

theorem Window.lt_of_mem_keptSamples (h : Window batches startTime endTime)
    (hx : x ∈ keptSamples batches) : x.1 < endTime := by
  obtain ⟨batch, hbatch, hx⟩ := exists_of_mem_keptSamples hx
  rw [← map_sample_changedLogs] at hx
  obtain ⟨l, hl, rfl⟩ := List.mem_map.mp hx
  exact h.closed batch hbatch l hl

theorem isRecorded_of_mem_keptSamples (hx : x ∈ keptSamples batches) : IsRecorded batches x.2 := by
  obtain ⟨batch, hbatch, hx⟩ := exists_of_mem_keptSamples hx
  obtain ⟨l, hl, rfl⟩ := List.mem_map.mp (changed_sublist.subset hx)
  exact ⟨batch, hbatch, l, hl, rfl⟩

theorem ReadsDecimals.exists_value [Zero V] (h : ReadsDecimals ops float name batches) :
    ∃ value : BitVec 64 → V, ∀ v, IsRecorded batches v →
      float (ops.toStr (scaled ops name v)) = some (value v) := by
  refine ⟨fun v => (float (ops.toStr (scaled ops name v))).getD 0, fun v hv => ?_⟩
  exact (Option.some_get (h.float_toStr v hv)).symm.trans (congrArg some (Option.get_eq_getD _))

end

/-- Each sample of a batch that starts in the window is there once, and the times are filled in up
to the end of the window without a gap. -/
theorem reconstructed {V : Type} [Zero V] {ops : DoubleOps} {float : ByteStr → Option V}
    {agentID : Int} {key name : ByteStr} {responseTime interval curTime : Int}
    {batches : List (List Log)} {s s' : Store HashValue}
    (hreads : ReadsDecimals ops float name batches)
    (hrecorded : Recorded responseTime batches) (hempty : s.list key = [])
    (hsaves : Saves ops agentID key name batches s s')
    (hwindow : Window batches (curTime - responseTime - interval) (curTime - responseTime)) :
    ∃ result,
      RedisJob.getValueList_detail float s' key responseTime interval curTime = some result ∧
      (∀ batch ∈ batches, ∀ first, batch.head? = some first →
        curTime - responseTime - interval ≤ first.sample.1 →
        first.sample.1 < curTime - responseTime → ∀ l ∈ batch,
        ∃ x, result.filter (·.1 = l.sample.1) = [(l.sample.1, x)] ∧
          Shows ops float name l.value x) ∧
      (result ≠ [] → ∃ first < curTime - responseTime,
        result.map Prod.fst = range first (curTime - responseTime)) := by
  generalize hendTime : curTime - responseTime = endTime at hwindow ⊢
  generalize hstartTime : endTime - interval = startTime at hwindow ⊢
  have hlist : s'.list key = ((keptSamples batches).map (sampleText ops name)).reverse := by
    rw [hsaves.list, hempty, List.append_nil]
  have hkept : Increasing (keptSamples batches) := increasing_flatMap_changed hrecorded.increasing
  have hstop : ∀ x ∈ keptSamples batches, x.1 < endTime :=
    fun x => hwindow.lt_of_mem_keptSamples
  obtain ⟨value, hvalue⟩ := hreads.exists_value
  have hread : RedisJob.getCounterValue float s' key startTime endTime =
      some (windowSamples value startTime (keptSamples batches)) :=
    getCounterValue_eq hreads.space_notMem hlist
      (fun x hx => hvalue x.2 (isRecorded_of_mem_keptSamples hx)) hkept hstop
  have hincreasing : Increasing (windowSamples value startTime (keptSamples batches)) :=
    increasing_windowSamples hkept
  have hbefore : ∀ x ∈ windowSamples value startTime (keptSamples batches), x.1 < endTime :=
    fun x => lt_of_mem_windowSamples hstop
  refine ⟨expand responseTime 0 endTime (windowSamples value startTime (keptSamples batches)),
    ?_, ?_, ?_⟩
  · rw [RedisJob.getValueList_detail, hendTime, hstartTime, hread]
    rfl
  · intro batch hbatch first hfirst hstart hend l hl
    obtain ⟨l', hl', hlatest, heq⟩ := hrecorded.latest hbatch hl
    have hl'start := (hwindow.whole batch hbatch first hfirst hstart hend l' hl').1
    have hlend := (hwindow.whole batch hbatch first hfirst hstart hend l hl).2
    have hl'value := hvalue l'.value ⟨batch, hbatch, l', hl', rfl⟩
    refine ⟨value l'.value, ?_, l'.value, heq, hl'value⟩
    exact filter_expand hincreasing (fun x hx => Int.le_of_lt (hbefore x hx))
      ((hlatest.filter hl'start).map value) hlend (hrecorded.span batch hbatch l' hl' l hl)
  · generalize windowSamples value startTime (keptSamples batches) = list at hincreasing hbefore ⊢
    intro hne
    cases list with
    | nil => exact absurd rfl hne
    | cons x list =>
      exact ⟨x.1, hbefore x List.mem_cons_self,
        times_expand hincreasing.oldestFirst fun y hy => Int.le_of_lt (hbefore y hy)⟩

def busyOps : DoubleOps where
  toStr v := if v = 0x3ff0000000000000#64 then ascii "1.000000" else ascii "0.000000"
  div1024 := id

def busyFloat (text : ByteStr) : Option Int := some (if text = ascii "1.000000" then 1 else 0)

theorem readsDecimals_busy {name : ByteStr} {batches : List (List Log)} :
    ReadsDecimals busyOps busyFloat name batches := by
  refine ⟨fun v => ?_, fun _ _ => rfl⟩
  unfold busyOps
  dsimp only
  split <;> decide

/-- A processor that is busy for two seconds, in two batches. -/
def busyBatches : List (List Log) :=
  [[⟨10, 0x3ff0000000000000#64⟩, ⟨11, 0x3ff0000000000000#64⟩, ⟨12, 0⟩], [⟨13, 0⟩]]

def busyKey : ByteStr :=
  processLogKey 0 (ascii "CPUTime") ⟨ascii "% Processor Time", ascii "a", 1, []⟩

theorem reconstructed_busyBatches : ∃ s' result,
    Saves busyOps 0 busyKey (ascii "CPUTime") busyBatches .empty s' ∧
    RedisJob.getValueList_detail busyFloat s' busyKey 3 10 20 = some result ∧
    (∀ batch ∈ busyBatches, ∀ l ∈ batch, ∃ x,
      result.filter (·.1 = l.sample.1) = [(l.sample.1, x)] ∧
        Shows busyOps busyFloat (ascii "CPUTime") l.value x) ∧
    ∃ first < 17, result.map Prod.fst = range first 17 := by
  have hrecorded : Recorded 3 busyBatches := ⟨by decide, by decide, by decide⟩
  have hwindow : Window busyBatches (20 - 3 - 10) (20 - 3) := ⟨by decide, by decide⟩
  have hname : counterNameToNewName .init (ascii "% Processor Time") = ascii "CPUTime" := by
    decide
  have hcarries : ∀ batch, Carries 0 busyKey (ascii "CPUTime") .init
      [⟨ascii "% Processor Time", ascii "a", 1, batch⟩] batch := by
    refine fun batch => ⟨[], _, [], rfl, rfl, ?_, hname, by simp⟩
    rw [ProcessCounterEntry.key, processInfoKey, hname]
    rfl
  obtain ⟨s', hsaves⟩ : ∃ s', Saves busyOps 0 busyKey (ascii "CPUTime")
      busyBatches .empty s' :=
    ⟨_, .save rfl (hcarries _) rfl (.save rfl (hcarries _) rfl (.done rfl))⟩
  obtain ⟨result, hresult, hsamples, htimes⟩ :=
    reconstructed readsDecimals_busy hrecorded rfl hsaves hwindow
  have hstarts : ∀ batch ∈ busyBatches, ∃ first, batch.head? = some first ∧
      20 - 3 - 10 ≤ first.sample.1 ∧ first.sample.1 < 20 - 3 := by
    simp only [busyBatches, List.forall_mem_cons]
    exact ⟨⟨_, rfl, by decide, by decide⟩, ⟨_, rfl, by decide, by decide⟩, by simp⟩
  refine ⟨s', result, hsaves, hresult, fun batch hbatch l hl => ?_, htimes ?_⟩
  · obtain ⟨first, hfirst, hstart, hend⟩ := hstarts batch hbatch
    exact hsamples batch hbatch first hfirst hstart hend l hl
  · rintro rfl
    obtain ⟨x, hx, -⟩ := hsamples _ List.mem_cons_self _ rfl (by decide) (by decide) _
      List.mem_cons_self
    cases hx

end PSM
