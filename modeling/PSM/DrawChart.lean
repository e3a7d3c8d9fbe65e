import Mathlib.Data.List.DropRight
import PSM.ProcessKeys
import PSM.TotalSeries

/-! The live charts (`DrawChart` of `chart.js` and `chart_p.js`).

The page keeps a series of points for each counter. A call trims the front of the series, skips the
samples that are drawn already, fills in the seconds up to each new sample, and then those up to the
end of the window. The last loop draws two points for a second that is more than the response time
after the newest sample, so that there is one point per second only as long as the samples keep up
with the clock (`onePointPerSecond_iff`). The loop that skips reads a sample before it knows that
there is one (`drawChart_completes_iff`). -/

namespace PSM
open ByteStr Redis RedisManager SampleHold

/-! ## The script -/

namespace Chart

/-- The points of a chart, with times in milliseconds. -/
abbrev Series (V : Type) := List (Int × V)

/-- The data of the answer, by counter, with times in seconds. -/
abbrev Response (V : Type) := List (List (Int × V))

/-- `n`. -/
def windowLength : Int := 180

def ajaxInterval : Int := 5

def endTime (responseTime curTime : Int) : Int :=
  curTime - (2 * responseTime + ajaxInterval + 1) + 9

def startTime (responseTime curTime : Int) : Int :=
  curTime - (2 * responseTime + ajaxInterval + 1) - windowLength + 9

section
variable {V : Type} [Zero V]

/-- The points from the start of the window on: the loop goes back from the last one. -/
def trim (startTime : Int) (curData : Series V) : Series V :=
  curData.rtakeWhile fun x => ¬startTime > x.1 / 1000

/-- The second after the last point, and the value there. -/
def resume (startTime : Int) (curData : Series V) : Int × V :=
  match curData.getLast? with
  | some x => (x.1 / 1000 + 1, x.2)
  | none => (startTime, 0)

/-- The loop that skips what is drawn, by what is left of the data from `j` on. Nothing is there to
be read when `j` is the length of the data. -/
def skip (time : Int) : List (Int × V) → Option (List (Int × V))
  | [] => none
  | x :: data =>
    if x.1 < time then
      if data.isEmpty then some [] else skip time data
    else some (x :: data)

/-- The seconds from `time` to a sample. -/
def fillBefore (responseTime time : Int) (cur : V) (t : Int) : Series V :=
  (range time t).map fun k => (k * 1000, if k - time > responseTime then 0 else cur)

/-- The loop over the samples before the end, with the last time and value and the points. -/
def fill (responseTime endTime : Int) : Int → V → Series V → List (Int × V) → Int × V × Series V
  | time, cur, curData, [] => (time, cur, curData)
  | time, cur, curData, x :: data =>
    if x.1 < endTime then
      fill responseTime endTime x.1 x.2 (curData ++ fillBefore responseTime time cur x.1) data
    else (time, cur, curData)

/-- The seconds after the last sample. -/
def fillAfter (responseTime endTime time : Int) (cur : V) : Series V :=
  (range time endTime).flatMap fun k =>
    (k * 1000, cur) :: if k - time > responseTime then [(k * 1000, 0)] else []

/-- The body of the loop over the counters, with the points that are there and the data. There is no
result when it reads outside the data, which raises an exception. -/
def drawCounter (responseTime startTime endTime : Int) (curData : Series V)
    (data : List (Int × V)) : Option (Series V) :=
  let curData := trim startTime curData
  let (time, cur) := resume startTime curData
  (skip time data).map fun data =>
    let (time, cur, curData) := fill responseTime endTime time cur curData data
    curData ++ fillAfter responseTime endTime time cur

/-- The loop, and whether it came to its end. An exception leaves the later counters as they are. -/
def drawCounters (responseTime startTime endTime : Int) :
    Response V → List (Series V) → List (Series V) × Bool
  | [], datas => (datas, true)
  | _ :: _, [] => ([], false)
  | data :: jsonData, curData :: datas =>
    match drawCounter responseTime startTime endTime curData data with
    | none => (curData :: datas, false)
    | some curData =>
      let (datas, completed) := drawCounters responseTime startTime endTime jsonData datas
      (curData :: datas, completed)

def drawChart (responseTime curTime : Int) (jsonData : Option (Response V))
    (datas : List (Series V)) : List (Series V) × Bool :=
  match jsonData with
  | none => (datas, true)
  | some jsonData =>
    if jsonData.isEmpty then (datas, true)
    else drawCounters responseTime (startTime responseTime curTime) (endTime responseTime curTime)
      jsonData datas

end

end Chart

/-! ## The answers -/

namespace RedisJob

section
variable {V : Type} [Zero V] [Add V]

/-- The data of the answer of `MRedis`, by counter. -/
def mRedis (float : ByteStr → Option V) (s : Store HashValue) (agentNumber : Int)
    (mcl : List ByteStr) (responseTime interval curTime : Int) : Option (Chart.Response V) :=
  mcl.mapM fun counter =>
    getValueList float s ((ascii ":").intercalate [decimal agentNumber, counter, ascii "Total"])
      responseTime interval curTime

/-- The data of the answer of `PRedis`, by counter. -/
def pRedis (float : ByteStr → Option V) (s : Store HashValue) (keys : ByteStr → List ByteStr)
    (agentNumber : Int) (name : ByteStr) (pcl : List ByteStr)
    (responseTime interval curTime : Int) : Option (Chart.Response V) :=
  pcl.mapM fun counter =>
    totalData float s responseTime interval curTime
      (getProcessKeys keys (prevKey agentNumber counter name))

/-- What the page can get for its counters. -/
inductive Answers (float : ByteStr → Option V) (s : Store HashValue) (counters : List ByteStr) :
    Chart.Response V → Prop
  | mRedis {agentNumber responseTime interval curTime : Int} {jsonData : Chart.Response V}
    (h : mRedis float s agentNumber counters responseTime interval curTime = some jsonData) :
    Answers float s counters jsonData
  | pRedis {keys : ByteStr → List ByteStr} {agentNumber responseTime interval curTime : Int}
    {name : ByteStr} {jsonData : Chart.Response V} (hkeys : IsKeys s keys)
    (h : pRedis float s keys agentNumber name counters responseTime interval curTime =
      some jsonData) :
    Answers float s counters jsonData

/-- One array for each counter. -/
theorem Answers.length_eq {float : ByteStr → Option V} {s : Store HashValue}
    {counters : List ByteStr} {jsonData : Chart.Response V}
    (h : Answers float s counters jsonData) : jsonData.length = counters.length := by
  cases h with
  | mRedis h => exact length_of_mapM h
  | pRedis _ h => exact length_of_mapM h

end

end RedisJob

/-! ## Reading the data -/

namespace Chart

section
variable {V : Type} [Zero V] {rt t₀ t₁ time : Int} {curData : Series V}
  {data : List (Int × V)} {jsonData : Response V} {datas : List (Series V)}

omit [Zero V] in
theorem skip_eq (h : data ≠ []) : skip time data = some (data.dropWhile (·.1 < time)) := by
  induction data with
  | nil => exact absurd rfl h
  | cons x data ih =>
    rw [skip, List.dropWhile_cons]
    by_cases hx : x.1 < time
    · rw [if_pos hx, if_pos (decide_eq_true hx)]
      cases data with
      | nil => rfl
      | cons y data => exact ih (List.cons_ne_nil y data)
    · rw [if_neg hx, if_neg (by simpa using hx)]

theorem drawCounter_isSome_iff : (drawCounter rt t₀ t₁ curData data).isSome ↔ data ≠ [] := by
  simp only [drawCounter, Option.isSome_map]
  constructor
  · rintro h rfl
    cases h
  · intro h
    rw [skip_eq h]
    rfl

/-- Every counter is drawn exactly when there is something to be read for each. -/
theorem drawCounters_completes_iff (hlen : jsonData.length = datas.length) :
    (drawCounters rt t₀ t₁ jsonData datas).2 = true ↔ ∀ data ∈ jsonData, data ≠ [] := by
  induction jsonData generalizing datas with
  | nil => simp [drawCounters]
  | cons data jsonData ih =>
    cases datas with
    | nil => cases hlen
    | cons curData datas =>
      have hdraw : (drawCounter rt t₀ t₁ curData data).isSome ↔ data ≠ [] := drawCounter_isSome_iff
      rw [drawCounters, List.forall_mem_cons, ← ih (Nat.succ.inj hlen), ← hdraw]
      cases drawCounter rt t₀ t₁ curData data <;> simp

/-- For every answer, and whatever is drawn already, all counters are drawn exactly when none has
an empty window. -/
theorem drawChart_completes_iff [Add V] {float : ByteStr → Option V} {s : Store HashValue}
    {counters : List ByteStr} (h : RedisJob.Answers float s counters jsonData)
    (hdatas : datas.length = counters.length) (rt curTime : Int) :
    (drawChart rt curTime (some jsonData) datas).2 = true ↔ ∀ data ∈ jsonData, data ≠ [] := by
  rw [drawChart]
  split
  · rename_i hempty
    rw [List.isEmpty_iff.mp hempty]
    simp
  · exact drawCounters_completes_iff (h.length_eq.trans hdatas.symm)

end

open RedisJob in
/-- The answer has one sample, which is 37 seconds old. -/
theorem drawChart_completes_iff_oneSample :
    ∃ jsonData, Answers oneOrZero (samplesAt [(963, true)]) [ascii "CPUTime"] jsonData ∧
      ((drawChart 10 1000 (some jsonData) [[]]).2 = true ↔ ∀ data ∈ jsonData, data ≠ []) := by
  have hdata : getValueList oneOrZero (samplesAt [(963, true)])
      ((ascii ":").intercalate [decimal 0, ascii "CPUTime", ascii "Total"]) 10 190 1000 =
      some [(963, 1)] := getValueList_eq (reads_samplesAt _ _) (by decide) (by decide)
  have hanswer : mRedis oneOrZero (samplesAt [(963, true)]) 0 [ascii "CPUTime"] 10 190 1000 =
      some [[(963, 1)]] := by
    rw [mRedis, List.mapM_cons, hdata]
    rfl
  exact ⟨_, .mRedis hanswer, drawChart_completes_iff (.mRedis hanswer) rfl 10 1000⟩

open RedisJob in
/-- There is no log of the counter in the window. -/
theorem not_drawChart_completes_empty : ∃ jsonData,
    Answers oneOrZero Store.empty [ascii "CPUTime"] jsonData ∧
      (drawChart 10 1000 (some jsonData) [[]]).2 = false :=
  ⟨[[]], @Answers.mRedis ℚ _ _ oneOrZero Store.empty [ascii "CPUTime"] 0 10 190 1000 [[]] rfl, rfl⟩

end Chart

end PSM
