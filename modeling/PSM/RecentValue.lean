import PSM.RedisJob
import PSM.AgentNumbers

/-! The recent value of a counter.

`GetRecentValue` divides by the time for which the values of the window last, each no longer than
the response time. The response time of an agent that is not recording is 0, and then a sample in
the window leads to a division by zero (`completes_iff`). `GetValueList_detail` holds a value for
one second more than `GetRecentValue` counts, so that the two need not agree
(`agreesWithDetail_iff`). -/

namespace PSM
open ByteStr Redis RedisManager SampleHold

namespace RedisJob

section
variable {V : Type}

def getValueList (float : ByteStr → Option V) (s : Store HashValue) (key : ByteStr)
    (responseTime interval curTime : Int) : Option (List (Int × V)) :=
  let endTime := curTime - responseTime
  let startTime := endTime - interval
  getCounterValue float s key startTime endTime

variable [Add V] [Mul V] [IntCast V]

/-- The loop of `GetRecentValue` with what follows it for the last entry: the sum of the values, each times
the time that it lasts, and the sum of the times. -/
def weigh (responseTime endTime : Int) : V → Int → List (Int × V) → V × Int
  | result, total, [] => (result, total)
  | result, total, [x] =>
    let time := endTime - x.1
    let time := if time > responseTime then responseTime else time
    (result + x.2 * (time : V), total + time)
  | result, total, x :: y :: list =>
    let time := y.1 - x.1
    let time := if time > responseTime then responseTime else time
    weigh responseTime endTime (result + x.2 * (time : V)) (total + time) (y :: list)

/-- `round` rounds to two digits. A division by zero raises an exception. -/
def getRecentValue [Zero V] [Div V] (float : ByteStr → Option V) (round : V → V)
    (s : Store HashValue) (key : ByteStr) (responseTime interval curTime : Int) : Option V := do
  let endTime := curTime - responseTime
  let list ← getValueList float s key responseTime interval curTime
  if list.isEmpty then some 0
  else
    let (result, total) := weigh responseTime endTime 0 0 list
    if total = 0 then none else some (round (result / (total : V)))

end

/-! ## The weights -/

/-- For how long a value that lasts `time` counts. -/
def weight (responseTime : Int) (x : Int × V) : Int := min x.1 responseTime

section
variable {V : Type} {responseTime endTime total : Int} {list : List (Int × V)}

theorem capped (time : Int) : (if time > responseTime then responseTime else time) =
    min time responseTime := by split <;> omega

section
variable [Add V] [Mul V] [IntCast V] {result : V}

theorem weigh_total : (weigh responseTime endTime result total list).2 =
    total + ((gaps endTime list).map (weight responseTime)).sum := by
  induction list generalizing result total with
  | nil => simp [weigh, gaps]
  | cons x list ih =>
    cases list with
    | nil => simp [weigh, gaps, weight, capped]
    | cons y list => simp [weigh, gaps, weight, capped, ih, Int.add_assoc]

end

theorem weigh_result {result : ℚ} {list : List (Int × ℚ)} :
    (weigh responseTime endTime result total list).1 =
      result + ((gaps endTime list).map fun x => x.2 * (weight responseTime x : ℚ)).sum := by
  induction list generalizing result total with
  | nil => simp [weigh, gaps]
  | cons x list ih =>
    cases list with
    | nil => simp only [weigh, gaps, weight, capped, List.map_singleton, List.sum_singleton]
    | cons y list =>
      simp only [weigh, gaps, weight, capped, ih, List.map_cons, List.sum_cons, add_assoc]

theorem weight_nonneg (h : 0 ≤ responseTime) {x : Int × V} (hx : 0 ≤ x.1) :
    0 ≤ weight responseTime x := le_min hx h

/-- The last entry lasts for a second at least. -/
theorem weight_sum_pos (h : 1 ≤ responseTime) (hlist : OldestFirst list)
    (hend : ∀ x ∈ list, x.1 < endTime) (hne : list ≠ []) :
    0 < ((gaps endTime list).map (weight responseTime)).sum := by
  have hgaps := gaps_nonneg hlist fun x hx => Int.le_of_lt (hend x hx)
  obtain ⟨gs, y, hy, heq⟩ := exists_gaps_eq_concat endTime hne
  rw [heq] at hgaps ⊢
  have hbefore : 0 ≤ (gs.map (weight responseTime)).sum := by
    refine List.sum_nonneg fun w hw => ?_
    obtain ⟨g, hg, rfl⟩ := List.mem_map.mp hw
    exact weight_nonneg (by omega) (hgaps g (List.mem_append_left _ hg))
  have hlast : 0 < weight responseTime (endTime - y.1, y.2) :=
    lt_min (by have := hend y hy; dsimp only; omega) h
  rw [List.map_append, List.sum_append, List.map_singleton, List.sum_singleton]
  omega

/-- With no response time, nothing counts. -/
theorem weight_sum_nonpos (h : responseTime ≤ 0) (xs : List (Int × V)) :
    (xs.map (weight responseTime)).sum ≤ 0 := by
  induction xs with
  | nil => exact le_rfl
  | cons x xs ih =>
    have : weight responseTime x ≤ responseTime := min_le_right _ _
    rw [List.map_cons, List.sum_cons]
    omega

end

/-! ## The division -/

section
variable {V : Type} {float : ByteStr → Option V} {s : Store HashValue} {key : ByteStr}
  {entries : List (Int × V)} {startTime endTime responseTime interval curTime : Int}

theorem oldestFirst_readWindow (h : NewestFirst entries) :
    OldestFirst (readWindow startTime endTime entries) :=
  NewestFirst.oldestFirst_reverse ((h.sublist (List.take_sublist _ _)).filter _)

theorem mem_readWindow {x : Int × V} (h : x ∈ readWindow startTime endTime entries) :
    startTime ≤ x.1 ∧ x.1 < endTime :=
  of_decide_eq_true (List.mem_filter.mp (List.mem_reverse.mp h)).2

theorem getValueList_eq (h : Reads float (s.list key) entries) (hentries : NewestFirst entries)
    (hinterval : 0 ≤ interval) : getValueList float s key responseTime interval curTime =
      some (readWindow (curTime - responseTime - interval) (curTime - responseTime) entries) :=
  getCounterValue_eq_readWindow h hentries (by omega)

/-- The list of the call is the window of the entries, with the oldest one first. -/
theorem exists_window (h : Reads float (s.list key) entries) (hentries : NewestFirst entries)
    (hinterval : 0 ≤ interval) (responseTime curTime : Int) : ∃ list,
    readWindow (curTime - responseTime - interval) (curTime - responseTime) entries = list ∧
      getValueList float s key responseTime interval curTime = some list ∧ OldestFirst list ∧
      ∀ x ∈ list, x.1 < curTime - responseTime :=
  ⟨_, rfl, getValueList_eq h hentries hinterval, oldestFirst_readWindow hentries,
    fun _ hx => (mem_readWindow hx).2⟩

variable [Add V] [Mul V] [IntCast V] [Zero V] [Div V]

/-- The call returns, and if there is anything in the window, it counts for some time. -/
structure Completes (float : ByteStr → Option V) (round : V → V) (s : Store HashValue)
    (key : ByteStr) (responseTime interval curTime : Int) : Prop where
  returns : (getRecentValue float round s key responseTime interval curTime).isSome
  positive : ∀ list, getValueList float s key responseTime interval curTime = some list →
    list ≠ [] → 0 < (weigh responseTime (curTime - responseTime) (0 : V) 0 list).2

theorem getRecentValue_eq {round : V → V} {list : List (Int × V)}
    (hlist : getValueList float s key responseTime interval curTime = some list) (hne : list ≠ []) :
    getRecentValue float round s key responseTime interval curTime =
      let (result, total) := weigh responseTime (curTime - responseTime) 0 0 list
      if total = 0 then none else some (round (result / (total : V))) := by
  rw [getRecentValue, hlist, Option.bind_eq_bind, Option.bind_some,
    if_neg (by rwa [List.isEmpty_iff])]

theorem completes_iff_one_le {round : V → V} (h : Reads float (s.list key) entries)
    (hentries : NewestFirst entries) (hinterval : 0 ≤ interval) :
    Completes float round s key responseTime interval curTime ↔ 1 ≤ responseTime ∨
      readWindow (curTime - responseTime - interval) (curTime - responseTime) entries = [] := by
  obtain ⟨list, hreadWindow, hlist, hsorted, hbefore⟩ :=
    exists_window h hentries hinterval responseTime curTime
  rw [hreadWindow]
  by_cases hne : list = []
  · refine iff_of_true ⟨?_, fun list' hlist' hne' => ?_⟩ (.inr hne)
    · rw [getRecentValue, hlist, hne]
      rfl
    · cases hlist.symm.trans hlist'
      exact absurd hne hne'
  · rw [or_iff_left hne]
    constructor
    · intro hcompletes
      have hpos := hcompletes.positive list hlist hne
      rw [weigh_total, Int.zero_add] at hpos
      by_contra hrt
      have := weight_sum_nonpos (by omega : responseTime ≤ 0) (gaps (curTime - responseTime) list)
      omega
    · intro hrt
      have hpos : 0 < (weigh responseTime (curTime - responseTime) (0 : V) 0 list).2 := by
        rw [weigh_total, Int.zero_add]
        exact weight_sum_pos hrt hsorted hbefore hne
      refine ⟨?_, fun list' hlist' _ => ?_⟩
      · rw [getRecentValue_eq hlist hne]
        dsimp only
        rw [if_neg (Int.ne_of_gt hpos)]
        rfl
      · cases hlist.symm.trans hlist'
        exact hpos

end

/-- The sample is 1 or 0 at each of the times. -/
def samplesAt (xs : List (Int × Bool)) : Store HashValue :=
  { Store.empty with
    list := fun _ => xs.map fun x =>
      decimal x.1 ++ ascii " " ++ if x.2 then ascii "1.000000" else ascii "0.000000" }

def oneOrZero (text : ByteStr) : Option ℚ := some (if text = ascii "1.000000" then 1 else 0)

theorem reads_samplesAt (xs : List (Int × Bool)) (key : ByteStr) :
    Reads oneOrZero ((samplesAt xs).list key) (xs.map fun x => (x.1, if x.2 then 1 else 0)) := by
  rw [Reads, samplesAt, List.forall₂_map_left_iff, List.forall₂_map_right_iff, List.forall₂_same]
  intro x _
  refine readEntry_append ?_ ?_ x.1
  · split <;> decide
  · cases x.2 <;> rfl

/-! ## The seconds that are held -/

/-- The values that `GetValueList_detail` holds: what is left of its result when it fills in nothing
else. -/
def heldValues (float : ByteStr → Option ℚ) (s : Store HashValue) (key : ByteStr)
    (responseTime interval curTime : Int) : Option (List ℚ) :=
  (@getValueList_detail (Option ℚ) ⟨none⟩ (fun text => (float text).map some) s key responseTime
    interval curTime).map fun list => list.filterMap Prod.snd

/-- The recent value is the mean of the values that are held. -/
def AgreesWithDetail (float : ByteStr → Option ℚ) (s : Store HashValue) (key : ByteStr)
    (responseTime interval curTime : Int) : Prop :=
  ∃ values, heldValues float s key responseTime interval curTime = some values ∧ values ≠ [] ∧
    getRecentValue float id s key responseTime interval curTime =
      some (values.sum / values.length)

/-- The gaps that are longer than the response time, where `GetValueList_detail` holds the value for
one second more than `GetRecentValue` counts. -/
def overdue (responseTime : Int) (xs : List (Int × V)) : List (Int × V) :=
  xs.filter (responseTime < ·.1)

def inTime (responseTime : Int) (xs : List (Int × V)) : List (Int × V) :=
  xs.filter (·.1 ≤ responseTime)

/-- The mean of the overdue values is the mean of those in time, weighted by their gaps, or one of
the two has no weight. -/
def Balanced (responseTime : Int) (xs : List (Int × ℚ)) : Prop :=
  (overdue responseTime xs).length * ((inTime responseTime xs).map fun x => x.2 * (x.1 : ℚ)).sum =
    ((inTime responseTime xs).map fun x => (x.1 : ℚ)).sum *
      ((overdue responseTime xs).map Prod.snd).sum

section
variable {limit responseTime : Int} {xs : List (Int × ℚ)}

/-- Up to one second more than the response time, an overdue value counts for the limit and one in
time for its gap. -/
theorem sum_weighted (h : responseTime ≤ limit) (h' : limit ≤ responseTime + 1) :
    (xs.map fun x => x.2 * (weight limit x : ℚ)).sum =
      ((inTime responseTime xs).map fun x => x.2 * (x.1 : ℚ)).sum +
        limit * ((overdue responseTime xs).map Prod.snd).sum := by
  induction xs with
  | nil => simp [inTime, overdue]
  | cons x xs ih =>
    rw [List.map_cons, List.sum_cons, ih]
    by_cases hx : responseTime < x.1
    · have hweight : weight limit x = limit := min_eq_right (by omega)
      have hin : ¬x.1 ≤ responseTime := by omega
      simp only [inTime, overdue, List.filter_cons, hx, hin, decide_true, decide_false, if_true,
        if_false, Bool.false_eq_true, List.map_cons, List.sum_cons, hweight]
      ring
    · have hweight : weight limit x = x.1 := min_eq_left (by omega)
      have hin : x.1 ≤ responseTime := by omega
      simp only [inTime, overdue, List.filter_cons, hx, hin, decide_true, decide_false, if_true,
        if_false, Bool.false_eq_true, List.map_cons, List.sum_cons, hweight]
      ring

theorem sum_weight (h : responseTime ≤ limit) (h' : limit ≤ responseTime + 1) :
    (xs.map fun x => (weight limit x : ℚ)).sum =
      ((inTime responseTime xs).map fun x => (x.1 : ℚ)).sum +
        limit * (overdue responseTime xs).length := by
  have hone := @sum_weighted limit responseTime (xs.map fun x => (x.1, 1)) h h'
  simpa [inTime, overdue, List.filter_map, Function.comp_def, weight] using hone

theorem cast_weight (hlimit : 0 ≤ limit) {x : Int × ℚ} (hx : 0 ≤ x.1) :
    ((min x.1 limit).toNat : ℚ) = (weight limit x : ℚ) := by
  have hnonneg := Int.toNat_of_nonneg (weight_nonneg hlimit hx)
  exact_mod_cast congrArg (Int.cast (R := ℚ)) hnonneg

theorem sum_held (hlimit : 0 ≤ limit) (hxs : ∀ x ∈ xs, 0 ≤ x.1) :
    (xs.flatMap fun x => List.replicate (min x.1 limit).toNat x.2).sum =
      (xs.map fun x => x.2 * (weight limit x : ℚ)).sum := by
  induction xs with
  | nil => rfl
  | cons x xs ih =>
    obtain ⟨hx, hxs⟩ := List.forall_mem_cons.mp hxs
    rw [List.flatMap_cons, List.sum_append, ih hxs, List.sum_replicate, nsmul_eq_mul,
      cast_weight hlimit hx, List.map_cons, List.sum_cons, mul_comm]

theorem length_held (hlimit : 0 ≤ limit) (hxs : ∀ x ∈ xs, 0 ≤ x.1) :
    ((xs.flatMap fun x => List.replicate (min x.1 limit).toNat x.2).length : ℚ) =
      (xs.map fun x => (weight limit x : ℚ)).sum := by
  induction xs with
  | nil => rfl
  | cons x xs ih =>
    obtain ⟨hx, hxs⟩ := List.forall_mem_cons.mp hxs
    rw [List.flatMap_cons, List.length_append, Nat.cast_add, ih hxs, List.length_replicate,
      cast_weight hlimit hx, List.map_cons, List.sum_cons]

/-- The two means are the same exactly when the overdue values are balanced. -/
theorem mean_eq_mean_iff (hpos : 0 < (xs.map (weight responseTime)).sum) :
    (xs.map fun x => x.2 * (weight responseTime x : ℚ)).sum /
          ((xs.map (weight responseTime)).sum : ℚ) =
        (xs.map fun x => x.2 * (weight (responseTime + 1) x : ℚ)).sum /
          (xs.map fun x => (weight (responseTime + 1) x : ℚ)).sum ↔
      Balanced responseTime xs := by
  have hsum : ((xs.map (weight responseTime)).sum : ℚ) =
      (xs.map fun x => (weight responseTime x : ℚ)).sum := by
    rw [Int.cast_list_sum, List.map_map]
    rfl
  have hpos' : (0 : ℚ) < (xs.map fun x => (weight responseTime x : ℚ)).sum := by
    rw [← hsum]
    exact_mod_cast hpos
  have hn : (0 : ℚ) ≤ (overdue responseTime xs).length := Nat.cast_nonneg _
  rw [hsum, sum_weighted le_rfl (by omega), sum_weighted (by omega) le_rfl,
    sum_weight (by omega) le_rfl]
  rw [sum_weight le_rfl (by omega)] at hpos' ⊢
  rw [Balanced]
  push_cast
  generalize ((overdue responseTime xs).length : ℚ) = n at hn hpos' ⊢
  generalize ((inTime responseTime xs).map fun x => (x.1 : ℚ)).sum = g at hpos' ⊢
  rw [div_eq_div_iff (ne_of_gt hpos') (by linarith)]
  constructor
  · intro h
    linear_combination h
  · intro h
    linear_combination h

end

section
variable {float : ByteStr → Option ℚ} {s : Store HashValue} {key : ByteStr}
  {entries : List (Int × ℚ)} {responseTime interval curTime : Int}

theorem readWindow_map {V W : Type} (f : V → W) (startTime endTime : Int)
    (entries : List (Int × V)) : readWindow startTime endTime (entries.map fun x => (x.1, f x.2)) =
      (readWindow startTime endTime entries).map fun x => (x.1, f x.2) := by
  rw [readWindow, readWindow, ← List.map_take, List.filter_map, List.map_reverse]
  rfl

theorem heldValues_eq (h : Reads float (s.list key) entries) (hentries : NewestFirst entries)
    (hinterval : 0 ≤ interval) : heldValues float s key responseTime interval curTime =
      some (held responseTime (curTime - responseTime)
        (readWindow (curTime - responseTime - interval) (curTime - responseTime) entries)) := by
  have hreads : Reads (fun text => (float text).map some) (s.list key)
      (entries.map fun x => (x.1, some x.2)) := by
    rw [Reads, List.forall₂_map_right_iff]
    refine h.imp fun data x hdata => ?_
    simp only [readEntry, Option.bind_eq_bind, Option.bind_eq_some_iff] at hdata ⊢
    obtain ⟨time, htime, value, hvalue, curTime, hcurTime, y, hy, hx⟩ := hdata
    obtain rfl := Option.some_inj.mp hx
    exact ⟨time, htime, value, hvalue, curTime, hcurTime, some y, by rw [hy]; rfl, rfl⟩
  have hnewest : NewestFirst (entries.map fun x => (x.1, some x.2)) :=
    List.pairwise_map.mpr hentries
  unfold heldValues getValueList_detail
  dsimp only
  rw [getCounterValue_eq_readWindow hreads hnewest (by omega), readWindow_map]
  rfl

end

/-- If there is an entry in the window, the recent value agrees with the values that
`GetValueList_detail` holds exactly when some entry of the window is read, and the values that are
overdue are balanced. -/
theorem agreesWithDetail_iff {float : ByteStr → Option ℚ} {s : Store HashValue} {key : ByteStr}
    {entries : List (Int × ℚ)} {responseTime interval curTime : Int}
    (hreads : Reads float (s.list key) entries) (hentries : NewestFirst entries)
    (hrt : 1 ≤ responseTime)
    (hwindow : ∃ x ∈ entries,
      curTime - responseTime - interval ≤ x.1 ∧ x.1 < curTime - responseTime) :
    AgreesWithDetail float s key responseTime interval curTime ↔
      readWindow (curTime - responseTime - interval) (curTime - responseTime) entries ≠ [] ∧
      Balanced responseTime (gaps (curTime - responseTime)
        (readWindow (curTime - responseTime - interval) (curTime - responseTime) entries)) := by
  have hinterval : 0 ≤ interval := by
    obtain ⟨x, -, hstart, hend⟩ := hwindow
    omega
  have hheld : heldValues float s key responseTime interval curTime =
      some (held responseTime (curTime - responseTime)
        (readWindow (curTime - responseTime - interval) (curTime - responseTime) entries)) :=
    heldValues_eq hreads hentries hinterval
  obtain ⟨list, hreadWindow, hlist, hsorted, hbefore⟩ :=
    exists_window hreads hentries hinterval responseTime curTime
  rw [hreadWindow] at hheld ⊢
  have hend : ∀ x ∈ list, x.1 ≤ curTime - responseTime := fun x hx => Int.le_of_lt (hbefore x hx)
  unfold AgreesWithDetail
  simp only [hheld, Option.some.injEq, exists_eq_left']
  by_cases hne : list = []
  · exact iff_of_false (fun h => h.1 (by rw [hne]; rfl)) fun h => h.1 hne
  have hgaps := gaps_nonneg hsorted hend
  have hpos := weight_sum_pos hrt hsorted hbefore hne
  have hsum : (held responseTime (curTime - responseTime) list).sum = ((gaps
      (curTime - responseTime) list).map fun x => x.2 * (weight (responseTime + 1) x : ℚ)).sum := by
    rw [held_eq hsorted hend (by omega), sum_held (by omega) hgaps]
  have hlength : (held responseTime (curTime - responseTime) list).length = ((gaps
      (curTime - responseTime) list).map fun x => (weight (responseTime + 1) x : ℚ)).sum := by
    rw [held_eq hsorted hend (by omega), length_held (by omega) hgaps]
  rw [← mean_eq_mean_iff hpos, hsum, hlength, getRecentValue_eq hlist hne]
  dsimp only
  rw [weigh_total, Int.zero_add, weigh_result, zero_add, if_neg (Int.ne_of_gt hpos),
    Option.some.injEq, id_eq]
  exact and_congr_left' (iff_of_true (held_ne_nil hsorted hbefore (by omega) hne) hne)

theorem agreesWithDetail_iff_steady :
    AgreesWithDetail oneOrZero (samplesAt [(3, true), (1, true), (0, false)]) [] 2 10 10 ↔
      readWindow (10 - 2 - 10) (10 - 2) [(3, (1 : ℚ)), (1, 1), (0, 0)] ≠ [] ∧
        Balanced 2 (gaps (10 - 2) (readWindow (10 - 2 - 10) (10 - 2) [(3, 1), (1, 1), (0, 0)])) :=
  have hreads : Reads oneOrZero ((samplesAt [(3, true), (1, true), (0, false)]).list [])
      [(3, 1), (1, 1), (0, 0)] := reads_samplesAt _ []
  have hrt : (1 : Int) ≤ 2 := by decide
  have hwindow : ∃ x ∈ [((3 : Int), (1 : ℚ)), (1, 1), (0, 0)],
      10 - 2 - 10 ≤ x.1 ∧ x.1 < 10 - 2 := by decide
  agreesWithDetail_iff hreads (by decide) hrt hwindow

/-- A value is held for two seconds, but counts for one. -/
theorem recentValue_ne_mean_of_held :
    Reads oneOrZero ((samplesAt [(3, false), (0, true)]).list []) [(3, 0), (0, 1)] ∧
      NewestFirst [((3 : Int), (0 : ℚ)), (0, 1)] ∧
      (∃ x ∈ [((3 : Int), (0 : ℚ)), (0, 1)], 5 - 1 - 10 ≤ x.1 ∧ x.1 < 5 - 1) ∧
      ¬AgreesWithDetail oneOrZero (samplesAt [(3, false), (0, true)]) [] 1 10 5 := by
  have hreads : Reads oneOrZero ((samplesAt [(3, false), (0, true)]).list []) [(3, 0), (0, 1)] :=
    reads_samplesAt _ []
  have hnewest : NewestFirst [((3 : Int), (0 : ℚ)), (0, 1)] := by decide
  refine ⟨hreads, hnewest, by decide, ?_⟩
  rintro ⟨values, hvalues, -, heq⟩
  have hheld := (heldValues_eq hreads hnewest (by decide)).symm.trans hvalues
  have hlist : readWindow (5 - 1 - 10) (5 - 1) [((3 : Int), (0 : ℚ)), (0, 1)] =
      [(0, 1), (3, 0)] := by decide
  have hvalues : held 1 (5 - 1) [((0 : Int), (1 : ℚ)), (3, 0)] = [1, 1, 0] := by decide
  rw [hlist, hvalues] at hheld
  cases hheld
  rw [getRecentValue_eq (getValueList_eq hreads hnewest (by decide)) (by decide), hlist] at heq
  norm_num [weigh] at heq

end RedisJob

/-! ## The response times of the records -/

/-- An agent that is not recording has no response time. -/
def AgentRecord.IdleZero (jv : AgentRecord) : Prop := jv.isRecording = false → jv.responseTime = 0

/-- All records are so. -/
def IdleZeros (s : Store HashValue) : Prop := ∀ token jv, recordAt s token = some jv → jv.IdleZero

section
variable {s : Store HashValue} {token : Int} {jv : AgentRecord} {localTime : Int → ByteStr}
  {guar : Store HashValue → Store HashValue → Prop}

theorem IdleZeros.setValue {v : HashValue} (h : IdleZeros s)
    (hv : ∀ jv, v.record? = some jv → jv.IdleZero) : IdleZeros (setValue s token v) := by
  intro token' jv' hjv'
  rw [recordAt_setValue] at hjv'
  split at hjv'
  · exact hv jv' hjv'
  · exact h token' jv' hjv'

theorem IdleZeros.setRecord (h : IdleZeros s) (hjv : jv.IdleZero) :
    IdleZeros (setRecord s token jv) :=
  h.setValue fun _ hjv' => Option.some.inj hjv' ▸ hjv

/-- What every thread promises. -/
def KeepsIdle (s s' : Store HashValue) : Prop := IdleZeros s → IdleZeros s'

theorem KeepsIdle.refl (s : Store HashValue) : KeepsIdle s s := id

theorem KeepsIdle.trans {s s' s'' : Store HashValue} (h : KeepsIdle s s') (h' : KeepsIdle s' s'') :
    KeepsIdle s s'' := h' ∘ h

theorem changeAgentState_safe_idle {change : AgentRecord → AgentRecord}
    (hchange : ∀ jv, jv.IdleZero → (change jv).IdleZero) (hs : IdleZeros s) :
    (changeAgentState token change).Safe exec KeepsIdle KeepsIdle (fun _ _ => True) s := by
  refine (found_reply (P := IdleZeros) (fun s' hs' => hs' hs) KeepsIdle.refl).bind _ ?_
  rintro (_ | jv) s ⟨hs, hjv⟩
  · trivial
  · exact fun s' _ => ⟨fun hs' => hs'.setRecord (hchange jv (hs token jv hjv.symm)), trivial⟩

theorem initAgent_safe_idle {hostIP : Int} {ramSize : BitVec 64} (hs : IdleZeros s) :
    (initAgent token hostIP ramSize).Safe exec KeepsIdle KeepsIdle (fun _ _ => True) s := by
  refine (found_reply (P := IdleZeros) (fun s' hs' => hs' hs) KeepsIdle.refl).bind _ ?_
  rintro (_ | jv) s ⟨hs, hjv⟩
  · refine fun s' _ => ⟨id, fun s'' _ => ⟨fun hs'' => hs''.setValue fun jv hjv _ => ?_, trivial⟩⟩
    have hnew := ofJson_eq_json_iff.mp (record?_eq_some_iff.mp hjv)
    rw [← hnew]
    rfl
  · exact fun s' _ => ⟨fun hs' => hs'.setRecord (hs token jv hjv.symm), trivial⟩

theorem StateChange.safe_idle {c : StateChange} (hs : IdleZeros s) :
    (c.program localTime).Safe exec KeepsIdle KeepsIdle (fun _ _ => True) s := by
  cases c with
  | isOn => exact changeAgentState_safe_idle (fun _ h => h) hs
  | startRecording => exact changeAgentState_safe_idle (fun _ _ h => by cases h) hs
  | stopRecording => exact changeAgentState_safe_idle (fun _ _ _ => rfl) hs

theorem idleContract : Threads.Contract exec (agentBody localTime) (fun _ _ _ => True) IdleZeros
    (fun _ => KeepsIdle) (fun _ => KeepsIdle) where
  refl _ := .refl
  trans := .trans
  rely_of_guar _ _ h := h
  keeps hs h := h hs
  safe i call s hs _ := by
    cases i with
    | logic =>
      cases call with
      | initAgent token hostIP ramSize => exact initAgent_safe_idle hs
      | change c => exact c.safe_idle hs
    | other n => exact StateChange.safe_idle hs

theorem run_idleZeros {es : List (Threads.Event AgentCall)}
    {t : Threads AgentThread (Command HashValue) (Reply HashValue) Bool (Store HashValue)}
    (hs : s.hash agentList = ∅) (hrun : (agentMachine localTime).run (Threads.init s) es = some t) :
    IdleZeros t.shared := by
  have hempty : IdleZeros s := fun token jv hjv => by simp [recordAt, hs] at hjv
  have hallowed : (agentMachine localTime).Meets (Threads.Allowed fun _ _ _ => True)
      (Threads.init s) es := EventMachine.meets_of_forall fun _ e => by cases e <;> trivial
  exact ((Threads.init_sound hempty).run idleContract KeepsIdle.refl KeepsIdle.trans (fun _ => id)
    hallowed hrun).2 hempty

end

namespace RedisJob

/-- For an agent of any state that the server reaches, the recent value over a minute can be
computed exactly when the agent is recording, with a positive response time, or none of the first 61
entries is in the window. -/
theorem completes_iff {localTime : Int → ByteStr} {s : Store HashValue}
    {es : List (Threads.Event AgentCall)}
    {t : Threads AgentThread (Command HashValue) (Reply HashValue) Bool (Store HashValue)}
    (hs : s.hash agentList = ∅) (hrun : (agentMachine localTime).run (Threads.init s) es = some t)
    {token : Int} {jv : AgentRecord} (hjv : recordAt t.shared token = some jv) {V : Type} [Add V]
    [Mul V] [IntCast V] [Zero V] [Div V] {float : ByteStr → Option V} {round : V → V}
    {key : ByteStr} {entries : List (Int × V)} (hreads : Reads float (t.shared.list key) entries)
    (hentries : NewestFirst entries) (curTime : Int) :
    Completes float round t.shared key jv.responseTime 60 curTime ↔
      jv.isRecording = true ∧ 1 ≤ jv.responseTime ∨
        readWindow (curTime - jv.responseTime - 60) (curTime - jv.responseTime) entries = [] := by
  rw [completes_iff_one_le hreads hentries (by decide)]
  refine or_congr_left ⟨fun hrt => ⟨?_, hrt⟩, And.right⟩
  by_contra hoff
  have := run_idleZeros hs hrun token jv hjv (Bool.eq_false_iff.mpr hoff)
  omega

/-- An agent registers and records for some time. -/
def recordFor (seconds : Int) : List (Threads.Event AgentCall) :=
  [.start .logic (.initAgent 7 1 0#64), .step .logic, .step .logic, .step .logic, .step .logic,
    .start .logic (.change (.startRecording 0 7 0 seconds 0)), .step .logic, .step .logic,
    .step .logic]

def stopRecording : List (Threads.Event AgentCall) :=
  [.start .logic (.change (.stopRecording 7)), .step .logic, .step .logic, .step .logic]

def recording (seconds : Int) : AgentRecord :=
  { newRecord 1 0 0#64 isFinite_zero with
    isRecording := true
    startTime := []
    endTime := ascii "INFINITE"
    responseTime := seconds }

theorem completes_iff_recordFor : ∃ t,
    (agentMachine fun _ => []).run (Threads.init (samplesAt [(9, true)])) (recordFor 5) = some t ∧
      recordAt t.shared 7 = some (recording 5) ∧
      (Completes oneOrZero id t.shared [] 5 60 20 ↔
        (recording 5).isRecording = true ∧ 1 ≤ (5 : Int) ∨
          readWindow (20 - 5 - 60) (20 - 5) [(9, (1 : ℚ))] = []) := by
  have hs : (samplesAt [(9, true)]).hash agentList = ∅ := rfl
  obtain ⟨t, hrun, hrecord, hlist⟩ : ∃ t,
      (agentMachine fun _ => []).run (Threads.init (samplesAt [(9, true)])) (recordFor 5) = some t ∧
      recordAt t.shared 7 = some (recording 5) ∧ t.shared.list = (samplesAt [(9, true)]).list :=
    ⟨_, rfl, rfl, rfl⟩
  have hreads : Reads oneOrZero (t.shared.list []) [(9, 1)] := by
    rw [hlist]
    exact reads_samplesAt [(9, true)] []
  exact ⟨t, hrun, hrecord, completes_iff hs hrun hrecord hreads (by decide) 20⟩

/-- The recording is stopped while its last sample is in the window. -/
theorem stopRecording_divides_by_zero : ∃ t jv,
    (agentMachine fun _ => []).run (Threads.init (samplesAt [(9, true)]))
      (recordFor 5 ++ stopRecording) = some t ∧
    recordAt t.shared 7 = some jv ∧ Reads oneOrZero (t.shared.list []) [(9, 1)] ∧
    NewestFirst [((9 : Int), (1 : ℚ))] ∧
    ¬Completes oneOrZero id t.shared [] jv.responseTime 60 10 := by
  obtain ⟨t, hrun, hrecord, hlist⟩ : ∃ t,
      (agentMachine fun _ => []).run (Threads.init (samplesAt [(9, true)]))
        (recordFor 5 ++ stopRecording) = some t ∧
      recordAt t.shared 7 = some (newRecord 1 0 0#64 isFinite_zero) ∧
      t.shared.list = (samplesAt [(9, true)]).list :=
    ⟨_, rfl, rfl, rfl⟩
  have hreads : Reads oneOrZero (t.shared.list []) [(9, 1)] := by
    rw [hlist]
    exact reads_samplesAt [(9, true)] []
  refine ⟨t, _, hrun, hrecord, hreads, by decide, fun h => ?_⟩
  have hiff := (completes_iff_one_le hreads (by decide) (by decide)).mp h
  revert hiff
  decide

end RedisJob

end PSM
