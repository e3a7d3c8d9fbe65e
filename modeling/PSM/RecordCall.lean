import Mathlib.Algebra.Order.Group.Nat
import Mathlib.Algebra.Order.Ring.Int
import PSM.Lib.EventMachine

/-! One call of `Query::Record`, with all its exits.

A call opens a query for each cycle and closes it before the cycle's logs are sent. Only the two ways
out of the outer loop set the flag that lets a recorder of the kind start again; the other exits leave
it, and most of them leave the query open (`restartable_iff`). The cycles are ended by a counter of the
time that stands still when the processor time cannot be read (`accounted_iff`). -/

namespace PSM

/-- What a call of `Record` does next. -/
inductive RecordPhase where
  | delay
  | head
  | openQuery
  | initCounterInfo
  | collect
  | collectEx
  | wait
  | read
  | advance
  | test
  | closeQuery
  | send
  | returned (result : Bool)
  deriving DecidableEq

structure RecordArgs where
  isMachine : Bool
  totalTime : Int
  recordTime : Int
  interval : Int

/-- What a cycle sends: the collections made in it and the values logged, and `time_` at its end. -/
structure RecordBatch where
  collections : Nat
  logged : Nat
  time : Int

/-- A call in progress. `recordEnd` is the flag of its kind. `openQueries` counts the queries opened
and not closed, `collections` and `logged` are of the current cycle, and `reads` counts the rounds in
which values were read. -/
structure RecordCall where
  phase : RecordPhase := .delay
  time_ : Int := 0
  recordEnd : Bool := false
  isConnect : Bool := true
  openQueries : Nat := 0
  collections : Nat := 0
  logged : Nat := 0
  reads : Nat := 0
  batches : List RecordBatch := []

inductive RecordCallEvent where
  /-- The statements up to the next call. -/
  | run
  /-- A call of the system or of `InitCounterInfo` succeeds or not. -/
  | call (ok : Bool)
  /-- The processor time can be read or not, and so can the value of each entry. -/
  | read (cpu : Bool) (entries : List Bool)
  | stopRecord
  | startRecord
  | setConnect (isConnect : Bool)

/-- A sum of the type `int`, as the compiler of the client computes it. -/
def addInt (x y : Int) : Int := (x + y).bmod (2 ^ 32)

namespace RecordCall

/-- The end of `Record` after its loop. -/
def finish (s : RecordCall) : RecordCall := { s with phase := .returned true, recordEnd := true }

def fail (s : RecordCall) : RecordCall := { s with phase := .returned false }

/-- The guard of `StartRecord`, and what it does to the flag. -/
def startRecord (s : RecordCall) : Bool × RecordCall :=
  if s.recordEnd then (true, { s with recordEnd := false }) else (false, s)

def stopRecord (s : RecordCall) : Bool × RecordCall :=
  if s.recordEnd then (false, s) else (true, { s with recordEnd := true })

def sendInfo (s : RecordCall) : RecordCall :=
  { s with batches := s.batches ++ [⟨s.collections, s.logged, s.time_⟩], collections := 0, logged := 0 }

/-- The statements between two calls. A division by zero has no result. -/
def run (a : RecordArgs) (s : RecordCall) : Option RecordCall :=
  match s.phase with
  | .delay => some { s with phase := .head }
  | .head =>
    if a.totalTime > s.time_ ∨ a.totalTime < 0 then
      if s.recordEnd then some s.finish else some { s with phase := .openQuery }
    else some s.finish
  | .advance => some { s with time_ := addInt s.time_ a.interval, phase := .test }
  | .test =>
    if a.recordTime = 0 then none
    else some { s with phase := if s.time_.tmod a.recordTime ≠ 0 then .collect else .closeQuery }
  | .send => some (if s.isConnect then { s.sendInfo with phase := .head } else s.sendInfo.finish)
  | _ => none

def call (s : RecordCall) (ok : Bool) : Option RecordCall :=
  match s.phase with
  | .openQuery =>
    some (if ok then { s with phase := .initCounterInfo, openQueries := s.openQueries + 1 } else s.fail)
  | .initCounterInfo => some (if ok then { s with phase := .collect } else s.fail)
  | .collect => some (if ok then { s with phase := .collectEx } else s.fail)
  | .collectEx =>
    some (if ok then { s with phase := .wait, collections := s.collections + 1 } else s.fail)
  | .wait => some { s with phase := if ok then .read else .advance }
  | .closeQuery =>
    some (if ok then { s with phase := .send, openQueries := s.openQueries - 1 } else s.fail)
  | _ => none

/-- The reading of the values. Without the processor time, the recorder of the processes goes on
(`continue`) with the loop's condition. -/
def read (a : RecordArgs) (s : RecordCall) (cpu : Bool) (entries : List Bool) : Option RecordCall :=
  match s.phase with
  | .read =>
    let s := { s with reads := s.reads + 1 }
    if !a.isMachine && !cpu then some { s with phase := .test }
    else some { s with logged := s.logged + entries.count true, phase := .advance }
  | _ => none

def step (a : RecordArgs) (s : RecordCall) (e : RecordCallEvent) : Option RecordCall :=
  match s.phase, e with
  | .returned _, _ => none
  | _, .run => s.run a
  | _, .call ok => s.call ok
  | _, .read cpu entries => s.read a cpu entries
  | _, .stopRecord => some s.stopRecord.2
  | _, .startRecord => some s.startRecord.2
  | _, .setConnect isConnect => some { s with isConnect }

def machine (a : RecordArgs) : EventMachine RecordCall RecordCallEvent := ⟨step a⟩

/-! ## The exits -/

/-- A later `StartRecord` succeeds, and no query of the call is open. -/
def Restartable (s : RecordCall) : Prop := s.startRecord.1 = true ∧ s.openQueries = 0

/-- Of the calls whose failure ends `Record`, only `PdhOpenQuery` fails, and only after
`StopRecord`. -/
def Handled (s : RecordCall) : RecordCallEvent → Prop
  | .call false =>
    match s.phase with
    | .openQuery => s.recordEnd = true
    | .initCounterInfo | .collect | .collectEx | .closeQuery => False
    | _ => True
  | _ => True

/-- The queries that are open in a phase. -/
def queriesOf : RecordPhase → Nat
  | .initCounterInfo | .collect | .collectEx | .wait | .read | .advance | .test | .closeQuery => 1
  | _ => 0

/-- The call has not returned, and has the queries open that its phase says. -/
structure Executing (s : RecordCall) : Prop where
  phase : ∀ result, s.phase ≠ .returned result
  openQueries : s.openQueries = queriesOf s.phase

section
variable {a : RecordArgs} {s s' : RecordCall} {e : RecordCallEvent} {ok cpu : Bool}
  {entries : List Bool}

theorem restartable_finish (h : s.openQueries = 0) : Restartable s.finish := ⟨rfl, h⟩

theorem restartable_fail_iff : Restartable s.fail ↔ s.recordEnd = true ∧ s.openQueries = 0 := by
  unfold Restartable startRecord fail
  split <;> simp_all

/-- A step goes on, or it returns. -/
def Outcome (s : RecordCall) (e : RecordCallEvent) (s' : RecordCall) : Prop :=
  Executing s' ∧ Handled s e ∨
    (∃ result, s'.phase = .returned result) ∧ (Restartable s' ↔ Handled s e)

theorem run_outcome (hs : Executing s) (h : s.run a = some s') : Outcome s .run s' := by
  have hopen := hs.openQueries
  have going {s' : RecordCall} (hphase : ∀ result, s'.phase ≠ .returned result)
      (hopen' : s'.openQueries = queriesOf s'.phase) : Outcome s .run s' :=
    .inl ⟨⟨hphase, hopen'⟩, trivial⟩
  have done {s'' : RecordCall} (hopen' : s''.openQueries = 0) : Outcome s .run s''.finish :=
    .inr ⟨⟨true, rfl⟩, iff_of_true (restartable_finish hopen') trivial⟩
  unfold run at h
  split at h <;> rename_i hphase
  · cases h
    exact going (by simp) (by rw [hopen, hphase]; rfl)
  · rw [hphase] at hopen
    split at h
    · split at h <;> cases h
      · exact done hopen
      · exact going (by simp) hopen
    · cases h
      exact done hopen
  · cases h
    exact going (by simp) (by rw [hopen, hphase]; rfl)
  · rw [hphase] at hopen
    split at h <;> cases h
    refine going ?_ ?_ <;> dsimp only <;> split
    · simp
    · simp
    · exact hopen
    · exact hopen
  · rw [hphase] at hopen
    cases h
    split
    · exact going (by simp) hopen
    · exact done hopen
  · cases h

theorem call_outcome (hs : Executing s) (h : s.call ok = some s') : Outcome s (.call ok) s' := by
  have hopen := hs.openQueries
  have going {s' : RecordCall} (hphase : ∀ result, s'.phase ≠ .returned result)
      (hopen' : s'.openQueries = queriesOf s'.phase) : Outcome s (.call true) s' :=
    .inl ⟨⟨hphase, hopen'⟩, trivial⟩
  have failed (hiff : (s.recordEnd = true ∧ s.openQueries = 0) ↔ Handled s (.call false)) :
      Outcome s (.call false) s.fail := .inr ⟨⟨false, rfl⟩, restartable_fail_iff.trans hiff⟩
  unfold call at h
  split at h <;> rename_i hphase
  case h_7 => cases h
  all_goals rw [hphase] at hopen
  case h_5 =>
    cases h
    refine .inl ⟨⟨?_, ?_⟩, ?_⟩
    · dsimp only
      split <;> simp
    · dsimp only
      split <;> exact hopen
    · cases ok <;> simp [Handled, hphase]
  all_goals
    cases ok <;> cases h
    · exact failed (by simp [Handled, hphase, hopen, queriesOf])
    · exact going (by simp) (by simp [hopen, queriesOf])

theorem read_outcome (hs : Executing s) (h : s.read a cpu entries = some s') :
    Outcome s (.read cpu entries) s' := by
  have hopen := hs.openQueries
  unfold read at h
  split at h <;> rename_i hphase
  · rw [hphase] at hopen
    dsimp only at h
    split at h <;> cases h
    · exact .inl ⟨⟨by simp, hopen⟩, trivial⟩
    · exact .inl ⟨⟨by simp, hopen⟩, trivial⟩
  · cases h

theorem step_outcome (hs : Executing s) (h : (machine a).step s e = some s') : Outcome s e s' := by
  change step a s e = some s' at h
  unfold step at h
  split at h
  · cases h
  · exact run_outcome hs h
  · exact call_outcome hs h
  · exact read_outcome hs h
  · cases h
    refine .inl ⟨?_, trivial⟩
    unfold stopRecord
    split
    · exact hs
    · exact ⟨hs.phase, hs.openQueries⟩
  · cases h
    refine .inl ⟨?_, trivial⟩
    unfold startRecord
    split
    · exact ⟨hs.phase, hs.openQueries⟩
    · exact hs
  · cases h
    exact .inl ⟨⟨hs.phase, hs.openQueries⟩, trivial⟩

theorem step_returned {result : Bool} (h : s.phase = .returned result) :
    (machine a).step s e = none := by
  change step a s e = none
  unfold step
  rw [h]

end

/-- A run of a call goes on, and then every failure was handled, or the call has returned. -/
def Settled (a : RecordArgs) (start : RecordCall) (es : List RecordCallEvent) (s : RecordCall) :
    Prop :=
  Executing s ∧ (machine a).Meets Handled start es ∨
    (∃ result, s.phase = .returned result) ∧ (Restartable s ↔ (machine a).Meets Handled start es)

theorem settled_run {a : RecordArgs} {start s : RecordCall} {es : List RecordCallEvent}
    (hstart : Executing start) (hrun : (machine a).run start es = some s) : Settled a start es s := by
  refine EventMachine.run_induction (P := Settled a start) (.inl ⟨hstart, trivial⟩) ?_ hrun
  intro es e s s' hrun ih hstep
  unfold Settled
  rcases ih with ⟨hs, hmeets⟩ | ⟨⟨result, hs⟩, -⟩
  · rw [EventMachine.meets_concat_iff hrun, and_iff_right hmeets]
    exact step_outcome hs hstep
  · rw [step_returned hs] at hstep
    cases hstep

/-- A call that returns leaves the recorder restartable exactly when every failure in it was
handled. -/
theorem restartable_iff (a : RecordArgs) (isConnect : Bool) (es : List RecordCallEvent)
    (s : RecordCall) (hrun : (machine a).run { isConnect } es = some s) (result : Bool)
    (hreturned : s.phase = .returned result) :
    Restartable s ↔ (machine a).Meets Handled { isConnect } es := by
  have hstart : Executing { isConnect } := ⟨by simp, rfl⟩
  rcases settled_run hstart hrun with ⟨hs, -⟩ | ⟨-, hiff⟩
  · exact absurd hreturned (hs.phase result)
  · exact hiff

/-- A cycle in which every call succeeds, up to the loop's condition. -/
def oneCycle : List RecordCallEvent :=
  [.run, .run, .call true, .call true, .call true, .call true, .call true, .read true [true], .run,
    .run, .call true, .run, .run]

theorem restartable_iff_oneCycle : ∃ s, (machine ⟨false, 1, 1, 1⟩).run {} oneCycle = some s ∧
    s.phase = .returned true ∧ Restartable s ∧
    (Restartable s ↔ (machine ⟨false, 1, 1, 1⟩).Meets Handled {} oneCycle) :=
  ⟨_, rfl, rfl, ⟨rfl, rfl⟩, restartable_iff _ true _ _ rfl true rfl⟩

/-- No counter can be added in the first cycle. -/
theorem not_restartable_initCounterInfo : ∃ s, (machine ⟨false, -1, 10, 1⟩).run {}
      [.run, .run, .call true, .call false] = some s ∧
    s.phase = .returned false ∧ s.startRecord.1 = false ∧ s.openQueries = 1 ∧ ¬Restartable s :=
  ⟨_, rfl, rfl, rfl, rfl, fun h => Bool.false_ne_true h.1⟩

/-! ## The time -/

/-- The event of an undisturbed call: only values cannot be read, as `cpu` and `entries` say. -/
def next (cpu : Nat → Bool) (entries : Nat → List Bool) (s : RecordCall) : RecordCallEvent :=
  match s.phase with
  | .openQuery | .initCounterInfo | .collect | .collectEx | .wait | .closeQuery => .call true
  | .read => .read (cpu s.reads) (entries s.reads)
  | _ => .run

/-- The number of collections in a cycle of the given parameters. -/
def cycleLength (interval recordTime : Nat) : Nat := interval.lcm recordTime / interval

/-- The number of cycles until the total time is over, rounded up. -/
def cycles (totalTime interval recordTime : Nat) : Nat :=
  (totalTime + interval.lcm recordTime - 1) / interval.lcm recordTime

/-- An undisturbed call returns, and its cycles have the collections and the times they should
have. -/
def Accounted (isMachine : Bool) (totalTime recordTime interval : Nat) (cpu : Nat → Bool)
    (entries : Nat → List Bool) : Prop :=
  ∃ es s, (machine ⟨isMachine, totalTime, recordTime, interval⟩).run {} es = some s ∧
    (machine ⟨isMachine, totalTime, recordTime, interval⟩).Meets
      (fun s e => e = next cpu entries s) {} es ∧
    s.phase = .returned true ∧
    s.batches.map (fun b => (b.collections, b.time)) =
      (List.range (cycles totalTime interval recordTime)).map fun (i : Nat) =>
        (cycleLength interval recordTime, (((i + 1) * interval.lcm recordTime : Nat) : Int))

/-- What an undisturbed call is known to be at. -/
structure Timed (s : RecordCall) (phase : RecordPhase) (time collections reads : Nat)
    (batches : List (Nat × Int)) : Prop where
  phase : s.phase = phase
  time : s.time_ = (time : Int)
  recordEnd : s.recordEnd = false
  isConnect : s.isConnect = true
  collections : s.collections = collections
  reads : s.reads = reads
  batches : s.batches.map (fun b => (b.collections, b.time)) = batches

section
variable {isMachine : Bool} {totalTime recordTime interval : Nat} {cpu : Nat → Bool}
  {entries : Nat → List Bool} {s : RecordCall} {t c r i j d : Nat} {b : List (Nat × Int)}

theorem cycleLength_mul : cycleLength interval recordTime * interval = interval.lcm recordTime :=
  Nat.div_mul_cancel (Nat.dvd_lcm_left interval recordTime)

/-- The loop's condition fails after each `cycleLength` collections. -/
theorem dvd_time_iff (hinterval : 0 < interval) :
    recordTime ∣ i * interval.lcm recordTime + j * interval ↔
      cycleLength interval recordTime ∣ j := by
  have hstart : recordTime ∣ i * interval.lcm recordTime :=
    Nat.dvd_mul_left_of_dvd (Nat.dvd_lcm_right interval recordTime) i
  have hcycle : cycleLength interval recordTime ∣ j ↔ interval.lcm recordTime ∣ j * interval := by
    rw [← cycleLength_mul, Nat.mul_dvd_mul_iff_right hinterval]
  rw [Nat.dvd_add_right hstart, hcycle]
  constructor
  · exact Nat.lcm_dvd (Nat.dvd_mul_left interval j)
  · exact Nat.dvd_trans (Nat.dvd_lcm_right interval recordTime)

theorem lt_cycles_iff (hpos : 0 < interval.lcm recordTime) (htotal : 0 < totalTime) :
    i < cycles totalTime interval recordTime ↔ i * interval.lcm recordTime < totalTime := by
  rw [cycles, ← Nat.succ_le_iff, Nat.le_div_iff_mul_le hpos, Nat.succ_mul]
  omega

theorem addInt_natCast (h : t + interval < 2 ^ 31) : addInt t interval = ((t + interval : Nat) : Int) := by
  rw [addInt, Nat.cast_add]
  apply Int.bmod_eq_of_le_mul_two <;> push_cast <;> omega

theorem step_test {a : RecordArgs} (hphase : s.phase = .test) (hrecord : a.recordTime ≠ 0) :
    (machine a).step s (next cpu entries s) =
      some { s with phase := if s.time_.tmod a.recordTime ≠ 0 then .collect else .closeQuery } := by
  change step a s (next cpu entries s) = _
  unfold step next run
  rw [hphase]
  dsimp only
  rw [if_neg hrecord]

theorem step_read {a : RecordArgs} (hphase : s.phase = .read)
    (hread : a.isMachine = true ∨ cpu s.reads = true) :
    (machine a).step s (next cpu entries s) = some { s with
      reads := s.reads + 1
      logged := s.logged + (entries s.reads).count true
      phase := .advance } := by
  change step a s (next cpu entries s) = _
  unfold step next read
  rw [hphase]
  dsimp only
  rw [if_neg (by rcases hread with h | h <;> simp [h])]

theorem step_head {a : RecordArgs} (hphase : s.phase = .head) (htime : s.time_ < a.totalTime)
    (hend : s.recordEnd = false) :
    (machine a).step s (next cpu entries s) = some { s with phase := .openQuery } := by
  change step a s (next cpu entries s) = _
  unfold step next run
  rw [hphase]
  dsimp only
  rw [if_pos (.inl htime), if_neg (by simp [hend])]

theorem step_head_done {a : RecordArgs} (hphase : s.phase = .head) (htime : a.totalTime ≤ s.time_)
    (htotal : 0 ≤ a.totalTime) : (machine a).step s (next cpu entries s) = some s.finish := by
  change step a s (next cpu entries s) = _
  unfold step next run
  rw [hphase]
  dsimp only
  rw [if_neg (by omega)]

/-- The calls that open a cycle. -/
theorem follows_begin {a : RecordArgs} (hphase : s.phase = .head) (htime : s.time_ < a.totalTime)
    (hend : s.recordEnd = false) : (machine a).Follows (next cpu entries) s
      { s with phase := .collect, openQueries := s.openQueries + 1 } :=
  .head (step_head hphase htime hend) (.head rfl (.head rfl .refl))

/-- The calls that close a cycle. -/
theorem follows_end {a : RecordArgs} (hphase : s.phase = .closeQuery) (hconnect : s.isConnect = true) :
    (machine a).Follows (next cpu entries) s
      { s.sendInfo with phase := .head, openQueries := s.openQueries - 1 } := by
  obtain ⟨phase, time_, recordEnd, isConnect, openQueries, collections, logged, reads, batches⟩ := s
  cases hphase
  cases hconnect
  exact .head rfl (.head rfl .refl)

/-- A round of the inner loop in which the processor time can be read, or is not needed. -/
theorem follows_round {a : RecordArgs} (hphase : s.phase = .collect)
    (hread : a.isMachine = true ∨ cpu s.reads = true) (hrecord : a.recordTime ≠ 0) :
    (machine a).Follows (next cpu entries) s { s with
      time_ := addInt s.time_ a.interval
      collections := s.collections + 1
      reads := s.reads + 1
      logged := s.logged + (entries s.reads).count true
      phase := if (addInt s.time_ a.interval).tmod a.recordTime ≠ 0 then .collect
        else .closeQuery } := by
  obtain ⟨phase, time_, recordEnd, isConnect, openQueries, collections, logged, reads, batches⟩ := s
  cases hphase
  have hwait : (machine a).Follows (next cpu entries)
      ⟨.collect, time_, recordEnd, isConnect, openQueries, collections, logged, reads, batches⟩
      ⟨.read, time_, recordEnd, isConnect, openQueries, collections + 1, logged, reads, batches⟩ :=
    .head rfl (.head rfl (.head rfl .refl))
  have htest : (machine a).Follows (next cpu entries)
      ⟨.read, time_, recordEnd, isConnect, openQueries, collections + 1, logged, reads, batches⟩
      ⟨.test, addInt time_ a.interval, recordEnd, isConnect, openQueries, collections + 1,
        logged + (entries reads).count true, reads + 1, batches⟩ :=
    .head (step_read rfl hread) (.head rfl .refl)
  exact hwait.trans (htest.trans (.head (step_test rfl hrecord) .refl))

variable (totalTime entries) in
theorem Timed.round (h : Timed s .collect t c r b) (hread : isMachine = true ∨ cpu r = true)
    (hrange : t + interval < 2 ^ 31) (hrecord : 0 < recordTime) :
    ∃ s', (machine ⟨isMachine, totalTime, recordTime, interval⟩).Follows (next cpu entries) s s' ∧
      Timed s' (if recordTime ∣ t + interval then .closeQuery else .collect) (t + interval) (c + 1)
        (r + 1) b := by
  rw [← h.reads] at hread
  refine ⟨_, follows_round h.phase hread (by dsimp only; omega), ?_⟩
  have htime : addInt s.time_ interval = ((t + interval : Nat) : Int) := by
    rw [h.time, addInt_natCast hrange]
  dsimp only
  rw [htime, ← Int.ofNat_tmod]
  refine ⟨?_, rfl, h.recordEnd, h.isConnect, congrArg (· + 1) h.collections,
    congrArg (· + 1) h.reads, h.batches⟩
  simp only [Nat.dvd_iff_mod_eq_zero, ne_eq, Int.natCast_eq_zero, ite_not]

/-- The rounds of a cycle, from the `j`-th on. -/
theorem Timed.rounds (h : Timed s .collect (i * interval.lcm recordTime + j * interval) j r b)
    (hj : j + (d + 1) = cycleLength interval recordTime)
    (hread : ∀ m < d + 1, isMachine = true ∨ cpu (r + m) = true)
    (hrange : (i + 1) * interval.lcm recordTime < 2 ^ 31) (hrecord : 0 < recordTime)
    (hinterval : 0 < interval) :
    ∃ s', (machine ⟨isMachine, totalTime, recordTime, interval⟩).Follows (next cpu entries) s s' ∧
      Timed s' .closeQuery ((i + 1) * interval.lcm recordTime) (cycleLength interval recordTime)
        (r + (d + 1)) b := by
  have htime (j : Nat) : i * interval.lcm recordTime + j * interval + interval =
      i * interval.lcm recordTime + (j + 1) * interval := by
    rw [Nat.succ_mul, Nat.add_assoc]
  have hcycle : i * interval.lcm recordTime + cycleLength interval recordTime * interval =
      (i + 1) * interval.lcm recordTime := by
    rw [cycleLength_mul, Nat.succ_mul]
  induction d generalizing s j r with
  | zero =>
    have hlast : i * interval.lcm recordTime + j * interval + interval =
        (i + 1) * interval.lcm recordTime := by
      rw [htime, hj, hcycle]
    obtain ⟨s', hfollows, hs'⟩ := h.round totalTime entries (hread 0 Nat.zero_lt_one) (by rwa [hlast]) hrecord
    refine ⟨s', hfollows, ?_⟩
    have hdvd : recordTime ∣ i * interval.lcm recordTime + j * interval + interval := by
      rw [htime, hj, dvd_time_iff hinterval]
    rw [if_pos hdvd, hlast, hj] at hs'
    exact hs'
  | succ d ih =>
    have hless : (j + 1) * interval ≤ cycleLength interval recordTime * interval :=
      Nat.mul_le_mul_right interval (by omega)
    obtain ⟨s', hfollows, hs'⟩ := h.round totalTime entries (hread 0 (by omega))
      (by rw [htime]; omega) hrecord
    have hdvd : ¬recordTime ∣ i * interval.lcm recordTime + j * interval + interval := by
      rw [htime, dvd_time_iff hinterval]
      exact Nat.not_dvd_of_pos_of_lt (by omega) (by omega)
    rw [if_neg hdvd, htime] at hs'
    obtain ⟨s'', hfollows', hs''⟩ := ih hs' (by omega) fun m hm => by
      rw [Nat.add_assoc, Nat.add_comm 1]
      exact hread (m + 1) (by omega)
    refine ⟨s'', hfollows.trans hfollows', ?_⟩
    rwa [Nat.add_assoc, Nat.add_comm 1] at hs''

variable (entries) in
/-- A cycle that is not disturbed. -/
theorem Timed.cycle (h : Timed s .head (i * interval.lcm recordTime) 0 r b)
    (hi : i * interval.lcm recordTime < totalTime)
    (hread : ∀ m < cycleLength interval recordTime, isMachine = true ∨ cpu (r + m) = true)
    (hrange : (i + 1) * interval.lcm recordTime < 2 ^ 31) (hrecord : 0 < recordTime)
    (hinterval : 0 < interval) :
    ∃ s', (machine ⟨isMachine, totalTime, recordTime, interval⟩).Follows (next cpu entries) s s' ∧
      Timed s' .head ((i + 1) * interval.lcm recordTime) 0 (r + cycleLength interval recordTime)
        (b ++ [(cycleLength interval recordTime, (((i + 1) * interval.lcm recordTime : Nat) : Int))])
    := by
  have hpos : 0 < cycleLength interval recordTime := by
    have hmul := @cycleLength_mul recordTime interval
    have hlcm := Nat.lcm_pos hinterval hrecord
    rw [← hmul] at hlcm
    exact Nat.pos_of_mul_pos_right hlcm
  obtain ⟨d, hd⟩ : ∃ d, cycleLength interval recordTime = d + 1 :=
    Nat.exists_eq_add_one.mpr hpos
  have hcollect : Timed { s with phase := .collect, openQueries := s.openQueries + 1 } .collect
      (i * interval.lcm recordTime + 0 * interval) 0 r b := by
    rw [Nat.zero_mul, Nat.add_zero]
    exact ⟨rfl, h.time, h.recordEnd, h.isConnect, h.collections, h.reads, h.batches⟩
  have htime : s.time_ < totalTime := by
    rw [h.time]
    exact Int.ofNat_lt.mpr hi
  obtain ⟨s', hrounds, hs'⟩ := hcollect.rounds (by rw [Nat.zero_add, hd]) (by rwa [← hd]) hrange
    hrecord hinterval
  refine ⟨_, (follows_begin h.phase htime h.recordEnd).trans (hrounds.trans
    (follows_end hs'.phase hs'.isConnect)), rfl, hs'.time, hs'.recordEnd, hs'.isConnect, rfl, ?_, ?_⟩
  · rw [hd]
    exact hs'.reads
  · simp only [sendInfo, List.map_append, hs'.batches, List.map_singleton, hs'.collections, hs'.time]

/-- The cycles from the `i`-th on, and the end of the loop. -/
theorem Timed.cycles (h : Timed s .head (i * interval.lcm recordTime) 0
      (i * cycleLength interval recordTime) b)
    (hi : i + d = RecordCall.cycles totalTime interval recordTime)
    (hread : ∀ m < RecordCall.cycles totalTime interval recordTime *
      cycleLength interval recordTime, isMachine = true ∨ cpu m = true)
    (hrange : totalTime + interval.lcm recordTime < 2 ^ 31) (htotal : 0 < totalTime)
    (hrecord : 0 < recordTime) (hinterval : 0 < interval) :
    ∃ s', (machine ⟨isMachine, totalTime, recordTime, interval⟩).Follows (next cpu entries) s s' ∧
      s'.phase = .returned true ∧
      s'.batches.map (fun b => (b.collections, b.time)) = b ++ (List.range' i d).map fun (i : Nat) =>
        (cycleLength interval recordTime, (((i + 1) * interval.lcm recordTime : Nat) : Int)) := by
  have hlt := fun i => lt_cycles_iff (i := i) (Nat.lcm_pos hinterval hrecord) htotal
  induction d generalizing s i b with
  | zero =>
    have hdone : ¬i * interval.lcm recordTime < totalTime := by
      rw [← hlt]
      omega
    have hstep : (machine ⟨isMachine, totalTime, recordTime, interval⟩).step s (next cpu entries s) =
        some s.finish :=
      step_head_done h.phase (by rw [h.time]; exact Int.ofNat_le.mpr (Nat.le_of_not_lt hdone))
        (Int.natCast_nonneg totalTime)
    exact ⟨s.finish, .head hstep .refl, rfl, h.batches.trans (List.append_nil b).symm⟩
  | succ d ih =>
    have hi' : i * interval.lcm recordTime < totalTime := (hlt i).mp (by omega)
    have hread' : ∀ m < cycleLength interval recordTime,
        isMachine = true ∨ cpu (i * cycleLength interval recordTime + m) = true := fun m hm => by
      have hnext : (i + 1) * cycleLength interval recordTime ≤
          RecordCall.cycles totalTime interval recordTime * cycleLength interval recordTime :=
        Nat.mul_le_mul_right _ (by omega)
      rw [Nat.succ_mul] at hnext
      exact hread _ (by omega)
    obtain ⟨s', hcycle, hs'⟩ := h.cycle entries hi' hread' (by rw [Nat.succ_mul]; omega) hrecord
      hinterval
    rw [← Nat.succ_mul] at hs'
    obtain ⟨s'', hcycles, hreturned, hbatches⟩ := ih hs' (by omega)
    refine ⟨s'', hcycle.trans hcycles, hreturned, ?_⟩
    rw [hbatches, List.range'_succ, List.map_cons, List.append_assoc, List.singleton_append]

theorem accounted_of_reads (hread : ∀ m < cycles totalTime interval recordTime *
      cycleLength interval recordTime, isMachine = true ∨ cpu m = true)
    (hrange : totalTime + interval.lcm recordTime < 2 ^ 31) (htotal : 0 < totalTime)
    (hrecord : 0 < recordTime) (hinterval : 0 < interval) :
    Accounted isMachine totalTime recordTime interval cpu entries := by
  let a : RecordArgs := ⟨isMachine, totalTime, recordTime, interval⟩
  have hstart : Timed { phase := .head } .head (0 * interval.lcm recordTime) 0
      (0 * cycleLength interval recordTime) [] :=
    ⟨rfl, by simp, rfl, rfl, rfl, by simp, rfl⟩
  obtain ⟨s, hfollows, hreturned, hbatches⟩ :=
    hstart.cycles (Nat.zero_add _) hread hrange htotal hrecord hinterval
  have hdelay : (machine a).Follows (next cpu entries) {} s := .head rfl hfollows
  obtain ⟨es, hrun, hmeets⟩ := EventMachine.follows_iff_run.mp hdelay
  refine ⟨es, s, hrun, hmeets, hreturned, ?_⟩
  rw [hbatches, List.nil_append, List.range_eq_range']

/-- What every undisturbed call of the processes' recorder keeps: its time is that of the rounds in
which the processor time could be read, and there is a round for each collection. -/
structure Counted (interval : Nat) (cpu : Nat → Bool) (s : RecordCall) : Prop where
  time : ∃ n : Nat, s.time_ = Int.bmod (interval * n : Nat) (2 ^ 32) ∧
    (List.range s.reads).countP cpu = n + if s.phase = .advance then 1 else 0
  reads : s.reads + (if s.phase = .wait ∨ s.phase = .read then 1 else 0) =
    (s.batches.map (·.collections)).sum + s.collections
  idle : s.phase = .delay ∨ s.phase = .head ∨ (∃ result, s.phase = .returned result) →
    s.collections = 0 ∧ s.time_ = (s.batches.map (·.time)).getLast?.getD 0

theorem counted_start : Counted interval cpu {} :=
  ⟨⟨0, by simp [Int.bmod], rfl⟩, rfl, fun _ => ⟨rfl, rfl⟩⟩

theorem Counted.run {a : RecordArgs} {s' : RecordCall} (h : Counted interval cpu s)
    (ha : a.interval = interval) (hstep : s.run a = some s') : Counted interval cpu s' := by
  obtain ⟨phase, time_, recordEnd, isConnect, openQueries, collections, logged, reads, batches⟩ := s
  obtain ⟨⟨n, htime, hcount⟩, hreads, hidle⟩ := h
  unfold RecordCall.run at hstep
  cases phase <;> dsimp only at *
  case delay =>
    cases hstep
    exact ⟨⟨n, htime, hcount⟩, hreads, fun _ => hidle (.inl rfl)⟩
  case head =>
    obtain ⟨hcollections, hlast⟩ := hidle (.inr (.inl rfl))
    split at hstep
    · split at hstep <;> cases hstep
      · exact ⟨⟨n, htime, hcount⟩, hreads, fun _ => ⟨hcollections, hlast⟩⟩
      · exact ⟨⟨n, htime, hcount⟩, hreads, by simp⟩
    · cases hstep
      exact ⟨⟨n, htime, hcount⟩, hreads, fun _ => ⟨hcollections, hlast⟩⟩
  case advance =>
    cases hstep
    refine ⟨⟨n + 1, ?_, hcount⟩, hreads, by simp⟩
    dsimp only
    rw [htime, ha, addInt, Int.bmod_add_bmod, Nat.mul_succ, Nat.cast_add]
  case test =>
    split at hstep <;> cases hstep
    split
    · exact ⟨⟨n, htime, hcount⟩, hreads, by simp⟩
    · exact ⟨⟨n, htime, hcount⟩, hreads, by simp⟩
  case send =>
    have hsum : reads =
        ((batches ++ [RecordBatch.mk collections logged time_]).map (·.collections)).sum := by
      rw [List.map_append, List.sum_append]
      simpa using hreads
    have hlast : time_ =
        ((batches ++ [RecordBatch.mk collections logged time_]).map (·.time)).getLast?.getD 0 := by
      rw [List.map_append]
      simp
    cases hstep
    split
    · exact ⟨⟨n, htime, hcount⟩, hsum, fun _ => ⟨rfl, hlast⟩⟩
    · exact ⟨⟨n, htime, hcount⟩, hsum, fun _ => ⟨rfl, hlast⟩⟩
  all_goals cases hstep

theorem Counted.call {s' : RecordCall} (h : Counted interval cpu s)
    (hstep : s.call true = some s') : Counted interval cpu s' := by
  obtain ⟨phase, time_, recordEnd, isConnect, openQueries, collections, logged, reads, batches⟩ := s
  obtain ⟨⟨n, htime, hcount⟩, hreads, -⟩ := h
  cases phase
  case openQuery | initCounterInfo | collect | wait | closeQuery =>
    cases hstep
    exact ⟨⟨n, htime, hcount⟩, hreads, by simp⟩
  case collectEx =>
    cases hstep
    exact ⟨⟨n, htime, hcount⟩, congrArg (· + 1) hreads, by simp⟩
  all_goals cases hstep

/-- The time of a round whose processor time cannot be read is not counted. -/
theorem Counted.read {a : RecordArgs} {s' : RecordCall} {values : List Bool}
    (h : Counted interval cpu s) (ha : a.isMachine = false)
    (hstep : s.read a (cpu s.reads) values = some s') : Counted interval cpu s' := by
  obtain ⟨phase, time_, recordEnd, isConnect, openQueries, collections, logged, reads, batches⟩ := s
  obtain ⟨⟨n, htime, hcount⟩, hreads, -⟩ := h
  unfold RecordCall.read at hstep
  cases phase <;> dsimp only at *
  case read =>
    have hnext : (List.range (reads + 1)).countP cpu = n + if cpu reads then 1 else 0 := by
      rw [List.range_succ, List.countP_append, List.countP_singleton, hcount]
      rfl
    rw [ha] at hstep
    cases hcpu : cpu reads with
    | false =>
      rw [hcpu] at hstep hnext
      cases hstep
      exact ⟨⟨n, htime, hnext⟩, hreads, by simp⟩
    | true =>
      rw [hcpu] at hstep hnext
      cases hstep
      exact ⟨⟨n, htime, hnext⟩, hreads, by simp⟩
  all_goals cases hstep

theorem Counted.step {s' : RecordCall} (h : Counted interval cpu s)
    (hstep : (machine ⟨false, totalTime, recordTime, interval⟩).step s (next cpu entries s) = some s') :
    Counted interval cpu s' := by
  change RecordCall.step _ _ _ = _ at hstep
  unfold RecordCall.step next at hstep
  cases hphase : s.phase <;> rw [hphase] at hstep
  case delay | head | advance | test | send => exact h.run rfl hstep
  case openQuery | initCounterInfo | collect | collectEx | wait | closeQuery => exact h.call hstep
  case read => exact h.read rfl hstep
  case returned => cases hstep

/-- When the time is that of all rounds, the processor time could be read in each of them. -/
theorem Counted.cpu_of_time (h : Counted interval cpu s) (hphase : s.phase ≠ .advance)
    (hinterval : 0 < interval) (hrange : interval * s.reads < 2 ^ 31)
    (htime : s.time_ = ((interval * s.reads : Nat) : Int)) : ∀ m < s.reads, cpu m = true := by
  obtain ⟨n, hn, hcount⟩ := h.time
  rw [if_neg hphase, Nat.add_zero] at hcount
  have hle : n ≤ s.reads := by
    have hlength := List.countP_le_length (p := cpu) (l := List.range s.reads)
    rwa [hcount, List.length_range] at hlength
  have hless : interval * n ≤ interval * s.reads := Nat.mul_le_mul_left interval hle
  have hrounds : n = s.reads := by
    -- so far below the range of the type, the time is the product itself
    rw [Int.bmod_eq_of_le_mul_two (by omega) (by omega), htime] at hn
    exact (Nat.eq_of_mul_eq_mul_left hinterval (Int.ofNat.inj hn)).symm
  have hall : (List.range s.reads).countP cpu = (List.range s.reads).length := by
    rw [hcount, List.length_range, hrounds]
  exact fun m hm => List.countP_eq_length.mp hall m (List.mem_range.mpr hm)

theorem interval_mul_rounds :
    interval * (cycles totalTime interval recordTime * cycleLength interval recordTime) =
      cycles totalTime interval recordTime * interval.lcm recordTime := by
  rw [← cycleLength_mul, Nat.mul_left_comm, Nat.mul_comm interval]

theorem cycles_mul_lt (hpos : 0 < interval.lcm recordTime) : cycles totalTime interval recordTime *
    interval.lcm recordTime < totalTime + interval.lcm recordTime := by
  have := Nat.div_mul_le_self (totalTime + interval.lcm recordTime - 1) (interval.lcm recordTime)
  rw [cycles]
  omega

theorem reads_of_accounted (h : Accounted false totalTime recordTime interval cpu entries)
    (hrange : totalTime + interval.lcm recordTime < 2 ^ 31) (htotal : 0 < totalTime)
    (hrecord : 0 < recordTime) (hinterval : 0 < interval) :
    ∀ m < cycles totalTime interval recordTime * cycleLength interval recordTime, cpu m = true := by
  obtain ⟨es, s, hrun, hmeets, hreturned, hbatches⟩ := h
  have hcounted : Counted interval cpu s := (EventMachine.follows_iff_run.mpr
    ⟨es, hrun, hmeets⟩).invariant (fun hs hstep => hs.step hstep) counted_start
  obtain ⟨hcollections, hlast⟩ := hcounted.idle (.inr (.inr ⟨true, hreturned⟩))
  have hpos := Nat.lcm_pos hinterval hrecord
  have hcollected : s.batches.map (·.collections) =
      List.replicate (cycles totalTime interval recordTime) (cycleLength interval recordTime) := by
    have hfst := congrArg (List.map Prod.fst) hbatches
    simpa [List.map_map, Function.comp_def, List.map_const'] using hfst
  have hsum : s.reads =
      cycles totalTime interval recordTime * cycleLength interval recordTime := by
    have hreads := hcounted.reads
    rw [hreturned, hcollected, List.sum_replicate_nat, hcollections] at hreads
    simpa using hreads
  have hend : s.time_ = ((interval * s.reads : Nat) : Int) := by
    have hsnd := congrArg (List.map Prod.snd) hbatches
    simp only [List.map_map, Function.comp_def] at hsnd
    obtain ⟨m, hm⟩ : ∃ m, cycles totalTime interval recordTime = m + 1 :=
      Nat.exists_eq_add_one.mpr ((lt_cycles_iff hpos htotal).mpr (by simpa using htotal))
    rw [hsum, interval_mul_rounds, hlast, hsnd, hm, List.range_succ, List.map_append]
    simp
  have hsmall : interval * s.reads < 2 ^ 31 := by
    rw [hsum, interval_mul_rounds]
    exact Nat.lt_trans (cycles_mul_lt hpos) hrange
  rw [← hsum]
  exact hcounted.cpu_of_time (by simp [hreturned]) hinterval hsmall hend

end

/-- Time and collections are accounted exactly unless the recorder is that of the processes and the
processor time cannot be read in one of the rounds that there should be. -/
theorem accounted_iff (isMachine : Bool) (totalTime recordTime interval : Nat) (htotal : 1 ≤ totalTime)
    (hrecord : 1 ≤ recordTime) (hinterval : 1 ≤ interval)
    (hrange : totalTime + interval.lcm recordTime < 2 ^ 31) (cpu : Nat → Bool)
    (entries : Nat → List Bool) :
    Accounted isMachine totalTime recordTime interval cpu entries ↔
      isMachine = true ∨ ∀ m < cycles totalTime interval recordTime * cycleLength interval recordTime,
        cpu m = true := by
  constructor
  · intro h
    cases isMachine with
    | true => exact .inl rfl
    | false => exact .inr (reads_of_accounted h hrange htotal hrecord hinterval)
  · intro h
    refine accounted_of_reads (fun m hm => ?_) hrange htotal hrecord hinterval
    exact h.imp id fun hread => hread m hm

/-- Two cycles of three collections each, in which no value of an entry can be read. -/
theorem accounted_iff_twoCycles : Accounted false 7 6 2 (fun _ => true) (fun _ => [false]) ∧
    (Accounted false 7 6 2 (fun _ => true) (fun _ => [false]) ↔
      false = true ∨ ∀ m < cycles 7 2 6 * cycleLength 2 6, true = true) := by
  have hiff := accounted_iff false 7 6 2 (by decide) (by decide) (by decide) (by decide)
    (fun _ => true) fun _ => [false]
  exact ⟨hiff.mpr (.inr fun _ _ => rfl), hiff⟩

/-- After the first collection the processor time cannot be read, and the cycle is over at once. -/
theorem not_accounted_firstRead : ¬Accounted false 10 10 1 (fun m => m != 0) fun _ => [] := by
  intro h
  exact absurd (reads_of_accounted h (by decide) (by decide) (by decide) (by decide) 0 (by decide))
    (by decide)

end RecordCall

end PSM
