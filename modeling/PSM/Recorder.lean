import PSM.Lib.EventMachine

/-! The recorders of the client (`Query::StartRecord`, `Query::StopRecord`, `Query::Record`).

A recorder is a detached thread in `Record`. One flag for each kind of recorder guards the start,
asks for the stop and reports the end, and a recorder reads it once in a cycle
(`atMostOne_iff`). All recorders wait on one auto-reset event, which the collections of every
query signal (`attributed_of_meets`). -/

namespace PSM

/-- Where a recorder is in `Record`. -/
inductive RecordPos where
  | delay
  | head
  | openQuery
  | collect
  | wait
  | read
  | closeQuery
  | send
  | returned
  deriving DecidableEq

/-- A call of `Record`. Its open query is collected again and again from `PdhCollectQueryDataEx` to
`PdhCloseQuery`. Since the last call of the former it has been `collected` or not; `signals` and
`passes` count its collections and the recorder's returns from `WaitForSingleObject`. -/
structure Recorder where
  isMachine : Bool
  totalTime : Int
  recordTime : Int
  interval : Int
  pos : RecordPos := .delay
  time_ : Int := 0
  collecting : Bool := false
  collected : Bool := false
  signals : Nat := 0
  passes : Nat := 0

/-- What the recorders share. The event is signalled by the collection of a recorder's query; which
one it was is not seen by the program. -/
structure RecordState where
  isMachineRecordEnd : Bool := true
  isProcessRecordEnd : Bool := true
  event_ : Option Nat := none
  isConnect : Bool := false
  recorders : List Recorder := []

inductive RecordEvent where
  | startRecord (isMachine : Bool) (totalTime recordTime interval : Int)
  | stopRecord (isMachine : Bool)
  | setConnect (isConnect : Bool)
  /-- The query of a recorder is collected. -/
  | signal (n : Nat)
  /-- A recorder takes its next step, in which the calls of the system succeed or not. -/
  | record (n : Nat) (ok : Bool)

namespace RecordState

def recordEnd (s : RecordState) (isMachine : Bool) : Bool :=
  if isMachine then s.isMachineRecordEnd else s.isProcessRecordEnd

def setRecordEnd (s : RecordState) (isMachine b : Bool) : RecordState :=
  if isMachine then { s with isMachineRecordEnd := b } else { s with isProcessRecordEnd := b }

def startRecord (s : RecordState) (isMachine : Bool) (totalTime recordTime interval : Int) :
    Bool × RecordState :=
  if s.recordEnd isMachine then
    (true, { s.setRecordEnd isMachine false with
      recorders := s.recorders ++ [{ isMachine, totalTime, recordTime, interval }] })
  else (false, s)

def stopRecord (s : RecordState) (isMachine : Bool) : Bool × RecordState :=
  if s.recordEnd isMachine then (false, s) else (true, s.setRecordEnd isMachine true)

/-- `SetEvent`. A signal on a signalled event is lost. -/
def setEvent (s : RecordState) (n : Nat) : RecordState :=
  { s with event_ := s.event_.or (some n) }

def put (s : RecordState) (n : Nat) (r : Recorder) : RecordState :=
  { s with recorders := s.recorders.set n r }

/-- The end of `Record` after its loop. -/
def leave (s : RecordState) (n : Nat) (r : Recorder) : RecordState :=
  (s.put n { r with pos := .returned }).setRecordEnd r.isMachine true

/-- The next step of recorder `n`, which is at `r`. A call that fails ends it with the flag as it
is, except that a failure to read the processor time skips the rest of the round. -/
def record (s : RecordState) (n : Nat) (r : Recorder) (ok : Bool) : Option RecordState :=
  match r.pos with
  | .delay => some (s.put n { r with pos := .head })
  | .head =>
    if r.totalTime > r.time_ ∨ r.totalTime < 0 then
      if s.recordEnd r.isMachine then some (s.leave n r)
      else some (s.put n { r with pos := .openQuery })
    else some (s.leave n r)
  | .openQuery => some (s.put n { r with pos := if ok then .collect else .returned })
  | .collect =>
    if ok then some (s.put n { r with pos := .wait, collecting := true, collected := false })
    else some (s.put n { r with pos := .returned })
  | .wait =>
    match s.event_ with
    | some _ => some { s.put n { r with pos := .read, passes := r.passes + 1 } with event_ := none }
    | none => none
  | .read =>
    let time_ := if ok ∨ r.isMachine then r.time_ + r.interval else r.time_
    if r.recordTime = 0 then none
    else
      let pos := if time_ % r.recordTime ≠ 0 then .collect else .closeQuery
      some (s.put n { r with time_, pos })
  | .closeQuery =>
    if ok then some (s.put n { r with pos := .send, collecting := false })
    else some (s.put n { r with pos := .returned })
  | .send =>
    if s.isConnect then some (s.put n { r with pos := .head }) else some (s.leave n r)
  | .returned => none

def step (s : RecordState) : RecordEvent → Option RecordState
  | .startRecord isMachine totalTime recordTime interval =>
    some (s.startRecord isMachine totalTime recordTime interval).2
  | .stopRecord isMachine => some (s.stopRecord isMachine).2
  | .setConnect isConnect => some { s with isConnect }
  | .signal n => do
    let r ← s.recorders[n]?
    if r.collecting then
      some ((s.put n { r with collected := true, signals := r.signals + 1 }).setEvent n)
    else none
  | .record n ok => do
    let r ← s.recorders[n]?
    s.record n r ok

def machine : EventMachine RecordState RecordEvent := ⟨step⟩

/-- The threads in `Record` for the given kind. -/
def executing (s : RecordState) (isMachine : Bool) : Nat :=
  s.recorders.countP fun r => r.isMachine = isMachine ∧ r.pos ≠ .returned

def AtMostOne (s : RecordState) : Prop := ∀ isMachine, s.executing isMachine ≤ 1

/-- No recorder is started while a stopped one of its kind has not yet left `Record`. -/
def StartsAlone (s : RecordState) : RecordEvent → Prop
  | .startRecord isMachine _ _ _ =>
    s.recordEnd isMachine = true → ∀ r ∈ s.recorders, r.isMachine = isMachine → r.pos = .returned
  | _ => True

/-! ## One step -/

section
variable {s s' : RecordState} {n m : Nat} {r : Recorder} {e : RecordEvent} {isMachine b ok : Bool}

@[simp] theorem setRecordEnd_recorders :
    (s.setRecordEnd isMachine b).recorders = s.recorders := by
  unfold setRecordEnd
  split <;> rfl

@[simp] theorem setRecordEnd_event : (s.setRecordEnd isMachine b).event_ = s.event_ := by
  unfold setRecordEnd
  split <;> rfl

/-- What a recorder does in one step: it passes the wait and resets the event, or it goes on
without it. Its collections are counted elsewhere, and it comes to the wait by
`PdhCollectQueryDataEx`, after which there has been none. -/
structure Advances (s : RecordState) (n : Nat) (r : Recorder) (ok : Bool) (r' : Recorder)
    (s' : RecordState) : Prop where
  recorders : s'.recorders = s.recorders.set n r'
  executing : r.pos ≠ .returned
  isMachine : r'.isMachine = r.isMachine
  signals : r'.signals = r.signals
  waits : r'.pos = .wait ↔ r.pos = .collect ∧ ok = true
  collected : r'.pos = .wait → r'.collected = false
  wait : r.pos = .wait → s.event_ ≠ none ∧ s'.event_ = none ∧ r'.passes = r.passes + 1
  other : r.pos ≠ .wait → s'.event_ = s.event_ ∧ r'.passes = r.passes

theorem next_ne_wait (p : Prop) [Decidable p] :
    (if p then RecordPos.collect else .closeQuery) ≠ .wait := by split <;> decide

theorem record_advances (h : s.record n r ok = some s') : ∃ r', Advances s n r ok r' s' := by
  have put {r' : Recorder} (hpos : r.pos ≠ .returned ∧ r.pos ≠ .wait)
      (hr' : r'.isMachine = r.isMachine ∧ r'.signals = r.signals ∧ r'.passes = r.passes)
      (hwaits : r'.pos = .wait ↔ r.pos = .collect ∧ ok = true)
      (hcollected : r'.pos = .wait → r'.collected = false) :
      Advances s n r ok r' (s.put n r') :=
    ⟨rfl, hpos.1, hr'.1, hr'.2.1, hwaits, hcollected, fun hwait => absurd hwait hpos.2,
      fun _ => ⟨rfl, hr'.2.2⟩⟩
  have leave (hpos : r.pos ≠ .returned ∧ r.pos ≠ .wait ∧ r.pos ≠ .collect) :
      Advances s n r ok { r with pos := .returned } (s.leave n r) :=
    ⟨by simp [leave, RecordState.put], hpos.1, rfl, rfl, by simp [hpos.2.2], nofun,
      fun hwait => absurd hwait hpos.2.1, fun _ => ⟨by simp [leave, RecordState.put], rfl⟩⟩
  unfold record at h
  split at h
  case h_1 hpos =>
    cases h
    exact ⟨_, put (by simp [hpos]) ⟨rfl, rfl, rfl⟩ (by simp [hpos]) nofun⟩
  case h_2 hpos =>
    split at h
    · split at h <;> cases h
      · exact ⟨_, leave (by simp [hpos])⟩
      · exact ⟨_, put (by simp [hpos]) ⟨rfl, rfl, rfl⟩ (by simp [hpos]) nofun⟩
    · cases h
      exact ⟨_, leave (by simp [hpos])⟩
  case h_3 hpos =>
    cases h
    exact ⟨_, put (by simp [hpos]) ⟨rfl, rfl, rfl⟩ (by cases ok <;> simp [hpos])
      (by cases ok <;> exact nofun)⟩
  case h_4 hpos =>
    split at h <;> cases h
    · rename_i hok
      exact ⟨_, put (by simp [hpos]) ⟨rfl, rfl, rfl⟩ (by simp [hpos, hok]) fun _ => rfl⟩
    · rename_i hok
      exact ⟨_, put (by simp [hpos]) ⟨rfl, rfl, rfl⟩ (by simp [hok]) nofun⟩
  case h_5 hpos =>
    split at h
    · rename_i hevent
      cases h
      exact ⟨{ r with pos := .read, passes := r.passes + 1 }, rfl, by simp [hpos], rfl, rfl,
        by simp [hpos], nofun, fun _ => ⟨by simp [hevent], rfl, rfl⟩,
        fun hne => absurd hpos hne⟩
    · cases h
  case h_6 hpos =>
    dsimp only at h
    split at h <;> cases h
    exact ⟨_, put (by simp [hpos]) ⟨rfl, rfl, rfl⟩
      (iff_of_false (next_ne_wait _) (by simp [hpos])) fun hwait => absurd hwait (next_ne_wait _)⟩
  case h_7 hpos =>
    split at h <;> cases h
    · exact ⟨_, put (by simp [hpos]) ⟨rfl, rfl, rfl⟩ (by simp [hpos]) nofun⟩
    · exact ⟨_, put (by simp [hpos]) ⟨rfl, rfl, rfl⟩ (by simp [hpos]) nofun⟩
  case h_8 hpos =>
    split at h <;> cases h
    · exact ⟨_, put (by simp [hpos]) ⟨rfl, rfl, rfl⟩ (by simp [hpos]) nofun⟩
    · exact ⟨_, leave (by simp [hpos])⟩
  case h_9 => cases h

/-! ## One recorder of a kind -/

/-- A recorder that goes on, or returns, leaves the number of executing ones or lowers it. -/
theorem executing_set {r' : Recorder} (hn : s.recorders[n]? = some r)
    (hs' : s'.recorders = s.recorders.set n r') (hkind : r'.isMachine = r.isMachine)
    (hpos : r.pos = .returned → r'.pos = .returned) :
    s'.executing isMachine ≤ s.executing isMachine := by
  obtain ⟨hlt, rfl⟩ := List.getElem?_eq_some_iff.mp hn
  let p : Recorder → Bool := fun r => r.isMachine = isMachine ∧ r.pos ≠ .returned
  have hp : p r' = true → p s.recorders[n] = true := by
    simp only [p, decide_eq_true_eq]
    exact fun h => ⟨hkind ▸ h.1, fun hret => h.2 (hpos hret)⟩
  have hle : (if p s.recorders[n] then 1 else 0) ≤ s.recorders.countP p :=
    List.boole_getElem_le_countP hlt
  change s'.recorders.countP p ≤ s.recorders.countP p
  rw [hs', List.countP_set hlt]
  cases hr' : p r' with
  | true =>
    rw [if_pos (hp hr')] at hle ⊢
    exact Nat.le_of_eq (Nat.sub_add_cancel hle)
  | false => exact Nat.sub_le _ _

theorem executing_startRecord {kind : Bool} {totalTime recordTime interval : Int} :
    (s.startRecord isMachine totalTime recordTime interval).2.executing kind =
      s.executing kind + if s.recordEnd isMachine ∧ isMachine = kind then 1 else 0 := by
  unfold startRecord
  by_cases hend : s.recordEnd isMachine = true
  · simp [executing, hend, List.countP_append]
  · simp [hend]

theorem executing_eq_zero_iff : s.executing isMachine = 0 ↔
    ∀ r ∈ s.recorders, r.isMachine = isMachine → r.pos = .returned := by
  simp [executing, List.countP_eq_zero]

/-- From at most one of each kind, only a start can lead to more. -/
theorem atMostOne_step_iff (hs : s.AtMostOne) (h : machine.step s e = some s') :
    s'.AtMostOne ↔ s.StartsAlone e := by
  cases e with
  | startRecord isMachine totalTime recordTime interval =>
    cases h
    simp only [AtMostOne, executing_startRecord, StartsAlone, ← executing_eq_zero_iff]
    constructor
    · intro hmost hend
      have := hmost isMachine
      simp only [hend, and_self, if_true] at this
      omega
    · intro halone kind
      split
      · rename_i hkind
        have hzero : s.executing kind = 0 := hkind.2 ▸ halone hkind.1
        omega
      · exact hs kind
  | stopRecord isMachine =>
    cases h
    refine iff_of_true (fun kind => ?_) trivial
    have heq : (s.stopRecord isMachine).2.executing kind = s.executing kind := by
      unfold stopRecord
      split <;> simp [executing]
    rw [heq]
    exact hs kind
  | setConnect isConnect =>
    cases h
    exact iff_of_true hs trivial
  | signal n =>
    obtain ⟨r, hn, h⟩ := Option.bind_eq_some_iff.mp h
    obtain ⟨-, heq⟩ := Option.ite_none_right_eq_some.mp h
    cases heq
    refine iff_of_true (fun kind => ?_) trivial
    exact Nat.le_trans (executing_set hn rfl rfl id) (hs kind)
  | record n ok =>
    obtain ⟨r, hn, h⟩ := Option.bind_eq_some_iff.mp h
    obtain ⟨r', hr'⟩ := record_advances h
    refine iff_of_true (fun kind => ?_) trivial
    apply Nat.le_trans _ (hs kind)
    exact executing_set hn hr'.recorders hr'.isMachine fun hret => absurd hret hr'.executing

/-- At most one recorder of each kind is in `Record` in every state of a run, exactly when every
start that is accepted in it finds no recorder of its kind there. -/
theorem atMostOne_iff {es : List RecordEvent} (hrun : machine.run {} es = some s) :
    machine.Always AtMostOne {} es ↔ machine.Meets StartsAlone {} es :=
  EventMachine.always_iff_meets (J := fun _ => True) (fun _ _ => trivial)
    (fun hstep _ hs => atMostOne_step_iff hs hstep) trivial (fun _ => Nat.zero_le _) hrun

theorem atMostOne_iff_both : ∃ s, machine.run {} [.startRecord true (-1) 10 1,
      .startRecord false (-1) 10 1] = some s ∧
    (machine.Always AtMostOne {} [.startRecord true (-1) 10 1, .startRecord false (-1) 10 1] ↔
      machine.Meets StartsAlone {} [.startRecord true (-1) 10 1,
        .startRecord false (-1) 10 1]) :=
  ⟨_, rfl, atMostOne_iff rfl⟩

/-- A recorder is stopped and one started before the first has looked at the flag. -/
theorem not_atMostOne_restarted : ∃ s, machine.run {} [.startRecord false (-1) 10 1,
      .record 0 true, .record 0 true, .stopRecord false, .startRecord false (-1) 10 1] = some s ∧
    ¬s.AtMostOne :=
  ⟨_, rfl, fun h => absurd (h false) (by decide)⟩

/-! ## Whose collection it was -/

/-- Every collection of a recorder's query has released one wait of this recorder, or its signal is
still pending. -/
def Attributed (s : RecordState) : Prop :=
  ∀ n r, s.recorders[n]? = some r → r.signals = r.passes + if s.event_ = some n then 1 else 0

/-- A recorder that passes its wait has had its own query collected since it last called
`PdhCollectQueryDataEx`. -/
def PassesOwn (s : RecordState) : RecordEvent → Prop
  | .record n _ => ∀ r ∈ s.recorders[n]?, r.pos = .wait → s.event_ ≠ none → r.collected = true
  | _ => True

/-- Whichever recorder takes the next step: if that is to pass a wait, its own query has been
collected, and every collection has released its own recorder, or is pending, after it as before. -/
structure AnyPassesOwn (s : RecordState) : Prop where
  attributed : s.Attributed
  next : ∀ n s', machine.step s (.record n true) = some s' →
    s.PassesOwn (.record n true) ∧ s'.Attributed

def At (s : RecordState) (n : Nat) (pos : RecordPos) : Prop := ∃ r ∈ s.recorders[n]?, r.pos = pos

/-- A query is collected only while no signal is pending and no other recorder waits, and no call of
`PdhCollectQueryDataEx` succeeds while a signal is pending. -/
def InTurn (s : RecordState) : RecordEvent → Prop
  | .signal n => s.event_ = none ∧ ∀ m < s.recorders.length, s.At m .wait → m = n
  | .record n ok => s.At n .collect → ok = true → s.event_ = none
  | _ => True

instance {pos : RecordPos} : Decidable (s.At n pos) :=
  match h : s.recorders[n]? with
  | none => .isFalse fun ⟨_, hr, _⟩ => nomatch h.symm.trans hr
  | some r => decidable_of_iff (r.pos = pos)
    ⟨fun hpos => ⟨r, h, hpos⟩, fun ⟨_, hr, hpos⟩ => by cases h.symm.trans hr; exact hpos⟩

instance : DecidablePred s.PassesOwn
  | .record n _ => inferInstanceAs (Decidable (∀ r ∈ s.recorders[n]?, _))
  | .startRecord .. => .isTrue trivial
  | .stopRecord _ => .isTrue trivial
  | .setConnect _ => .isTrue trivial
  | .signal _ => .isTrue trivial

instance : DecidablePred s.InTurn
  | .signal _ => inferInstanceAs (Decidable (_ ∧ _))
  | .record n _ => inferInstanceAs (Decidable (s.At n .collect → _))
  | .startRecord .. => .isTrue trivial
  | .stopRecord _ => .isTrue trivial
  | .setConnect _ => .isTrue trivial

/-- A pending signal can only be passed by the recorder that it is from, and that has had its query
collected. -/
structure Fresh (s : RecordState) : Prop where
  attributed : s.Attributed
  next : ∀ n r, s.recorders[n]? = some r → r.pos = .wait → s.event_ ≠ none →
    s.event_ = some n ∧ r.collected = true

/-- A pending signal is from a recorder. -/
def Pending (s : RecordState) : Prop := ∀ n, s.event_ = some n → n < s.recorders.length

theorem getElem?_set_of {r' : Recorder} (hn : s.recorders[n]? = some r) :
    (s.recorders.set n r')[m]? = if n = m then some r' else s.recorders[m]? := by
  rw [List.getElem?_set]
  simp [(List.getElem?_eq_some_iff.mp hn).1]

theorem Advances.getElem? {r' : Recorder} (hn : s.recorders[n]? = some r)
    (h : Advances s n r ok r' s') (m : Nat) :
    s'.recorders[m]? = if n = m then some r' else s.recorders[m]? := by
  rw [h.recorders, getElem?_set_of hn]

/-- A recorder's step keeps what has been attributed, unless it passes the wait with the signal of
another. -/
theorem Attributed.record_iff {r' : Recorder} (hs : s.Attributed) (hn : s.recorders[n]? = some r)
    (h : Advances s n r ok r' s') : s'.Attributed ↔ (r.pos = .wait → s.event_ = some n) := by
  have hset := h.getElem? hn
  have hold := hs n r hn
  by_cases hwait : r.pos = .wait
  · obtain ⟨-, hevent, hpasses⟩ := h.wait hwait
    constructor
    · intro hs' _
      have hnew := hs' n r' ((hset n).trans (if_pos rfl))
      by_contra hne
      rw [if_neg hne] at hold
      simp only [h.signals, hpasses, hevent, hold] at hnew
      simp at hnew
    · intro hown m q hm
      have hn' := hown hwait
      rw [hset] at hm
      rw [hevent]
      split at hm
      · cases hm
        rw [hn', if_pos rfl] at hold
        simp [h.signals, hpasses, hold]
      · rename_i hnm
        have hother := hs m q hm
        rw [hn'] at hother
        simpa [hnm] using hother
  · obtain ⟨hevent, hpasses⟩ := h.other hwait
    refine iff_of_true (fun m q hm => ?_) fun hpos => absurd hpos hwait
    rw [hset] at hm
    rw [hevent]
    split at hm
    · rename_i hnm
      cases hm
      rw [h.signals, hpasses, ← hnm]
      exact hold
    · exact hs m q hm

theorem anyPassesOwn_iff_fresh : s.AnyPassesOwn ↔ s.Fresh := by
  constructor
  · intro h
    refine ⟨h.attributed, fun n r hn hwait hevent => ?_⟩
    obtain ⟨k, hk⟩ := Option.ne_none_iff_exists'.mp hevent
    obtain ⟨s', hs'⟩ : ∃ s', s.record n r true = some s' := by simp [record, hwait, hk]
    obtain ⟨r', hr'⟩ := record_advances hs'
    obtain ⟨hown, hattributed⟩ := h.next n s' (by simp [machine, step, hn, hs'])
    exact ⟨(h.attributed.record_iff hn hr').mp hattributed hwait, hown r hn hwait hevent⟩
  · intro h
    refine ⟨h.attributed, fun n s' hstep => ?_⟩
    obtain ⟨r, hn, hrecord⟩ := Option.bind_eq_some_iff.mp hstep
    obtain ⟨r', hr'⟩ := record_advances hrecord
    refine ⟨fun q hq hwait hevent => (h.next n q hq hwait hevent).2,
      (h.attributed.record_iff hn hr').mpr fun hwait => ?_⟩
    exact (h.next n r hn hwait (hr'.wait hwait).1).1

/-! ### Steps -/

section
variable {totalTime recordTime interval : Int}

theorem startRecord_event :
    (s.startRecord isMachine totalTime recordTime interval).2.event_ = s.event_ := by
  unfold RecordState.startRecord
  split
  · exact setRecordEnd_event
  · rfl

/-- After a start there are the recorders of before, and one at most that has not waited yet. -/
theorem startRecord_cases
    (hn : (s.startRecord isMachine totalTime recordTime interval).2.recorders[n]? = some r) :
    s.recorders[n]? = some r ∨
      s.recorders.length ≤ n ∧ r.pos = .delay ∧ r.signals = 0 ∧ r.passes = 0 := by
  unfold RecordState.startRecord at hn
  split at hn
  · rcases Nat.lt_or_ge n s.recorders.length with hlt | hge
    · exact .inl ((List.getElem?_append_left hlt).symm.trans hn)
    · dsimp only at hn
      rw [List.getElem?_append_right hge, List.getElem?_singleton] at hn
      obtain ⟨-, heq⟩ := Option.ite_none_right_eq_some.mp hn
      cases heq
      exact .inr ⟨hge, rfl, rfl, rfl⟩
  · exact .inl hn

theorem Fresh.startRecord (hpending : s.Pending) (hs : s.Fresh) :
    (s.startRecord isMachine totalTime recordTime interval).2.Fresh := by
  refine ⟨fun n r hn => ?_, fun n r hn hwait hevent => ?_⟩
  · rw [startRecord_event]
    rcases startRecord_cases hn with hold | ⟨hge, -, hsignals, hpasses⟩
    · exact hs.attributed n r hold
    · have hevent : s.event_ ≠ some n := fun hevent =>
        absurd (hpending n hevent) (Nat.not_lt.mpr hge)
      rw [if_neg hevent, hsignals, hpasses]
  · rw [startRecord_event] at hevent ⊢
    rcases startRecord_cases hn with hold | ⟨-, hdelay, -⟩
    · exact hs.next n r hold hwait hevent
    · cases hdelay.symm.trans hwait

end

theorem Fresh.signal_iff (hs : s.Fresh) (hn : s.recorders[n]? = some r) :
    ((s.put n { r with collected := true, signals := r.signals + 1 }).setEvent n).Fresh ↔
      s.InTurn (.signal n) := by
  have hset (m : Nat) : (s.recorders.set n { r with
      collected := true, signals := r.signals + 1 })[m]? = if n = m then some { r with
        collected := true, signals := r.signals + 1 } else s.recorders[m]? := getElem?_set_of hn
  cases hevent : s.event_ with
  | some k =>
    refine iff_of_false (fun h => ?_) fun h => nomatch hevent.symm.trans h.1
    -- the signal is lost, and this collection has released nothing
    have hold := hs.attributed n r hn
    have hnew := h.attributed n _ ((hset n).trans (if_pos rfl))
    simp only [setEvent, put, hevent, Option.some_or] at hold hnew
    omega
  | none =>
    have hevent' : s.event_.or (some n) = some n := by rw [hevent]; rfl
    constructor
    · intro h
      refine ⟨hevent, fun m hm hat => ?_⟩
      obtain ⟨q, hq, hwait⟩ := hat
      by_contra hne
      have hq' := (hset m).trans ((if_neg (Ne.symm hne)).trans hq)
      have hown := (h.next m q hq' hwait (by simp [setEvent, put, hevent'])).1
      exact hne (Option.some_inj.mp (hevent'.symm.trans hown)).symm
    · intro h
      refine ⟨fun m q hm => ?_, fun m q hm hwait _ => ?_⟩
      · replace hm := (hset m).symm.trans hm
        change q.signals = q.passes + if s.event_.or (some n) = some m then 1 else 0
        rw [hevent']
        split at hm
        · rename_i hnm
          cases hm
          have hold := hs.attributed n r hn
          rw [hevent] at hold
          simpa [hnm] using hold
        · rename_i hnm
          have hold := hs.attributed m q hm
          rw [hevent] at hold
          simpa [hnm] using hold
      · replace hm := (hset m).symm.trans hm
        split at hm
        · rename_i hnm
          cases hm
          exact ⟨hnm ▸ hevent', rfl⟩
        · rename_i hnm
          have hlt := (List.getElem?_eq_some_iff.mp hm).1
          exact absurd (h.2 m hlt ⟨q, hm, hwait⟩).symm hnm

theorem Fresh.record_iff (hs : s.Fresh) (hn : s.recorders[n]? = some r)
    (h : s.record n r ok = some s') : s'.Fresh ↔ s.InTurn (.record n ok) := by
  obtain ⟨r', hr'⟩ := record_advances h
  have hset := hr'.getElem? hn
  have hattributed : s'.Attributed := (hs.attributed.record_iff hn hr').mpr fun hwait =>
    (hs.next n r hn hwait (hr'.wait hwait).1).1
  by_cases hwait : r.pos = .wait
  · obtain ⟨-, hevent, -⟩ := hr'.wait hwait
    refine iff_of_true ⟨hattributed, fun _ _ _ _ hne => absurd hevent hne⟩ ?_
    rintro ⟨q, hq, hpos⟩
    cases hn.symm.trans hq
    cases hwait.symm.trans hpos
  · obtain ⟨hevent, -⟩ := hr'.other hwait
    constructor
    · rintro h ⟨q, hq, hpos⟩ hok
      cases hn.symm.trans hq
      have hwaits := hr'.waits.mpr ⟨hpos, hok⟩
      by_contra hne
      have hcollected := (h.next n r' ((hset n).trans (if_pos rfl)) hwaits (hevent ▸ hne)).2
      cases (hr'.collected hwaits).symm.trans hcollected
    · intro hturn
      refine ⟨hattributed, fun m q hm hpos hne => ?_⟩
      rw [hevent] at hne ⊢
      rw [hset] at hm
      split at hm
      · cases hm
        obtain ⟨hcollect, hok⟩ := hr'.waits.mp hpos
        exact absurd (hturn ⟨r, hn, hcollect⟩ hok) hne
      · exact hs.next m q hm hpos hne

theorem fresh_step_iff (hpending : s.Pending) (hs : s.Fresh) (h : machine.step s e = some s') :
    s'.Fresh ↔ s.InTurn e := by
  cases e with
  | startRecord isMachine totalTime recordTime interval =>
    cases h
    exact iff_of_true (hs.startRecord hpending) trivial
  | stopRecord isMachine =>
    cases h
    refine iff_of_true ?_ trivial
    unfold stopRecord
    split
    · exact hs
    · exact ⟨by simpa [Attributed] using hs.attributed, by simpa using hs.next⟩
  | setConnect isConnect =>
    cases h
    exact iff_of_true ⟨hs.attributed, hs.next⟩ trivial
  | signal n =>
    obtain ⟨r, hn, h⟩ := Option.bind_eq_some_iff.mp h
    obtain ⟨-, heq⟩ := Option.ite_none_right_eq_some.mp h
    cases heq
    exact hs.signal_iff hn
  | record n ok =>
    obtain ⟨r, hn, h⟩ := Option.bind_eq_some_iff.mp h
    exact hs.record_iff hn h

theorem Pending.step (hs : s.Pending) (h : machine.step s e = some s') : s'.Pending := by
  cases e with
  | startRecord isMachine totalTime recordTime interval =>
    cases h
    unfold RecordState.startRecord
    split
    · intro n hevent
      dsimp only at hevent ⊢
      rw [setRecordEnd_event] at hevent
      rw [List.length_append]
      exact Nat.lt_add_right _ (hs n hevent)
    · exact hs
  | stopRecord isMachine =>
    cases h
    unfold stopRecord
    split
    · exact hs
    · simpa [Pending] using hs
  | setConnect isConnect =>
    cases h
    exact hs
  | signal n =>
    obtain ⟨r, hn, h⟩ := Option.bind_eq_some_iff.mp h
    obtain ⟨-, heq⟩ := Option.ite_none_right_eq_some.mp h
    cases heq
    have hlt := (List.getElem?_eq_some_iff.mp hn).1
    intro m hm
    change m < (s.recorders.set n _).length
    rw [List.length_set]
    have hor : s.event_.or (some n) = some m := hm
    cases hevent : s.event_ with
    | none =>
      rw [hevent] at hor
      exact Option.some_inj.mp hor ▸ hlt
    | some k => exact hs m (by rw [hevent] at hor ⊢; exact hor)
  | record n ok =>
    obtain ⟨r, hn, h⟩ := Option.bind_eq_some_iff.mp h
    obtain ⟨r', hr'⟩ := record_advances h
    intro m hm
    rw [hr'.recorders, List.length_set]
    by_cases hwait : r.pos = .wait
    · rw [(hr'.wait hwait).2.1] at hm
      cases hm
    · exact hs m ((hr'.other hwait).1.symm.trans hm)

theorem fresh_init : Fresh {} := ⟨nofun, nofun⟩

theorem pending_init : Pending {} := nofun

/-- In a run whose collections and waits take turns, every recorder passes its wait after its own
query has been collected, and every collection releases a wait of its own recorder. These are the
runs in which this is so whichever recorder is the next to step. -/
theorem attributed_of_meets {es : List RecordEvent} (hrun : machine.run {} es = some s) :
    (machine.Meets InTurn {} es →
      machine.Meets PassesOwn {} es ∧ machine.Always Attributed {} es) ∧
    (machine.Always AnyPassesOwn {} es ↔ machine.Meets InTurn {} es) := by
  have hiff : machine.Always Fresh {} es ↔ machine.Meets InTurn {} es :=
    EventMachine.always_iff_meets (fun hstep hs => hs.step hstep)
      (fun hstep hpending hs => fresh_step_iff hpending hs hstep) pending_init fresh_init hrun
  refine ⟨fun h => ?_, ?_⟩
  · have hfresh := hiff.mpr h
    refine ⟨hfresh.meets_imp (fun {s e} hs _ => ?_) h, hfresh.imp fun _ hs => hs.attributed⟩
    cases e with
    | record n ok => exact fun r hn hwait hevent => (hs.next n r hn hwait hevent).2
    | _ => trivial
  · have hsame : AnyPassesOwn = Fresh := funext fun s => propext anyPassesOwn_iff_fresh
    rw [hsame]
    exact hiff

/-- Both recorders started, up to their waits. -/
def bothWait : List RecordEvent :=
  [.startRecord false (-1) 10 1, .startRecord true (-1) 10 1] ++
    List.replicate 4 (.record 0 true) ++ List.replicate 4 (.record 1 true)

theorem attributed_of_meets_both : ∃ s, machine.run {} (bothWait ++ [.signal 1, .record 1 true]) =
      some s ∧
    (machine.Meets InTurn {} (bothWait ++ [.signal 1, .record 1 true]) →
      machine.Meets PassesOwn {} (bothWait ++ [.signal 1, .record 1 true]) ∧
      machine.Always Attributed {} (bothWait ++ [.signal 1, .record 1 true])) ∧
    (machine.Always AnyPassesOwn {} (bothWait ++ [.signal 1, .record 1 true]) ↔
      machine.Meets InTurn {} (bothWait ++ [.signal 1, .record 1 true])) :=
  ⟨_, rfl, attributed_of_meets rfl⟩

/-- The machine recorder takes the signal of the other query. -/
theorem not_attributed_both :
    ¬(machine.Meets PassesOwn {} (bothWait ++ [.signal 0, .record 1 true]) ∧
      machine.Always Attributed {} (bothWait ++ [.signal 0, .record 1 true])) :=
  fun h => absurd h.1 (by decide)

end

end RecordState

end PSM
