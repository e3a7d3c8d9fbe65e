import PSM.Recorder
import PSM.RecordCall

/-! A call of `Record` among the recorders.

`RecordState` has all recorders with their shared event and takes the statements between two calls as
one step; `RecordCall` has one call, with each of its exits. Every step of the latter is none, one or
two steps of the former (`exists_run_of_meets`), as long as the wait succeeds and the time stays in
the range of its type. -/

namespace PSM

namespace RecordCall

/-- Where the recorder of a call is. -/
def posOf : RecordPhase → RecordPos
  | .delay => .delay
  | .head => .head
  | .openQuery | .initCounterInfo => .openQuery
  | .collect | .collectEx => .collect
  | .wait => .wait
  | .read | .advance | .test => .read
  | .closeQuery => .closeQuery
  | .send => .send
  | .returned _ => .returned

/-- The time at the loop's condition, to which the recorder has not come yet. -/
def timeAfter (r : Recorder) (ok : Bool) : Int :=
  if ok = true ∨ r.isMachine = true then r.time_ + r.interval else r.time_

/-- The recorder `r`, with the number `n`, is in the call. -/
structure Shows (a : RecordArgs) (n : Nat) (r : Recorder) (s : RecordCall) (S : RecordState) :
    Prop where
  recorder : S.recorders[n]? = some r
  args : a = ⟨r.isMachine, r.totalTime, r.recordTime, r.interval⟩
  pos : r.pos = posOf s.phase
  time : if s.phase = .test then ∃ ok, s.time_ = timeAfter r ok else s.time_ = r.time_
  collecting : s.phase = .wait → r.collecting = true
  recordEnd : S.recordEnd a.isMachine = s.recordEnd
  isConnect : S.isConnect = s.isConnect

/-- The wait succeeds, and the time stays in the range of its type. -/
def InRange (a : RecordArgs) (s : RecordCall) : RecordCallEvent → Prop
  | .call false => s.phase ≠ .wait
  | .run => s.phase = .advance → addInt s.time_ a.interval = s.time_ + a.interval
  | _ => True

/-- A run of the recorders leads to a state that shows the call. -/
def Simulated (a : RecordArgs) (n : Nat) (s' : RecordCall) (S : RecordState) : Prop :=
  ∃ es S' r', RecordState.machine.run S es = some S' ∧ Shows a n r' s' S'

section
variable {a : RecordArgs} {n : Nat} {s s' : RecordCall} {S S' : RecordState} {r r' : Recorder}
  {e : RecordCallEvent} {ok cpu : Bool} {entries : List Bool}

/-- The recorders take no step. -/
theorem Shows.stay (h : Shows a n r s' S) : Simulated a n s' S := ⟨[], S, r, rfl, h⟩

/-- The recorder takes a step. -/
theorem Shows.record (h : Shows a n r s S) (hstep : S.record n r ok = some S')
    (h' : Shows a n r' s' S') : Simulated a n s' S := by
  refine ⟨[.record n ok], S', r', ?_, h'⟩
  change (S.step (.record n ok)).bind _ = _
  rw [RecordState.step, h.recorder]
  exact congrArg (Option.bind · _) hstep

theorem Shows.put (h : Shows a n r s S)
    (ha : a = ⟨r'.isMachine, r'.totalTime, r'.recordTime, r'.interval⟩) (hpos : r'.pos = posOf s'.phase)
    (htime : if s'.phase = .test then ∃ ok, s'.time_ = timeAfter r' ok else s'.time_ = r'.time_)
    (hcollecting : s'.phase = .wait → r'.collecting = true) (hend : s'.recordEnd = s.recordEnd)
    (hconnect : s'.isConnect = s.isConnect) : Shows a n r' s' (S.put n r') where
  recorder := List.getElem?_set_self (List.getElem?_eq_some_iff.mp h.recorder).1
  args := ha
  pos := hpos
  time := htime
  collecting := hcollecting
  recordEnd := h.recordEnd.trans hend.symm
  isConnect := h.isConnect.trans hconnect.symm

theorem recordEnd_setRecordEnd {isMachine b : Bool} :
    (S.setRecordEnd isMachine b).recordEnd isMachine = b := by
  cases isMachine <;> rfl

theorem isConnect_setRecordEnd {isMachine b : Bool} :
    (S.setRecordEnd isMachine b).isConnect = S.isConnect := by
  cases isMachine <;> rfl

theorem Shows.leave (h : Shows a n r s S) (htime : s'.time_ = r.time_)
    (hconnect : s'.isConnect = s.isConnect) :
    Shows a n { r with pos := .returned } s'.finish (S.leave n r) where
  recorder := by
    rw [RecordState.leave, RecordState.setRecordEnd_recorders]
    exact List.getElem?_set_self (List.getElem?_eq_some_iff.mp h.recorder).1
  args := h.args
  pos := rfl
  time := htime
  collecting := by simp [finish]
  recordEnd := by
    rw [h.args]
    exact recordEnd_setRecordEnd
  isConnect := isConnect_setRecordEnd.trans (h.isConnect.trans hconnect.symm)

/-! ## The steps -/

theorem Shows.head (h : Shows a n r s S) (hphase : s.phase = .head) (hstep : s.run a = some s') :
    Simulated a n s' S := by
  have hpos : r.pos = .head := by rw [h.pos, hphase, posOf]
  have htime : s.time_ = r.time_ := by simpa [hphase] using h.time
  have hrun : S.record n r true = if a.totalTime > s.time_ ∨ a.totalTime < 0 then
      if s.recordEnd then some (S.leave n r) else some (S.put n { r with pos := .openQuery })
    else some (S.leave n r) := by
    rw [RecordState.record, hpos, htime, ← h.recordEnd, h.args]
  rw [RecordCall.run, hphase] at hstep
  dsimp only at hstep
  split at hstep <;> rename_i hloop
  · rw [if_pos hloop] at hrun
    split at hstep <;> rename_i hend <;> cases hstep
    · rw [if_pos hend] at hrun
      exact h.record hrun (h.leave htime rfl)
    · rw [if_neg hend] at hrun
      exact h.record hrun (h.put h.args rfl htime (by simp) rfl rfl)
  · rw [if_neg hloop] at hrun
    cases hstep
    exact h.record hrun (h.leave htime rfl)

theorem Shows.test (h : Shows a n r s S) (hphase : s.phase = .test) (hstep : s.run a = some s') :
    Simulated a n s' S := by
  have hpos : r.pos = .read := by rw [h.pos, hphase, posOf]
  obtain ⟨ok, htime⟩ : ∃ ok, s.time_ = timeAfter r ok := by simpa [hphase] using h.time
  rw [RecordCall.run, hphase] at hstep
  dsimp only at hstep
  have hrecord : a.recordTime = r.recordTime := by rw [h.args]
  rw [hrecord] at hstep
  split at hstep <;> rename_i hzero <;> cases hstep
  have hrun : S.record n r ok = some (S.put n { r with
      time_ := timeAfter r ok
      pos := if timeAfter r ok % r.recordTime ≠ 0 then .collect else .closeQuery }) := by
    rw [RecordState.record, hpos]
    dsimp only
    rw [if_neg hzero]
    rfl
  have hmod : s.time_.tmod r.recordTime = 0 ↔ timeAfter r ok % r.recordTime = 0 := by
    rw [htime, ← Int.dvd_iff_tmod_eq_zero, Int.dvd_iff_emod_eq_zero]
  refine h.record hrun (h.put h.args ?_ ?_ ?_ rfl rfl)
  · dsimp only
    simp only [ne_eq, hmod]
    split <;> rfl
  · dsimp only
    split <;> simpa using htime
  · dsimp only
    split <;> simp

theorem Shows.send (h : Shows a n r s S) (hphase : s.phase = .send) (hstep : s.run a = some s') :
    Simulated a n s' S := by
  have hpos : r.pos = .send := by rw [h.pos, hphase, posOf]
  have htime : s.time_ = r.time_ := by simpa [hphase] using h.time
  have hrun : S.record n r true = if s.isConnect then some (S.put n { r with pos := .head })
      else some (S.leave n r) := by
    rw [RecordState.record, hpos, ← h.isConnect]
  rw [RecordCall.run, hphase] at hstep
  cases hstep
  split <;> rename_i hconnect
  · rw [if_pos hconnect] at hrun
    exact h.record hrun (h.put h.args rfl htime (by simp) rfl rfl)
  · rw [if_neg hconnect] at hrun
    exact h.record hrun (h.leave htime rfl)

theorem Shows.run (h : Shows a n r s S) (hin : InRange a s .run) (hstep : s.run a = some s') :
    Simulated a n s' S := by
  cases hphase : s.phase
  case head => exact h.head hphase hstep
  case test => exact h.test hphase hstep
  case send => exact h.send hphase hstep
  case delay =>
    have hpos : r.pos = .delay := by rw [h.pos, hphase, posOf]
    have htime : s.time_ = r.time_ := by simpa [hphase] using h.time
    have hrun : S.record n r true = some (S.put n { r with pos := .head }) := by
      rw [RecordState.record, hpos]
    rw [RecordCall.run, hphase] at hstep
    cases hstep
    exact h.record hrun (h.put h.args rfl htime (by simp) rfl rfl)
  case advance =>
    have htime : s.time_ = r.time_ := by simpa [hphase] using h.time
    have hinterval : a.interval = r.interval := by rw [h.args]
    have hsum : addInt s.time_ a.interval = timeAfter r true := by
      rw [hin hphase, htime, hinterval, timeAfter, if_pos (.inl rfl)]
    rw [RecordCall.run, hphase] at hstep
    cases hstep
    have hpos : r.pos = .read := by rw [h.pos, hphase, posOf]
    refine Shows.stay ⟨h.recorder, h.args, hpos, ?_, by simp, h.recordEnd, h.isConnect⟩
    rw [if_pos rfl]
    exact ⟨true, hsum⟩
  all_goals
    rw [RecordCall.run, hphase] at hstep
    cases hstep

/-- A call after which the recorder has not moved. -/
theorem Shows.move (h : Shows a n r s S) (hpos : posOf s'.phase = posOf s.phase)
    (htest : s.phase ≠ .test) (htest' : s'.phase ≠ .test) (hwait : s'.phase ≠ .wait)
    (htime : s'.time_ = s.time_) (hend : s'.recordEnd = s.recordEnd)
    (hconnect : s'.isConnect = s.isConnect) : Simulated a n s' S := by
  refine Shows.stay ⟨h.recorder, h.args, h.pos.trans hpos.symm, ?_, fun hw => absurd hw hwait,
    h.recordEnd.trans hend.symm, h.isConnect.trans hconnect.symm⟩
  have hold := h.time
  rw [if_neg htest] at hold
  rw [if_neg htest', htime, hold]

/-- A call that fails ends the recorder too. -/
theorem Shows.fail (h : Shows a n r s S)
    (hpos : r.pos = .openQuery ∨ r.pos = .collect ∨ r.pos = .closeQuery) (htime : s.time_ = r.time_) :
    Simulated a n s.fail S := by
  have hrun : S.record n r false = some (S.put n { r with pos := .returned }) := by
    rw [RecordState.record]
    rcases hpos with hpos | hpos | hpos <;> rw [hpos] <;> rfl
  exact h.record hrun (h.put h.args rfl htime (by simp [RecordCall.fail]) rfl rfl)

/-- The recorder's query is collected, and the recorder passes the wait. -/
theorem Shows.wait (h : Shows a n r s S) (hphase : s.phase = .wait) :
    Simulated a n { s with phase := .read } S := by
  have hpos : r.pos = .wait := by rw [h.pos, hphase, posOf]
  have htime : s.time_ = r.time_ := by simpa [hphase] using h.time
  let r₁ : Recorder := { r with collected := true, signals := r.signals + 1 }
  have hput : Shows a n r₁ s (S.put n r₁) :=
    h.put h.args h.pos (by simpa [hphase] using htime) h.collecting rfl rfl
  have hsignal : Shows a n r₁ s ((S.put n r₁).setEvent n) :=
    ⟨hput.recorder, hput.args, hput.pos, hput.time, hput.collecting, hput.recordEnd, hput.isConnect⟩
  have hstep : S.step (.signal n) = some ((S.put n r₁).setEvent n) := by
    rw [RecordState.step, h.recorder]
    exact if_pos (h.collecting hphase)
  obtain ⟨m, hevent⟩ : ∃ m, ((S.put n r₁).setEvent n).event_ = some m := by
    change ∃ m, S.event_.or (some n) = some m
    cases S.event_ <;> exact ⟨_, rfl⟩
  let r₂ : Recorder := { r₁ with pos := .read, passes := r₁.passes + 1 }
  have hrun : ((S.put n r₁).setEvent n).record n r₁ true =
      some { ((S.put n r₁).setEvent n).put n r₂ with event_ := none } := by
    have hpos₁ : r₁.pos = .wait := hpos
    rw [RecordState.record, hpos₁]
    dsimp only
    rw [hevent]
  have hread : Shows a n r₂ { s with phase := .read } (((S.put n r₁).setEvent n).put n r₂) :=
    hsignal.put hsignal.args rfl htime (by simp) rfl rfl
  obtain ⟨es, S', r', hes, hshows⟩ := hsignal.record hrun ⟨hread.recorder, hread.args, hread.pos,
    hread.time, hread.collecting, hread.recordEnd, hread.isConnect⟩
  refine ⟨.signal n :: es, S', r', ?_, hshows⟩
  rw [EventMachine.run_cons]
  exact Option.bind_eq_some_iff.mpr ⟨_, hstep, hes⟩

theorem Shows.call (h : Shows a n r s S) (hin : InRange a s (.call ok))
    (hstep : s.call ok = some s') : Simulated a n s' S := by
  have hpos := h.pos
  have htime := h.time
  cases hphase : s.phase <;> rw [RecordCall.call, hphase] at hstep <;> rw [hphase] at hpos htime
  case openQuery =>
    cases ok <;> cases hstep
    · exact h.fail (.inl hpos) htime
    · exact h.move (by simp [hphase, posOf]) (by simp [hphase]) (by simp) (by simp) rfl rfl rfl
  case initCounterInfo =>
    cases ok <;> cases hstep
    · exact h.fail (.inl hpos) htime
    · have hrun : S.record n r true = some (S.put n { r with pos := .collect }) := by
        rw [RecordState.record, hpos]
        rfl
      exact h.record hrun (h.put h.args rfl htime (by simp) rfl rfl)
  case collect =>
    cases ok <;> cases hstep
    · exact h.fail (.inr (.inl hpos)) htime
    · exact h.move (by simp [hphase, posOf]) (by simp [hphase]) (by simp) (by simp) rfl rfl rfl
  case collectEx =>
    cases ok <;> cases hstep
    · exact h.fail (.inr (.inl hpos)) htime
    · have hrun : S.record n r true = some (S.put n
          { r with pos := .wait, collecting := true, collected := false }) := by
        rw [RecordState.record, hpos]
        rfl
      exact h.record hrun (h.put h.args rfl htime (fun _ => rfl) rfl rfl)
  case wait =>
    cases ok with
    | false => exact absurd hphase hin
    | true =>
      cases hstep
      exact h.wait hphase
  case closeQuery =>
    cases ok <;> cases hstep
    · exact h.fail (.inr (.inr hpos)) htime
    · have hrun : S.record n r true = some (S.put n { r with pos := .send, collecting := false }) := by
        rw [RecordState.record, hpos]
        rfl
      exact h.record hrun (h.put h.args rfl htime (by simp) rfl rfl)
  all_goals cases hstep

theorem Shows.read (h : Shows a n r s S) (hstep : s.read a cpu entries = some s') :
    Simulated a n s' S := by
  cases hphase : s.phase <;> rw [RecordCall.read, hphase] at hstep
  case read =>
    have hpos : r.pos = .read := by rw [h.pos, hphase, posOf]
    have htime : s.time_ = r.time_ := by simpa [hphase] using h.time
    dsimp only at hstep
    split at hstep <;> rename_i hskip <;> cases hstep
    · -- the round is not counted
      refine Shows.stay ⟨h.recorder, h.args, hpos, ?_, by simp, h.recordEnd, h.isConnect⟩
      rw [if_pos rfl]
      have hkind : r.isMachine = false := by
        rw [h.args, Bool.and_eq_true, Bool.not_eq_true'] at hskip
        exact hskip.1
      exact ⟨false, by simp [timeAfter, hkind, htime]⟩
    · exact h.move (by simp [hphase, posOf]) (by simp [hphase]) (by simp) (by simp) rfl rfl rfl
  all_goals cases hstep

/-- A step of the recorders that is none of this one. -/
theorem Shows.beside {E : RecordEvent} (hstep : S.step E = some S') (h' : Shows a n r s' S') :
    Simulated a n s' S := by
  refine ⟨[E], S', r, ?_, h'⟩
  rw [EventMachine.run_cons]
  exact Option.bind_eq_some_iff.mpr ⟨_, hstep, rfl⟩

theorem Shows.stopRecord (h : Shows a n r s S) : Simulated a n s.stopRecord.2 S := by
  refine Shows.beside (E := .stopRecord a.isMachine) rfl (?_ : Shows a n r _ _)
  unfold RecordState.stopRecord RecordCall.stopRecord
  rw [h.recordEnd]
  split
  · exact h
  · exact ⟨(congrArg (·[n]?) RecordState.setRecordEnd_recorders).trans h.recorder, h.args, h.pos,
      h.time, h.collecting, recordEnd_setRecordEnd, isConnect_setRecordEnd.trans h.isConnect⟩

theorem Shows.startRecord (h : Shows a n r s S) : Simulated a n s.startRecord.2 S := by
  refine Shows.beside (E := .startRecord a.isMachine a.totalTime a.recordTime a.interval) rfl
    (?_ : Shows a n r _ _)
  unfold RecordState.startRecord RecordCall.startRecord
  rw [h.recordEnd]
  split
  · refine ⟨?_, h.args, h.pos, h.time, h.collecting, recordEnd_setRecordEnd,
      isConnect_setRecordEnd.trans h.isConnect⟩
    exact (List.getElem?_append_left (List.getElem?_eq_some_iff.mp h.recorder).1).trans h.recorder
  · exact h

theorem Shows.step (h : Shows a n r s S) (hin : InRange a s e)
    (hstep : (machine a).step s e = some s') : Simulated a n s' S := by
  change RecordCall.step a s e = some s' at hstep
  unfold RecordCall.step at hstep
  split at hstep
  · cases hstep
  · exact h.run hin hstep
  · exact h.call hin hstep
  · exact h.read hstep
  · cases hstep
    exact h.stopRecord
  · cases hstep
    exact h.startRecord
  · rename_i isConnect _
    cases hstep
    have hset : Shows a n r { s with isConnect } { S with isConnect } :=
      ⟨h.recorder, h.args, h.pos, h.time, h.collecting, h.recordEnd, rfl⟩
    exact Shows.beside (E := .setConnect isConnect) rfl hset

theorem Shows.run_of_meets {es : List RecordCallEvent} (h : Shows a n r s S)
    (hin : (machine a).Meets (InRange a) s es) (hrun : (machine a).run s es = some s') :
    Simulated a n s' S := by
  induction es generalizing s S r with
  | nil =>
    cases hrun
    exact h.stay
  | cons e es ih =>
    rw [EventMachine.run_cons, Option.bind_eq_some_iff] at hrun
    obtain ⟨t, hstep, hrun⟩ := hrun
    obtain ⟨es₁, S₁, r₁, hes₁, h₁⟩ := h.step hin.1 hstep
    obtain ⟨es₂, S₂, r₂, hes₂, h₂⟩ := ih h₁ (hin.2 t hstep) hrun
    refine ⟨es₁ ++ es₂, S₂, r₂, ?_, h₂⟩
    rw [EventMachine.run_append, hes₁]
    exact hes₂

end

/-- What a call does after an accepted `StartRecord`, its recorder does. -/
theorem exists_run_of_meets (a : RecordArgs) (S : RecordState) (hend : S.recordEnd a.isMachine = true)
    (es : List RecordCallEvent) (s : RecordCall)
    (hin : (machine a).Meets (InRange a) { isConnect := S.isConnect } es)
    (hrun : (machine a).run { isConnect := S.isConnect } es = some s) :
    Simulated a S.recorders.length s
      (S.startRecord a.isMachine a.totalTime a.recordTime a.interval).2 := by
  have hstart : Shows a S.recorders.length
      { isMachine := a.isMachine, totalTime := a.totalTime, recordTime := a.recordTime,
        interval := a.interval }
      { isConnect := S.isConnect }
      (S.startRecord a.isMachine a.totalTime a.recordTime a.interval).2 := by
    rw [RecordState.startRecord, if_pos hend]
    exact ⟨List.getElem?_concat_length, rfl, rfl, rfl, by simp, recordEnd_setRecordEnd,
      isConnect_setRecordEnd⟩
  exact hstart.run_of_meets hin hrun

end RecordCall

end PSM
