import PSM.AgentNumbers
import PSM.AgentServer
import PSM.Lib.Interleave

/-! Two changes of the records at the same time.

A disconnect changes the record of its token twice, each time by a read and a write of the whole,
on a thread of the pool, while the logic thread registers an agent, starts a recording, or stores a
snapshot in a transaction. All threads use one connection, so the commands of the disconnect can
come between the read and the write of the other, and into its transaction, where a read gets no
value. `serializable_iff` says which schedules have the result of one of the two orders. -/

namespace PSM
open ByteStr Redis Prog

def AgentRecord.turnedOff (jv : AgentRecord) : AgentRecord := { jv with isOn := false }

def AgentRecord.turnedOn (jv : AgentRecord) : AgentRecord := { jv with isOn := true }

/-- The record of an agent that does not record. -/
def AgentRecord.stopped (jv : AgentRecord) : AgentRecord :=
  { jv with
    isRecording := false
    startTime := RedisManager.zeroTime
    endTime := RedisManager.zeroTime
    responseTime := 0 }

def AgentRecord.started (startTime endTime : ByteStr) (responseTime : Int) (jv : AgentRecord) :
    AgentRecord := { jv with isRecording := true, startTime, endTime, responseTime }

namespace RedisManager

/-- What `DisconnProcess` does with the records. -/
def disconnect (token : Int) : Client HashValue Unit := do
  let _ ← changeAgentState_isOn token false
  let _ ← changeAgentState_stopRecording token
  pure ()

/-- What the logic thread may be doing. -/
inductive LogicOperation where
  | initAgent (token hostIP : Int) (ramSize : BitVec 64)
  | startRecording (now token totalRecordTime responseTime delay : Int)
  | saveCurrentProcessList (agentID : Int) (msg : Option Agent.CsCurrentProcessListSend)

def LogicOperation.program (localTime : Int → ByteStr) : LogicOperation → Client HashValue Bool
  | initAgent token hostIP ramSize => RedisManager.initAgent token hostIP ramSize
  | startRecording now token totalRecordTime responseTime delay =>
    changeAgentState_startRecording localTime now token totalRecordTime responseTime delay
  | saveCurrentProcessList agentID msg => RedisManager.saveCurrentProcessList agentID msg

/-- Every token has the same record. -/
def SameRecords (s s' : Store HashValue) : Prop := ∀ token, recordAt s token = recordAt s' token

/-- Between the `MULTI` and the `EXEC` of a transaction of so many commands. -/
def InTransaction (length n : Nat) : Prop := 0 < n ∧ n < length

instance (length n : Nat) : Decidable (InTransaction length n) :=
  inferInstanceAs (Decidable (_ ∧ _))

/-- The `HMGET` that is the given command of the disconnect comes into the transaction in which the
message is stored. -/
def ReadInTransaction (es : List Side) (msg : Option Agent.CsCurrentProcessListSend) (n : Nat) :
    Prop :=
  InTransaction ((msg.elim [] (·.processInfo)).length + 3) (commandsBefore .left es n)

instance (es : List Side) (msg : Option Agent.CsCurrentProcessListSend) (n : Nat) :
    Decidable (ReadInTransaction es msg n) :=
  inferInstanceAs (Decidable (InTransaction _ _))

/-- The schedules of a disconnect (left) and an operation of the logic thread (right) that lose a
change: a record is read before and written after a change that the operation does not make itself,
or the disconnect reads inside of the transaction and has something to change. A read that gets no
record is the only command of its change. -/
def Conflicts (s : Store HashValue) (token : Int) (es : List Side) : LogicOperation → Prop
  | .initAgent token' _ _ => token' = token ∧ ∃ jv, recordAt s token = some jv ∧ jv.stopped ≠ jv ∧
    commandsBefore .right es 0 ≤ 3 ∧ 4 ≤ commandsBefore .right es 1
  | .startRecording _ token' _ _ _ => token' = token ∧ ∃ jv, recordAt s token = some jv ∧
    jv.turnedOff ≠ jv ∧ commandsBefore .right es 0 ≤ 1 ∧
    (commandsBefore .right es 1 = 2 ∨ 4 ≤ commandsBefore .right es 1)
  | .saveCurrentProcessList _ msg => ∃ jv, recordAt s token = some jv ∧
    (ReadInTransaction es msg 0 ∧ jv.turnedOff ≠ jv ∨
      ReadInTransaction es msg (if ReadInTransaction es msg 0 then 1 else 2) ∧ jv.stopped ≠ jv)

/-! ## The programs, command by command -/

/-- The record that a reply is read as. -/
def replyRecord : Reply HashValue → Option AgentRecord
  | .value v => v.bind HashValue.record?
  | _ => none

/-- A sequence of changes of a record. -/
def updateRecord (token : Int) : List (AgentRecord → AgentRecord) → Client HashValue Unit
  | [] => pure ()
  | f :: fs => do
    let _ ← changeAgentState token f
    updateRecord token fs

theorem disconnect_eq {token : Int} :
    disconnect token = updateRecord token [AgentRecord.turnedOff, AgentRecord.stopped] := rfl

/-- The completion of a disconnect. -/
theorem disconnProcess_eq {ι : Type} [DecidableEq ι] {i : ι} {s : Server ι} :
    AgentSocket.disconnProcess false i s =
      (s.redis (disconnect (s.socket i).token)).map fun (_, s') => s'.deleteAgent i := by
  simp only [AgentSocket.disconnProcess, Server.redis, disconnect, Client.run, Prog.run_bind,
    Prog.run_pure, Bool.false_eq_true, if_false, Option.bind_eq_bind]
  cases Prog.run exec (changeAgentState_isOn (s.socket i).token false) s.store with
  | none => rfl
  | some r =>
    simp only [Option.map_some, Option.bind_some]
    cases Prog.run exec (changeAgentState_stopRecording (s.socket i).token) r.2 <;> rfl

section
variable {token hostIP : Int} {ramSize : BitVec 64} {f : AgentRecord → AgentRecord}
  {fs : List (AgentRecord → AgentRecord)}

theorem getAgentJVByToken_eq : getAgentJVByToken token =
    .call (.hmget agentList (decimal token)) fun r => .ret (replyRecord r) := by
  refine congrArg (Prog.call _) (funext fun r => ?_)
  cases r with
  | value v => rcases v with _ | _ | _ <;> rfl
  | _ => rfl

theorem changeAgentState_eq : changeAgentState token f =
    .call (.hmget agentList (decimal token)) fun r =>
      match replyRecord r with
      | some jv => .call (.hmset agentList (decimal token) (.json (f jv))) fun _ => .ret true
      | none => .ret false := by
  rw [changeAgentState, getAgentJVByToken_eq]
  refine congrArg (Prog.call _) (funext fun r => ?_)
  dsimp only
  cases replyRecord r <;> rfl

theorem updateRecord_cons : updateRecord token (f :: fs) =
    .call (.hmget agentList (decimal token)) fun r =>
      match replyRecord r with
      | some jv => .call (.hmset agentList (decimal token) (.json (f jv))) fun _ =>
        updateRecord token fs
      | none => updateRecord token fs := by
  rw [updateRecord, changeAgentState_eq]
  refine congrArg (Prog.call _) (funext fun r => ?_)
  dsimp only
  cases replyRecord r <;> rfl

theorem initAgent_eq : initAgent token hostIP ramSize =
    .call (.hmget agentList (decimal token)) fun r =>
      match replyRecord r with
      | some jv => .call (.hmset agentList (decimal token) (.json jv.turnedOn)) fun _ => .ret true
      | none => .call (.hlen agentList) fun r =>
        if r.isOk then .call (.hmset agentList (decimal token)
          (.ofJson (newAgent hostIP r.toInt ramSize))) fun r => .ret r.isOk
        else .ret false := by
  rw [initAgent, getAgentJVByToken_eq]
  refine congrArg (Prog.call _) (funext fun r => ?_)
  dsimp only
  cases replyRecord r with
  | some jv => rfl
  | none =>
    refine congrArg (Prog.call (Command.hlen agentList)) (funext fun r => ?_)
    cases r <;> rfl

end

/-! ## The same record -/

/-- The token has the given record, and the others have those that they had. -/
structure Holding (s₀ : Store HashValue) (token : Int) (r : Option AgentRecord)
    (s : Store HashValue) : Prop where
  record : recordAt s token = r
  others : ∀ token', token' ≠ token → recordAt s token' = recordAt s₀ token'

section
variable {s₀ s s' : Store HashValue} {token : Int} {r r' : Option AgentRecord} {jv : AgentRecord}
  {f : AgentRecord → AgentRecord} {fs : List (AgentRecord → AgentRecord)}

theorem holding_self (h : recordAt s token = r) : Holding s token r s := ⟨h, fun _ _ => rfl⟩

theorem Holding.setRecord (h : Holding s₀ token r s) :
    Holding s₀ token (some jv) (setRecord s token jv) where
  record := by rw [recordAt_setRecord, if_pos rfl]
  others token' hne := by rw [recordAt_setRecord, if_neg hne, h.others token' hne]

theorem Holding.same_iff (h : Holding s₀ token r s) (h' : Holding s₀ token r' s') :
    SameRecords s s' ↔ r = r' := by
  constructor
  · intro hsame
    rw [← h.record, ← h'.record, hsame token]
  · rintro rfl token'
    by_cases hne : token' = token
    · rw [hne, h.record, h'.record]
    · rw [h.others token' hne, h'.others token' hne]

theorem updates_updateRecord : Updates exec (fun jv s => Holding s₀ token (some jv) s) fs
    (updateRecord token fs) := by
  induction fs with
  | nil => exact ⟨(), rfl⟩
  | cons f fs ih =>
    rw [updateRecord_cons]
    intro jv s hs
    have hr : replyRecord (exec (.hmget agentList (decimal token)) s).1 = some jv := hs.record
    simp only [hr]
    exact ⟨hs, fun jv' s' hs' => ⟨hs'.setRecord, ih⟩⟩

theorem updates_changeAgentState : Updates exec (fun jv s => Holding s₀ token (some jv) s) [f]
    (changeAgentState token f) := by
  rw [changeAgentState_eq]
  intro jv s hs
  have hr : replyRecord (exec (.hmget agentList (decimal token)) s).1 = some jv := hs.record
  simp only [hr]
  exact ⟨hs, fun jv' s' hs' => ⟨hs'.setRecord, true, rfl⟩⟩

theorem updates_initAgent {hostIP : Int} {ramSize : BitVec 64} :
    Updates exec (fun jv s => Holding s₀ token (some jv) s) [AgentRecord.turnedOn]
      (initAgent token hostIP ramSize) := by
  rw [initAgent_eq]
  intro jv s hs
  have hr : replyRecord (exec (.hmget agentList (decimal token)) s).1 = some jv := hs.record
  simp only [hr]
  exact ⟨hs, fun jv' s' hs' => ⟨hs'.setRecord, true, rfl⟩⟩

end

/-- The changes of the disconnect. -/
abbrev off : List (AgentRecord → AgentRecord) := [AgentRecord.turnedOff, AgentRecord.stopped]

section
variable {jv : AgentRecord} {m n : Nat} {startTime endTime : ByteStr} {responseTime : Int}

theorem turnedOn_off_iff : jv.turnedOn = (applyAll off jv).turnedOn ↔ jv.stopped = jv := by
  have hoff : (applyAll off jv).turnedOn = jv.stopped.turnedOn := rfl
  rw [hoff]
  constructor
  · intro h
    obtain ⟨⟨⟩, _⟩ := jv
    cases h
    rfl
  · intro h
    rw [h]

theorem started_off_iff : jv.started startTime endTime responseTime =
    (applyAll off jv).started startTime endTime responseTime ↔ jv.turnedOff = jv := by
  have hoff : (applyAll off jv).started startTime endTime responseTime =
      jv.turnedOff.started startTime endTime responseTime := rfl
  rw [hoff]
  constructor
  · intro h
    obtain ⟨⟨⟩, _⟩ := jv
    cases h
    rfl
  · intro h
    rw [h]

/-- A record that `InitAgent` read before the disconnect was through, and writes afterwards, is
recording if it was. -/
theorem outcome_turnedOn_iff :
    (outcome off AgentRecord.turnedOn jv m n = (applyAll off jv).turnedOn ∨
      outcome off AgentRecord.turnedOn jv m n = applyAll off jv.turnedOn) ↔
    ¬(jv.stopped ≠ jv ∧ m ≤ 3 ∧ 4 ≤ n) := by
  by_cases hm : m ≤ 3
  · have hread : outcome off AgentRecord.turnedOn jv m n = overwritten off jv jv.turnedOn n := by
      interval_cases m <;> rfl
    rw [hread]
    rcases n with _ | _ | _ | _ | n
    · exact iff_of_true (.inr rfl) (by omega)
    · exact iff_of_true (.inr rfl) (by omega)
    · exact iff_of_true (.inl rfl) (by omega)
    · exact iff_of_true (.inr rfl) (by omega)
    · have hlate : overwritten off jv jv.turnedOn (n + 1 + 1 + 1 + 1) = jv.turnedOn := rfl
      have hne : jv.turnedOn ≠ applyAll off jv.turnedOn :=
        fun h => by cases congrArg (fun jv : AgentRecord => jv.isOn) h
      rw [hlate, or_iff_left hne, turnedOn_off_iff]
      simp [hm]
  · obtain ⟨k, rfl⟩ := Nat.exists_eq_add_of_le' (Nat.lt_of_not_le hm)
    refine iff_of_true ?_ (by omega)
    have hall : off.take ((k + 4) / 2) = off := List.take_of_length_le (by simp; omega)
    have hread : outcome off AgentRecord.turnedOn jv (k + 4) n =
        overwritten off jv (applyAll off jv).turnedOn n := by
      rw [outcome, hall]
    rw [hread]
    rcases n with _ | _ | _ | _ | n
    · exact .inr rfl
    · exact .inr rfl
    · exact .inl rfl
    · exact .inr rfl
    · exact .inl rfl

/-- A record that was on when `ChangeAgentState_startRecording` read it comes to be on again, unless
the disconnect has read it before. -/
theorem outcome_started_iff :
    (outcome off (.started startTime endTime responseTime) jv m n =
        (applyAll off jv).started startTime endTime responseTime ∨
      outcome off (.started startTime endTime responseTime) jv m n =
        applyAll off (jv.started startTime endTime responseTime)) ↔
    ¬(jv.turnedOff ≠ jv ∧ m ≤ 1 ∧ (n = 2 ∨ 4 ≤ n)) := by
  by_cases hm : m ≤ 1
  · have hread : outcome off (.started startTime endTime responseTime) jv m n =
        overwritten off jv (jv.started startTime endTime responseTime) n := by
      interval_cases m <;> rfl
    rw [hread]
    rcases n with _ | _ | _ | _ | n
    · exact iff_of_true (.inr rfl) (by omega)
    · exact iff_of_true (.inr rfl) (by omega)
    · have hne : overwritten off jv (jv.started startTime endTime responseTime) 2 ≠
          (applyAll off jv).started startTime endTime responseTime :=
        fun h => by cases congrArg (fun jv : AgentRecord => jv.isRecording) h
      have hiff : overwritten off jv (jv.started startTime endTime responseTime) 2 =
          applyAll off (jv.started startTime endTime responseTime) ↔ jv.turnedOff = jv := by
        constructor
        · intro h
          obtain ⟨⟨⟩, _⟩ := jv
          cases h
          rfl
        · intro h
          have hsame : applyAll off (jv.started startTime endTime responseTime) =
              jv.turnedOff.stopped := rfl
          rw [hsame, h]
          rfl
      have hiff' := (or_iff_right hne).trans hiff
      simpa [hm] using hiff'
    · exact iff_of_true (.inr rfl) (by omega)
    · have hlate : overwritten off jv (jv.started startTime endTime responseTime)
          (n + 1 + 1 + 1 + 1) = jv.started startTime endTime responseTime := rfl
      have hne : jv.started startTime endTime responseTime ≠
          applyAll off (jv.started startTime endTime responseTime) :=
        fun h => by cases congrArg (fun jv : AgentRecord => jv.isRecording) h
      rw [hlate, or_iff_left hne, started_off_iff]
      simp [hm]
  · refine iff_of_true ?_ (by omega)
    have hread : outcome off (.started startTime endTime responseTime) jv m n =
        overwritten off jv ((applyAll off jv).started startTime endTime responseTime) n := by
      by_cases hm' : m ≤ 3
      · interval_cases m <;> rfl
      · have hall : off.take (m / 2) = off := List.take_of_length_le (by simp; omega)
        rw [outcome, hall]
    rw [hread]
    rcases n with _ | _ | _ | _ | n
    · exact .inr rfl
    · exact .inr rfl
    · exact .inr rfl
    · exact .inr rfl
    · exact .inl rfl

end

theorem updates_serializable_iff {jv : AgentRecord} {s s' : Store HashValue} {token : Int}
    {h : AgentRecord → AgentRecord} {q : Client HashValue Bool} {es : List Side} {a : Unit} {b : Bool}
    (hr : recordAt s token = some jv)
    (hq : Updates exec (fun jv s' => Holding s token (some jv) s') [h] q)
    (hrun : interleave exec es (disconnect token) q s = some (a, b, s')) :
    Serializable exec SameRecords (disconnect token) q s s' ↔
      let y := outcome off h jv (commandsBefore .right es 0) (commandsBefore .right es 1)
      y = h (applyAll off jv) ∨ y = applyAll off (h jv) :=
  serializable_updates_iff (fun hs hs' => (hs.same_iff hs').trans Option.some_inj)
    updates_updateRecord hq (holding_self hr) hrun

/-! ## Records of different tokens -/

section
variable {s s' s'' : Store HashValue} {token token' : Int} {r : Option AgentRecord} {jv : AgentRecord}
  {R : Int → Option AgentRecord} {f : AgentRecord → AgentRecord}
  {fs : List (AgentRecord → AgentRecord)}

/-- No record changes but that of the token. -/
def ChangesOnly (token : Int) (s s' : Store HashValue) : Prop :=
  ∀ t, t ≠ token → recordAt s' t = recordAt s t

/-- And none is added. -/
def RewritesOnly (token : Int) (s s' : Store HashValue) : Prop :=
  ChangesOnly token s s' ∧ agentCount s' = agentCount s

/-- The records, apart from that of the token. -/
def RecordsBut (token : Int) (R : Int → Option AgentRecord) (s : Store HashValue) : Prop :=
  ∀ t, t ≠ token → recordAt s t = R t

theorem changesOnly_setValue {v : HashValue} : ChangesOnly token s (setValue s token v) :=
  fun t ht => by rw [recordAt_setValue, if_neg ht]

theorem recordAt_setRecord_self : recordAt (setRecord s token jv) token = some jv := by
  rw [recordAt_setRecord, if_pos rfl]

theorem ChangesOnly.trans (h : ChangesOnly token s s') (h' : ChangesOnly token s' s'') :
    ChangesOnly token s s'' := fun t ht => (h' t ht).trans (h t ht)

theorem agentCount_setRecord (h : recordAt s token = some jv) {jv' : AgentRecord} :
    agentCount (setRecord s token jv') = agentCount s := by
  have hnumber : numberAt s (decimal token) = some (some jv.agentNumber) :=
    numberAt_of_recordAt h
  exact (agentCount_hmset s (decimal token) (.json jv')).trans (by simp [hnumber])

theorem updateRecord_safe_of_ne (hne : token ≠ token') (hs : RecordsBut token' R s) :
    (updateRecord token fs).Safe exec (ChangesOnly token') (RewritesOnly token)
      (fun _ => RecordsBut token' (Function.update R token ((R token).map (applyAll fs)))) s := by
  induction fs generalizing R s with
  | nil =>
    have hR : Function.update R token ((R token).map (applyAll [])) = R := by
      funext t
      by_cases ht : t = token
      · cases h : R token <;> simp [ht, h]
      · simp [ht]
    rw [hR]
    exact hs
  | cons f fs ih =>
    rw [updateRecord_cons]
    intro s₁ hs₁
    have hs₁' : RecordsBut token' R s₁ := fun t ht => (hs₁ t ht).trans (hs t ht)
    have hreply : replyRecord (exec (.hmget agentList (decimal token)) s₁).1 = R token :=
      hs₁' token hne
    refine ⟨⟨fun _ _ => rfl, rfl⟩, ?_⟩
    simp only [hreply]
    cases hR : R token with
    | none =>
      have hnext := ih hs₁'
      rw [hR] at hnext
      exact hnext
    | some jv =>
      intro s₂ hs₂
      have hs₂' : RecordsBut token' R s₂ := fun t ht => (hs₂ t ht).trans (hs₁' t ht)
      refine ⟨⟨changesOnly_setValue, agentCount_setRecord ((hs₂' token hne).trans hR)⟩, ?_⟩
      have hs₃ : RecordsBut token' (Function.update R token (some (f jv)))
          (setRecord s₂ token (f jv)) := by
        intro t ht
        rw [recordAt_setRecord]
        by_cases htoken : t = token
        · simp [htoken]
        · rw [if_neg htoken, Function.update_of_ne htoken, hs₂' t ht]
      have hnext := ih hs₃
      simp only [Function.update_self, Function.update_idem] at hnext
      exact hnext

theorem changeAgentState_safe_of_ne (hne : token ≠ token') (hs : recordAt s token' = r) :
    (changeAgentState token' f).Safe exec (RewritesOnly token) (ChangesOnly token')
      (fun _ s => recordAt s token' = r.map f) s := by
  rw [changeAgentState_eq]
  intro s₁ hs₁
  have hreply : replyRecord (exec (.hmget agentList (decimal token')) s₁).1 = r :=
    (hs₁.1 token' hne.symm).trans hs
  refine ⟨fun _ _ => rfl, ?_⟩
  simp only [hreply]
  cases r with
  | none => exact hreply
  | some jv => exact fun s₂ _ => ⟨changesOnly_setValue, recordAt_setRecord_self⟩

theorem initAgent_safe_of_ne {hostIP : Int} {ramSize : BitVec 64} (hne : token ≠ token')
    (hs : recordAt s token' = r) :
    (initAgent token' hostIP ramSize).Safe exec (RewritesOnly token) (ChangesOnly token')
      (fun _ s' => recordAt s' token' = r.elim
        (HashValue.ofJson (newAgent hostIP (agentCount s) ramSize)).record?
        fun jv => some jv.turnedOn) s := by
  rw [initAgent_eq]
  intro s₁ hs₁
  have hreply : replyRecord (exec (.hmget agentList (decimal token')) s₁).1 = r :=
    (hs₁.1 token' hne.symm).trans hs
  refine ⟨fun _ _ => rfl, ?_⟩
  simp only [hreply]
  cases r with
  | some jv => exact fun s₂ _ => ⟨changesOnly_setValue, recordAt_setRecord_self⟩
  | none =>
    intro s₂ hs₂
    refine ⟨fun _ _ => rfl, fun s₃ _ => ⟨changesOnly_setValue, ?_⟩⟩
    have hcount : agentCount s₂ = agentCount s := hs₂.2.trans hs₁.2
    rw [← hcount]
    exact recordAt_setValue.trans (if_pos rfl)

/-- Operations on different tokens do not disturb each other. -/
theorem serializable_of_ne {q : Client HashValue Bool} {es : List Side} {a : Unit} {b : Bool}
    (hne : token ≠ token')
    (hq : q.Safe exec (RewritesOnly token) (ChangesOnly token')
      (fun _ s => recordAt s token' = r) s)
    (hrun : interleave exec es (disconnect token) q s = some (a, b, s')) :
    Serializable exec SameRecords (disconnect token) q s s' := by
  have hp : (updateRecord token off).Safe exec (ChangesOnly token') (RewritesOnly token)
      (fun _ => RecordsBut token'
        (Function.update (recordAt s) token ((recordAt s token).map (applyAll off)))) s :=
    updateRecord_safe_of_ne hne fun _ _ => rfl
  rw [← disconnect_eq] at hp
  have hagree : Agreement (RewritesOnly token) (ChangesOnly token')
      (fun _ : Unit => RecordsBut token'
        (Function.update (recordAt s) token ((recordAt s token).map (applyAll off))))
      (fun (_ : Bool) s => recordAt s token' = r) :=
    { refl_left := fun _ => ⟨fun _ _ => rfl, rfl⟩
      trans_left := fun h h' => ⟨h.1.trans h'.1, h'.2.trans h.2⟩
      refl_right := fun _ _ _ => rfl
      trans_right := ChangesOnly.trans
      stable_left := fun h h' t ht => (h' t ht).trans (h t ht)
      stable_right := fun h h' => (h'.1 token' hne.symm).trans h }
  refine hagree.serializable hp hq (fun hpost hpost' hpost₁ hpost₁' u => ?_) hrun
  by_cases hu : u = token'
  · rw [hu, hpost', hpost₁']
  · rw [hpost u hu, hpost₁ u hu]

/-! ## A token without a record -/

variable {K : AgentRecord → Prop}

/-- If the token has a record, it is one of the given ones. -/
def Among (token : Int) (K : AgentRecord → Prop) (s : Store HashValue) : Prop :=
  ∀ jv, recordAt s token = some jv → K jv

/-- What the other operation promises about the token: a record comes from the given ones, and does
not go away. -/
structure Settles (token : Int) (K : AgentRecord → Prop) (s s' : Store HashValue) : Prop where
  others : ChangesOnly token s s'
  among : Among token K s → Among token K s'
  keeps : recordAt s token ≠ none → recordAt s' token ≠ none

/-- The disconnect adds no record besides. -/
structure Follows (token : Int) (K : AgentRecord → Prop) (s s' : Store HashValue) : Prop
    extends Settles token K s s' where
  none : recordAt s token = none → recordAt s' token = none
  count : agentCount s' = agentCount s

theorem Settles.refl (s : Store HashValue) : Settles token K s s := ⟨fun _ _ => rfl, id, id⟩

theorem Settles.trans (h : Settles token K s s') (h' : Settles token K s' s'') :
    Settles token K s s'' := ⟨h.others.trans h'.others, h'.among ∘ h.among, h'.keeps ∘ h.keeps⟩

theorem Follows.refl (s : Store HashValue) : Follows token K s s := ⟨.refl s, id, rfl⟩

theorem Follows.trans (h : Follows token K s s') (h' : Follows token K s' s'') :
    Follows token K s s'' :=
  ⟨h.toSettles.trans h'.toSettles, h'.none ∘ h.none, h'.count.trans h.count⟩

theorem settles_setRecord (h : K jv) : Settles token K s (setRecord s token jv) where
  others := changesOnly_setValue
  among _ jv' hjv' := by
    rw [recordAt_setRecord_self] at hjv'
    cases hjv'
    exact h
  keeps _ := by simp [recordAt_setRecord_self]

theorem updateRecord_safe_among {s₀ : Store HashValue} (hK : ∀ f ∈ fs, ∀ jv, K jv → K (f jv))
    (hs : Among token K s ∧ ChangesOnly token s₀ s) :
    (updateRecord token fs).Safe exec (Settles token K) (Follows token K)
      (fun _ s' => Among token K s' ∧ ChangesOnly token s₀ s') s := by
  induction fs generalizing s with
  | nil => exact hs
  | cons f fs ih =>
    have hK' : ∀ f ∈ fs, ∀ jv, K jv → K (f jv) := fun f hf => hK f (List.mem_cons_of_mem _ hf)
    rw [updateRecord_cons]
    intro s₁ hs₁
    have hs₁' : Among token K s₁ ∧ ChangesOnly token s₀ s₁ :=
      ⟨hs₁.among hs.1, hs.2.trans hs₁.others⟩
    have hreply : replyRecord (exec (.hmget agentList (decimal token)) s₁).1 = recordAt s₁ token :=
      rfl
    refine ⟨.refl s₁, ?_⟩
    simp only [hreply]
    cases hjv : recordAt s₁ token with
    | none => exact ih hK' hs₁'
    | some jv =>
      have hfjv : K (f jv) := hK f List.mem_cons_self jv (hs₁'.1 jv hjv)
      intro s₂ hs₂
      have hthere : recordAt s₁ token ≠ none := by simp [hjv]
      obtain ⟨jv₂, hjv₂⟩ := Option.ne_none_iff_exists'.mp (hs₂.keeps hthere)
      have hwrite : Settles token K s₂ (setRecord s₂ token (f jv)) := settles_setRecord hfjv
      refine ⟨⟨hwrite, fun hnone => ?_, agentCount_setRecord hjv₂⟩, ih hK' ⟨?_, ?_⟩⟩
      · rw [hjv₂] at hnone
        cases hnone
      · exact hwrite.among (hs₂.among hs₁'.1)
      · exact (hs₁'.2.trans hs₂.others).trans hwrite.others

theorem initAgent_safe_among {hostIP : Int} {ramSize : BitVec 64}
    (hfinite : isFinite ramSize = true) (hs : recordAt s token = none)
    (hK : K (newRecord hostIP (agentCount s) ramSize hfinite)) :
    (initAgent token hostIP ramSize).Safe exec (Follows token K) (Settles token K)
      (fun _ s' => recordAt s' token ≠ none) s := by
  rw [initAgent_eq]
  intro s₁ hs₁
  have hreply : replyRecord (exec (.hmget agentList (decimal token)) s₁).1 = none := hs₁.none hs
  refine ⟨.refl s₁, ?_⟩
  simp only [hreply]
  intro s₂ hs₂
  refine ⟨.refl s₂, fun s₃ _ => ?_⟩
  have hcount : agentCount s₂ = agentCount s := hs₂.count.trans hs₁.count
  rw [← hcount] at hK
  have hread : HashValue.ofJson (newAgent hostIP (agentCount s₂) ramSize) =
      .json (newRecord hostIP (agentCount s₂) ramSize hfinite) := ofJson_eq_json_iff.mpr rfl
  have hreply : (exec (.hlen agentList) s₂).1.toInt = (agentCount s₂ : Int) := rfl
  rw [hreply, hread]
  exact ⟨settles_setRecord hK, fun hnone => by cases recordAt_setRecord_self.symm.trans hnone⟩

/-- A record that does not read is none for the disconnect. -/
theorem initAgent_safe_unread {hostIP : Int} {ramSize : BitVec 64}
    (hfinite : ¬isFinite ramSize = true) (hs : recordAt s token = none) :
    (initAgent token hostIP ramSize).Safe exec (Follows token K) (Settles token K)
      (fun _ _ => True) s := by
  rw [initAgent_eq]
  intro s₁ hs₁
  have hnone : recordAt s₁ token = none := hs₁.none hs
  have hreply : replyRecord (exec (.hmget agentList (decimal token)) s₁).1 = none := hnone
  refine ⟨.refl s₁, ?_⟩
  simp only [hreply]
  intro s₂ hs₂
  refine ⟨.refl s₂, fun s₃ hs₃ => ⟨?_, trivial⟩⟩
  have hread : HashValue.ofJson (newAgent hostIP (agentCount s₂) ramSize) = .unread _ :=
    dif_neg hfinite
  have hwritten : recordAt (setValue s₃ token
      (.ofJson (newAgent hostIP (agentCount s₂) ramSize))) token = none := by
    rw [recordAt_setValue, if_pos rfl, hread]
    rfl
  refine ⟨changesOnly_setValue, fun _ jv hjv => ?_, fun hsome => ?_⟩
  · cases hwritten.symm.trans hjv
  · exact absurd (hs₃.none (hs₂.none hnone)) hsome

theorem changeAgentState_safe_among (hs : recordAt s token = none) :
    (changeAgentState token f).Safe exec (Follows token K) (Settles token K)
      (fun _ _ => True) s := by
  rw [changeAgentState_eq]
  intro s₁ hs₁
  have hreply : replyRecord (exec (.hmget agentList (decimal token)) s₁).1 = none := hs₁.none hs
  refine ⟨.refl s₁, ?_⟩
  simp only [hreply]
  trivial

theorem agreement_among {s₀ : Store HashValue} {post' : Bool → Store HashValue → Prop}
    (hstable : ∀ {b s s'}, post' b s → Follows token K s s' → post' b s') :
    Agreement (Follows token K) (Settles token K)
      (fun (_ : Unit) s' => Among token K s' ∧ ChangesOnly token s₀ s') post' where
  refl_left := .refl
  trans_left := .trans
  refl_right := .refl
  trans_right := .trans
  stable_left h h' := ⟨h'.among h.1, h.2.trans h'.others⟩
  stable_right := hstable

/-- Neither operation gives the token a record. -/
theorem serializable_of_none {q : Client HashValue Bool} {es : List Side} {a : Unit} {b : Bool}
    (hnone : recordAt s token = none)
    (hq : q.Safe exec (Follows token fun _ => False) (Settles token fun _ => False)
      (fun _ _ => True) s)
    (hrun : interleave exec es (disconnect token) q s = some (a, b, s')) :
    Serializable exec SameRecords (disconnect token) q s s' := by
  have hp : (disconnect token).Safe exec (Settles token fun _ => False) (Follows token fun _ => False)
      (fun _ s' => Among token (fun _ => False) s' ∧ ChangesOnly token s s') s := by
    rw [disconnect_eq]
    refine updateRecord_safe_among (fun _ _ _ => id) ⟨fun jv hjv => ?_, fun _ _ => rfl⟩
    rw [hnone] at hjv
    cases hjv
  refine (agreement_among fun _ _ => trivial).serializable hp hq
    (fun hpost _ hpost₁ _ u => ?_) hrun
  by_cases hu : u = token
  · rw [hu, Option.eq_none_iff_forall_ne_some.mpr hpost.1,
      Option.eq_none_iff_forall_ne_some.mpr hpost₁.1]
  · rw [hpost.2 u hu, hpost₁.2 u hu]

theorem updateRecord_run_none (hnone : recordAt s token = none) :
    Prog.run exec (updateRecord token fs) s = some ((), s) := by
  induction fs with
  | nil => rfl
  | cons f fs ih =>
    have hreply : replyRecord (exec (.hmget agentList (decimal token)) s).1 = none := hnone
    rw [updateRecord_cons]
    simp only [Prog.run, hreply]
    exact ih

/-- The new record is turned off or not, depending on whether the disconnect found it. -/
theorem initAgent_new_serializable {hostIP : Int} {ramSize : BitVec 64} {es : List Side} {a : Unit}
    {b : Bool} (hnone : recordAt s token = none)
    (hrun : interleave exec es (disconnect token) (initAgent token hostIP ramSize) s =
      some (a, b, s')) :
    Serializable exec SameRecords (disconnect token) (initAgent token hostIP ramSize) s s' := by
  by_cases hfinite : isFinite ramSize = true
  swap
  · exact serializable_of_none hnone (initAgent_safe_unread hfinite hnone) hrun
  let new := newRecord hostIP (agentCount s) ramSize hfinite
  let K : AgentRecord → Prop := fun jv => jv = new ∨ jv = new.turnedOff
  have hp : (disconnect token).Safe exec (Settles token K) (Follows token K)
      (fun _ s' => Among token K s' ∧ ChangesOnly token s s') s := by
    rw [disconnect_eq]
    refine updateRecord_safe_among (fun f hf jv hjv => ?_) ⟨fun jv hjv => ?_, fun _ _ => rfl⟩
    · simp only [List.mem_cons, List.not_mem_nil, or_false] at hf
      rcases hf with rfl | rfl <;> rcases hjv with rfl | rfl
      · exact .inr rfl
      · exact .inr rfl
      · exact .inl rfl
      · exact .inr rfl
    · rw [hnone] at hjv
      cases hjv
  have hq : (initAgent token hostIP ramSize).Safe exec (Follows token K) (Settles token K)
      (fun _ s' => recordAt s' token ≠ none) s := initAgent_safe_among hfinite hnone (.inl rfl)
  obtain ⟨⟨hamong, hothers⟩, hsome⟩ :=
    (agreement_among fun h h' => h'.keeps h).interleave hp hq hrun
  obtain ⟨jv, hjv⟩ := Option.ne_none_iff_exists'.mp hsome
  have hnew : (initAgent token hostIP ramSize).run s = some (true, setRecord s token new) := by
    have hvalue : initValue s token hostIP ramSize = .json new :=
      initValue_eq_json_iff.mpr (.inl ⟨hnone, rfl⟩)
    rw [initAgent_run, hvalue]
  have hheld : Holding s token (some new) (setRecord s token new) := (holding_self hnone).setRecord
  rw [disconnect_eq]
  rcases hamong jv hjv with rfl | rfl
  · refine ⟨_, .inl ⟨(), true, s, updateRecord_run_none hnone, hnew⟩, ?_⟩
    exact (Holding.same_iff ⟨hjv, hothers⟩ hheld).mpr rfl
  · obtain ⟨a₁, t, hrun₁, ht⟩ := updates_updateRecord.exists_run hheld
    exact ⟨t, .inr ⟨true, a₁, _, hnew, hrun₁⟩, (Holding.same_iff ⟨hjv, hothers⟩ ht).mpr rfl⟩

end

/-! ## The transaction of the logic thread -/

/-- The store when what is queued has been carried out. -/
def settled (conn : Conn HashValue) : Store HashValue := execAll (conn.queue.getD []) conn.store

/-- So many commands are left of a transaction. The last is its `EXEC`, and the others are queued
and concern other keys. -/
def Transaction : Nat → Client HashValue Bool → Prop
  | 0, q => ∃ b, q = .ret b
  | 1, q => ∃ k, q = .call .exec k ∧ ∀ r, ∃ b, k r = .ret b
  | n + 2, q => ∃ c k, q = .call c k ∧ c.Plain ∧ c.key? ≠ some agentList ∧
    Transaction (n + 1) (k .ok)

/-- What is left of a transaction of the given length after `n` of its commands. -/
def Progress (length n : Nat) (q : Client HashValue Bool) : Prop :=
  if n = 0 then ∃ k, q = .call .multi k ∧ Transaction (length - 1) (k .ok)
  else Transaction (length - n) q

/-- After `n` commands of the transaction, the token will have the given record. -/
structure Held (s₀ : Store HashValue) (token : Int) (length n : Nat) (r : Option AgentRecord)
    (conn : Conn HashValue) : Prop where
  holding : Holding s₀ token r (settled conn)
  queue : conn.queue.isSome ↔ InTransaction length n

/-- The changes that are made, when the reads inside of a transaction get no record; the next
command is the `i`-th. -/
def served {X : Type} (inside : Nat → Bool) : List (X → X) → Nat → Option X → Option X
  | [], _, r => r
  | f :: fs, i, r =>
    if inside i then served inside fs (i + 1) r
    else match r with
      | none => served inside fs (i + 1) none
      | some x => served inside fs (i + 2) (some (f x))

theorem served_succ {X : Type} {inside : Nat → Bool} {fs : List (X → X)} {i : Nat} {r : Option X} :
    served inside fs (i + 1) r = served (fun j => inside (j + 1)) fs i r := by
  induction fs generalizing i r with
  | nil => rfl
  | cons f fs ih =>
    unfold served
    simp only [ih]

section
variable {s₀ : Store HashValue} {token : Int} {length n : Nat} {r : Option AgentRecord}
  {conn conn' : Conn HashValue} {jv : AgentRecord} {q : Client HashValue Bool}

/-- A read gets the record, unless it is queued. -/
theorem Held.read (h : Held s₀ token length n r conn) :
    Held s₀ token length n r (Conn.exec (.hmget agentList (decimal token)) conn).2 ∧
    replyRecord (Conn.exec (.hmget agentList (decimal token)) conn).1 =
      if InTransaction length n then none else r := by
  obtain ⟨s, queue⟩ := conn
  cases queue with
  | none =>
    have hout : ¬InTransaction length n := fun hin => by simpa using h.queue.mpr hin
    rw [Conn.exec_plain (by trivial), if_neg hout]
    exact ⟨h, h.holding.record⟩
  | some cs =>
    rw [Conn.exec_queued (by trivial), if_pos (h.queue.mp rfl)]
    refine ⟨⟨?_, h.queue⟩, rfl⟩
    have hsettled : settled ⟨s, some (cs ++ [.hmget agentList (decimal token)])⟩ =
        settled ⟨s, some cs⟩ := execAll_concat
    rw [hsettled]
    exact h.holding

/-- A write takes effect, if only with `EXEC`. -/
theorem Held.write (h : Held s₀ token length n r conn) :
    Held s₀ token length n (some jv)
      (Conn.exec (.hmset agentList (decimal token) (.json jv)) conn).2 := by
  obtain ⟨s, queue⟩ := conn
  cases queue with
  | none =>
    rw [Conn.exec_plain (by trivial)]
    exact ⟨h.holding.setRecord, h.queue⟩
  | some cs =>
    rw [Conn.exec_queued (by trivial)]
    refine ⟨?_, h.queue⟩
    have hsettled : settled ⟨s, some (cs ++ [.hmset agentList (decimal token) (.json jv)])⟩ =
        setRecord (settled ⟨s, some cs⟩) token jv := execAll_concat
    rw [hsettled]
    exact h.holding.setRecord

theorem Holding.of_hash {s s' : Store HashValue} (h : Holding s₀ token r s)
    (hhash : s'.hash agentList = s.hash agentList) : Holding s₀ token r s' where
  record := by rw [recordAt, hhash, ← h.record]; rfl
  others t ht := by rw [recordAt, hhash, ← h.others t ht]; rfl

/-- A command of the transaction changes no record. -/
theorem Held.step {d : Command HashValue} {l : Reply HashValue → Client HashValue Bool}
    (h : Held s₀ token length n r conn) (hq : Progress length n (.call d l)) (hn : n < length)
    (hlength : 2 ≤ length) :
    Held s₀ token length (n + 1) r (Conn.exec d conn).2 ∧
      Progress length (n + 1) (l (Conn.exec d conn).1) := by
  obtain ⟨s, queue⟩ := conn
  unfold Progress at hq ⊢
  rw [if_neg n.succ_ne_zero]
  split at hq
  · rename_i hzero
    subst hzero
    obtain ⟨k, heq, hk⟩ := hq
    cases heq
    cases queue with
    | some cs => exact absurd (h.queue.mp rfl).1 (lt_irrefl 0)
    | none => exact ⟨⟨h.holding, iff_of_true rfl ⟨Nat.zero_lt_one, hlength⟩⟩, hk⟩
  · rename_i hpos
    have hin : InTransaction length n := ⟨Nat.pos_of_ne_zero hpos, hn⟩
    obtain ⟨cs, rfl⟩ := Option.isSome_iff_exists.mp (h.queue.mpr hin)
    obtain ⟨m, hm⟩ := Nat.exists_eq_add_of_lt hn
    have hleft : length - n = m + 1 := by omega
    have hleft' : length - (n + 1) = m := by omega
    rw [hleft] at hq
    rw [hleft']
    cases m with
    | zero =>
      obtain ⟨k, heq, hk⟩ := hq
      cases heq
      refine ⟨⟨h.holding, iff_of_false (by simp [Conn.exec]) fun hin' => ?_⟩, hk _⟩
      exact absurd hin'.2 (by omega)
    | succ m =>
      obtain ⟨c, k, heq, hplain, hkey, hk⟩ := hq
      cases heq
      rw [Conn.exec_queued hplain]
      refine ⟨⟨?_, iff_of_true rfl ⟨n.succ_pos, by omega⟩⟩, hk⟩
      have hsettled : settled ⟨s, some (cs ++ [d])⟩ = (exec d (settled ⟨s, some cs⟩)).2 :=
        execAll_concat
      rw [hsettled]
      exact h.holding.of_hash ((exec_sameBut d _).hash agentList hkey)

theorem Progress.cases (hq : Progress length n q) (hn : n ≤ length) (hlength : 2 ≤ length) :
    n = length ∧ (∃ b, q = .ret b) ∨ n < length ∧ ∃ d l, q = .call d l := by
  unfold Progress at hq
  split at hq
  · rename_i hzero
    obtain ⟨k, rfl, -⟩ := hq
    exact .inr ⟨by omega, _, _, rfl⟩
  · obtain ⟨m, rfl⟩ := Nat.exists_eq_add_of_le hn
    rw [Nat.add_sub_cancel_left] at hq
    match m with
    | 0 => exact .inl ⟨rfl, hq⟩
    | 1 =>
      obtain ⟨k, rfl, -⟩ := hq
      exact .inr ⟨by omega, _, _, rfl⟩
    | m + 2 =>
      obtain ⟨c, k, rfl, -⟩ := hq
      exact .inr ⟨by omega, _, _, rfl⟩

/-- With nothing in between, the transaction is carried out and changes no record. -/
theorem Progress.exists_run (hq : Progress length n q) (h : Held s₀ token length n r conn)
    (hn : n ≤ length) (hlength : 2 ≤ length) :
    ∃ b conn', Prog.run Conn.exec q conn = some (b, conn') ∧
      Held s₀ token length length r conn' := by
  induction q generalizing n conn with
  | ret b =>
    rcases hq.cases hn hlength with ⟨rfl, -⟩ | ⟨-, d, l, heq⟩
    · exact ⟨b, conn, rfl, h⟩
    · cases heq
  | call d l ih =>
    rcases hq.cases hn hlength with ⟨-, b, heq⟩ | ⟨hlt, -⟩
    · cases heq
    · obtain ⟨h', hq'⟩ := h.step hq hlt hlength
      exact ih _ hq' h' hlt
  | die => rcases hq.cases hn hlength with ⟨-, b, heq⟩ | ⟨-, d, l, heq⟩ <;> cases heq

/-- Whether the given command of the other program comes into the transaction, of which `n` commands
are done. -/
def comesInto (length n : Nat) (es : List Side) (i : Nat) : Bool :=
  decide (InTransaction length (n + commandsBefore .left es i))

theorem comesInto_left {es : List Side} :
    (fun i => comesInto length n (.left :: es) (i + 1)) = comesInto length n es :=
  funext fun i => by simp [comesInto]

theorem comesInto_right {es : List Side} :
    comesInto length n (.right :: es) = comesInto length (n + 1) es :=
  funext fun i => by simp [comesInto, Nat.add_assoc, Nat.add_comm 1]

/-- Every schedule of a sequence of changes and the transaction: the reads inside of it get no
record, so their changes are lost. The sequence may be about to write. -/
theorem interleave_transaction {fs : List (AgentRecord → AgentRecord)} {es : List Side}
    {p : Client HashValue Unit} {a : Unit} {b : Bool} (hq : Progress length n q)
    (h : Held s₀ token length n r conn) (hn : n ≤ length) (hlength : 2 ≤ length)
    (hrun : interleave Conn.exec es p q conn = some (a, b, conn')) :
    (p = updateRecord token fs →
      Held s₀ token length length (served (comesInto length n es) fs 0 r) conn') ∧
    ∀ jv, p = (.call (.hmset agentList (decimal token) (.json jv)) fun _ =>
        updateRecord token fs) →
      Held s₀ token length length (served (comesInto length n es) fs 1 (some jv)) conn' := by
  induction es generalizing fs p q n r conn with
  | nil =>
    refine ⟨?_, ?_⟩
    · rintro rfl
      cases fs with
      | nil =>
        rcases hq.cases hn hlength with ⟨rfl, b', rfl⟩ | ⟨-, d, l, rfl⟩
        · cases hrun
          exact h
        · cases hrun
      | cons f fs =>
        rw [updateRecord_cons] at hrun
        cases hrun
    · rintro jv rfl
      cases hrun
  | cons e es ih =>
    cases e with
    | left =>
      refine ⟨?_, ?_⟩
      · rintro rfl
        cases fs with
        | nil => cases hrun
        | cons f fs =>
          rw [updateRecord_cons] at hrun
          obtain ⟨hread, hreply⟩ := h.read
          simp only [interleave, hreply] at hrun
          unfold served
          have hnow : comesInto length n (.left :: es) 0 = decide (InTransaction length n) := by
            simp [comesInto]
          rw [hnow]
          simp only [served_succ, comesInto_left, decide_eq_true_eq]
          by_cases hin : InTransaction length n
          · simp only [hin, if_true] at hrun ⊢
            exact (ih hq hread hn hrun).1 rfl
          · simp only [hin, if_false] at hrun ⊢
            cases r with
            | none => exact (ih hq hread hn hrun).1 rfl
            | some jv =>
              have hwrite := (ih hq hread hn hrun).2 (f jv) rfl
              rw [served_succ] at hwrite
              exact hwrite
      · rintro jv rfl
        rw [served_succ, comesInto_left]
        exact (ih hq h.write hn hrun).1 rfl
    | right =>
      rcases hq.cases hn hlength with ⟨-, b', rfl⟩ | ⟨hlt, d, l, rfl⟩
      · cases p <;> cases hrun
      · obtain ⟨hstep, hq'⟩ := h.step hq hlt hlength
        rw [comesInto_right]
        refine ih hq' hstep hlt ?_
        cases p <;> exact hrun

end

/-- `SaveCurrentProcessList` is a transaction. -/
theorem progress_saveCurrentProcessList {agentID : Int}
    {msg : Option Agent.CsCurrentProcessListSend} :
    Progress ((msg.elim [] (·.processInfo)).length + 3) 0 (saveCurrentProcessList agentID msg) := by
  have hkey : some (currentProcessListKey agentID) ≠ some agentList := fun h =>
    agentKey_ne_agentList (Option.some.inj h)
  have hset : ∀ processInfo : List Agent.CurrentProcess,
      Transaction (processInfo.length + 1)
        ((setProcesses (currentProcessListKey agentID) processInfo).bind fun b =>
          if b then Prog.call .exec fun r => .ret r.isOk else .ret false) := by
    intro processInfo
    induction processInfo with
    | nil => exact ⟨_, rfl, fun r => ⟨_, rfl⟩⟩
    | cons pi processInfo ih => exact ⟨_, _, rfl, trivial, hkey, ih⟩
  refine ⟨_, rfl, ?_⟩
  exact ⟨_, _, rfl, trivial, hkey, hset _⟩

section
variable {s s' : Store HashValue} {token : Int} {r : Option AgentRecord} {jv : AgentRecord}
  {f : AgentRecord → AgentRecord} {fs : List (AgentRecord → AgentRecord)}

/-! ### Programs without transactions -/

theorem calls_plain_updateRecord : (updateRecord token fs).Calls Command.Plain := by
  induction fs with
  | nil => trivial
  | cons f fs ih =>
    rw [updateRecord_cons]
    refine ⟨trivial, fun r => ?_⟩
    dsimp only
    cases replyRecord r with
    | none => exact ih
    | some jv => exact ⟨trivial, fun _ => ih⟩

theorem calls_plain_changeAgentState : (changeAgentState token f).Calls Command.Plain := by
  rw [changeAgentState_eq]
  refine ⟨trivial, fun r => ?_⟩
  dsimp only
  cases replyRecord r with
  | none => trivial
  | some jv => exact ⟨trivial, fun _ => trivial⟩

theorem calls_plain_initAgent {hostIP : Int} {ramSize : BitVec 64} :
    (initAgent token hostIP ramSize).Calls Command.Plain := by
  rw [initAgent_eq]
  refine ⟨trivial, fun r => ?_⟩
  dsimp only
  cases replyRecord r with
  | some jv => exact ⟨trivial, fun _ => trivial⟩
  | none =>
    refine ⟨trivial, fun r => ?_⟩
    dsimp only
    split <;> [exact ⟨trivial, fun _ => trivial⟩; trivial]

/-- A connection that is not in a transaction. -/
abbrev idle (s : Store HashValue) : Conn HashValue := ⟨s, none⟩

theorem exec_idle (c : Command HashValue) (s : Store HashValue) (hc : c.Plain) :
    Conn.exec c (idle s) = ((exec c s).1, idle (exec c s).2) := Conn.exec_plain hc

/-- The observable outcome of a schedule on the connection. -/
abbrev SameConnRecords (conn conn' : Conn HashValue) : Prop := SameRecords conn.store conn'.store

theorem calls_plain_disconnect : (disconnect token).Calls Command.Plain := by
  rw [disconnect_eq]
  exact calls_plain_updateRecord

/-- The disconnect, with nothing in between. -/
theorem disconnect_run {s₀ : Store HashValue} (h : Holding s₀ token r s) :
    ∃ s', Prog.run Conn.exec (disconnect token) (idle s) = some ((), idle s') ∧
      Holding s₀ token (r.map (applyAll off)) s' := by
  rw [run_map calls_plain_disconnect exec_idle, disconnect_eq]
  cases r with
  | none => exact ⟨s, by rw [updateRecord_run_none h.record]; rfl, h⟩
  | some jv =>
    obtain ⟨a, s', hrun, hs'⟩ := updates_updateRecord.exists_run h
    exact ⟨s', by rw [hrun]; rfl, hs'⟩

/-! ### What is lost -/

theorem stopped_turnedOff_eq_iff :
    jv.turnedOff.stopped = jv ↔ jv.turnedOff = jv ∧ jv.stopped = jv := by
  constructor
  · intro h
    exact ⟨by rw [← h]; rfl, by rw [← h]; rfl⟩
  · rintro ⟨hoff, hstopped⟩
    rw [hoff, hstopped]

theorem stopped_eq_off_iff : jv.stopped = jv.turnedOff.stopped ↔ jv.turnedOff = jv := by
  constructor
  · intro h
    obtain ⟨⟨⟩, _⟩ := jv
    cases h
    rfl
  · intro h
    rw [h]

theorem turnedOff_eq_off_iff : jv.turnedOff = jv.turnedOff.stopped ↔ jv.stopped = jv := by
  constructor
  · intro h
    obtain ⟨⟨⟩, _⟩ := jv
    cases h
    rfl
  · intro h
    have hcomm : jv.turnedOff.stopped = jv.stopped.turnedOff := rfl
    rw [hcomm, h]

theorem served_off_iff {es : List Side} {agentID : Int}
    {msg : Option Agent.CsCurrentProcessListSend} :
    served (comesInto ((msg.elim [] (·.processInfo)).length + 3) 0 es) off 0 (recordAt s token) =
        (recordAt s token).map (applyAll off) ↔
      ¬Conflicts s token es (.saveCurrentProcessList agentID msg) := by
  have hin : ∀ i, comesInto ((msg.elim [] (·.processInfo)).length + 3) 0 es i = true ↔
      ReadInTransaction es msg i := fun i => by simp [comesInto, ReadInTransaction]
  unfold Conflicts
  cases hr : recordAt s token with
  | none => simp [served]
  | some jv =>
    simp only [served, hin, Option.map_some, applyAll_cons, applyAll_nil, Option.some.injEq,
      exists_eq_left', Nat.zero_add]
    by_cases hfirst : ReadInTransaction es msg 0
    · simp only [hfirst, if_true]
      by_cases hsecond : ReadInTransaction es msg 1
      · simp [hsecond, eq_comm (a := jv), stopped_turnedOff_eq_iff]
      · simp [hsecond, stopped_eq_off_iff]
    · simp only [hfirst, if_false]
      by_cases hsecond : ReadInTransaction es msg 2
      · simp [hsecond, turnedOff_eq_off_iff]
      · simp [hsecond]

theorem saveCurrentProcessList_serializable_iff {es : List Side} {agentID : Int}
    {msg : Option Agent.CsCurrentProcessListSend} {a : Unit} {b : Bool} {conn' : Conn HashValue}
    (hrun : interleave Conn.exec es (disconnect token) (saveCurrentProcessList agentID msg)
      (idle s) = some (a, b, conn')) :
    Serializable Conn.exec SameConnRecords (disconnect token) (saveCurrentProcessList agentID msg)
        (idle s) conn' ↔
      ¬Conflicts s token es (.saveCurrentProcessList agentID msg) := by
  let length := (msg.elim [] (·.processInfo)).length + 3
  have hlength : 2 ≤ length := Nat.le_add_left 2 _
  have hprogress : Progress length 0 (saveCurrentProcessList agentID msg) :=
    progress_saveCurrentProcessList
  have hidle : ∀ {n r s'}, ¬InTransaction length n → Holding s token r s' →
      Held s token length n r (idle s') := fun hout h => ⟨h, iff_of_false nofun hout⟩
  have hstart : ¬InTransaction length 0 := fun h => lt_irrefl 0 h.1
  have hend : ¬InTransaction length length := fun h => lt_irrefl length h.2
  -- at the end nothing is queued
  have hstore : ∀ {r conn}, Held s token length length r conn →
      ∃ s', conn = idle s' ∧ Holding s token r s' := by
    rintro r ⟨s', queue⟩ h
    cases queue with
    | none => exact ⟨s', rfl, h.holding⟩
    | some cs => exact absurd (h.queue.mp rfl) hend
  have hfinal := (interleave_transaction hprogress (hidle hstart (holding_self rfl))
    (Nat.zero_le length) hlength hrun).1 disconnect_eq
  obtain ⟨s', rfl, hheld⟩ := hstore hfinal
  have hserial : ∀ t, Serial Conn.exec (disconnect token) (saveCurrentProcessList agentID msg)
        (idle s) t ∨
      Serial Conn.exec (saveCurrentProcessList agentID msg) (disconnect token) (idle s) t →
      Holding s token ((recordAt s token).map (applyAll off)) t.store := by
    rintro t (⟨a₁, b₁, s₁, hrun₁, hrun₂⟩ | ⟨b₁, a₁, s₁, hrun₁, hrun₂⟩)
    · obtain ⟨u, hu, hheld₁⟩ := disconnect_run (holding_self (s := s) rfl)
      cases hrun₁.symm.trans hu
      obtain ⟨_, _, hrun₃, hheld₂⟩ := hprogress.exists_run (hidle hstart hheld₁)
        (Nat.zero_le length) hlength
      cases hrun₂.symm.trans hrun₃
      obtain ⟨_, rfl, hheld₃⟩ := hstore hheld₂
      exact hheld₃
    · obtain ⟨_, _, hrun₃, hheld₁⟩ := hprogress.exists_run (hidle hstart (holding_self rfl))
        (Nat.zero_le length) hlength
      cases hrun₁.symm.trans hrun₃
      obtain ⟨_, rfl, hheld₂⟩ := hstore hheld₁
      obtain ⟨u, hu, hheld₃⟩ := disconnect_run hheld₂
      cases hrun₂.symm.trans hu
      exact hheld₃
  rw [← served_off_iff]
  constructor
  · rintro ⟨t, ht, hsame⟩
    exact (hheld.same_iff (hserial t ht)).mp hsame
  · intro heq
    obtain ⟨u, hu, hheld₁⟩ := disconnect_run (holding_self (s := s) rfl)
    obtain ⟨_, _, hrun₃, hheld₂⟩ := hprogress.exists_run (hidle hstart hheld₁)
      (Nat.zero_le length) hlength
    obtain ⟨_, rfl, hheld₃⟩ := hstore hheld₂
    exact ⟨_, .inl ⟨_, _, _, hu, hrun₃⟩, (hheld.same_iff hheld₃).mpr heq⟩

/-- Without a transaction, the schedule is one of the store. -/
theorem plain_serializable_iff {q : Client HashValue Bool} {es : List Side} {a : Unit} {b : Bool}
    {conn' : Conn HashValue} {C : Prop} (hq : q.Calls Command.Plain)
    (h : ∀ s', interleave exec es (disconnect token) q s = some (a, b, s') →
      (Serializable exec SameRecords (disconnect token) q s s' ↔ C))
    (hrun : interleave Conn.exec es (disconnect token) q (idle s) = some (a, b, conn')) :
    Serializable Conn.exec SameConnRecords (disconnect token) q (idle s) conn' ↔ C := by
  rw [interleave_map calls_plain_disconnect hq exec_idle] at hrun
  obtain ⟨⟨a', b', s'⟩, hrun', heq⟩ := Option.map_eq_some_iff.mp hrun
  cases heq
  rw [serializable_map calls_plain_disconnect hq exec_idle]
  exact h s' hrun'

/-- A schedule of the completion of a disconnect and an operation of the logic thread, on the same
connection, leaves the records as one of the two orders does, unless they conflict. -/
theorem serializable_iff {localTime : Int → ByteStr} {op : LogicOperation} {es : List Side}
    {a : Unit} {b : Bool} {conn' : Conn HashValue}
    (hrun : interleave Conn.exec es (disconnect token) (op.program localTime) (idle s) =
      some (a, b, conn')) :
    Serializable Conn.exec SameConnRecords (disconnect token) (op.program localTime) (idle s) conn' ↔
      ¬Conflicts s token es op := by
  cases op with
  | initAgent token' hostIP ramSize =>
    refine plain_serializable_iff calls_plain_initAgent (fun s' hrun => ?_) hrun
    by_cases htoken : token' = token
    · subst htoken
      cases hr : recordAt s token' with
      | none =>
        exact iff_of_true (initAgent_new_serializable hr hrun) (by simp [Conflicts, hr])
      | some jv =>
        refine (updates_serializable_iff hr updates_initAgent hrun).trans ?_
        simp only [Conflicts, hr, true_and, Option.some.injEq, exists_eq_left']
        exact outcome_turnedOn_iff
    · exact iff_of_true (serializable_of_ne (Ne.symm htoken)
        (initAgent_safe_of_ne (Ne.symm htoken) rfl) hrun) fun h => htoken h.1
  | startRecording now token' totalRecordTime responseTime delay =>
    refine plain_serializable_iff calls_plain_changeAgentState (fun s' hrun => ?_) hrun
    by_cases htoken : token' = token
    · subst htoken
      cases hr : recordAt s token' with
      | none =>
        exact iff_of_true (serializable_of_none hr (changeAgentState_safe_among hr) hrun)
          (by simp [Conflicts, hr])
      | some jv =>
        refine (updates_serializable_iff hr updates_changeAgentState hrun).trans ?_
        simp only [Conflicts, hr, true_and, Option.some.injEq, exists_eq_left']
        exact outcome_started_iff
    · exact iff_of_true (serializable_of_ne (Ne.symm htoken)
        (changeAgentState_safe_of_ne (Ne.symm htoken) rfl) hrun) fun h => htoken h.1
  | saveCurrentProcessList agentID msg => exact saveCurrentProcessList_serializable_iff hrun

end

/-- An agent that is on. -/
def oneAgent : Store HashValue := setRecord Store.empty 7 (newRecord 1 0 0#64 isFinite_zero)

/-- The disconnect is between its changes when the recording starts. -/
def startBetween : List Side := [.left, .left, .right, .right, .left, .left]

theorem serializable_iff_startBetween :
    ∃ conn', interleave Conn.exec startBetween (disconnect 7)
        ((LogicOperation.startRecording 0 7 (-1) 10 0).program fun _ => []) (idle oneAgent) =
        some ((), true, conn') ∧
      Serializable Conn.exec SameConnRecords (disconnect 7)
        ((LogicOperation.startRecording 0 7 (-1) 10 0).program fun _ => []) (idle oneAgent)
        conn' := by
  obtain ⟨conn', hrun⟩ : ∃ conn', interleave Conn.exec startBetween (disconnect 7)
      ((LogicOperation.startRecording 0 7 (-1) 10 0).program fun _ => []) (idle oneAgent) =
      some ((), true, conn') := ⟨_, rfl⟩
  refine ⟨conn', hrun, (serializable_iff hrun).mpr ?_⟩
  rintro ⟨-, jv, -, -, hread, -⟩
  exact absurd hread (by decide)

/-- The first read of the disconnect comes into the transaction of another agent's snapshot. -/
def readInside : List Side := [.right, .left, .right, .right, .left, .left]

/-- The agent is disconnected, and its record says that it is on. -/
theorem not_serializable_readInside :
    ∃ conn', interleave Conn.exec readInside (disconnect 7)
        ((LogicOperation.saveCurrentProcessList 1 none).program fun _ => []) (idle oneAgent) =
        some ((), true, conn') ∧
      recordAt conn'.store 7 = some (newRecord 1 0 0#64 isFinite_zero) ∧
      ¬Serializable Conn.exec SameConnRecords (disconnect 7)
        ((LogicOperation.saveCurrentProcessList 1 none).program fun _ => []) (idle oneAgent)
        conn' := by
  obtain ⟨conn', hrun, hrecord⟩ : ∃ conn', interleave Conn.exec readInside (disconnect 7)
      ((LogicOperation.saveCurrentProcessList 1 none).program fun _ => []) (idle oneAgent) =
      some ((), true, conn') ∧ recordAt conn'.store 7 = some (newRecord 1 0 0#64 isFinite_zero) :=
    ⟨_, rfl, rfl⟩
  refine ⟨conn', hrun, hrecord, fun h => (saveCurrentProcessList_serializable_iff hrun).mp h ?_⟩
  refine ⟨newRecord 1 0 0#64 isFinite_zero, rfl, .inl ⟨by decide, fun heq => ?_⟩⟩
  cases congrArg (fun jv : AgentRecord => jv.isOn) heq

end RedisManager

end PSM
