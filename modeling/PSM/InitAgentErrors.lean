import PSM.AgentNumbers

/-! Registrations on a connection that fails at times.

`GetAgentJVByToken` gives the same result for a token without a record, for a record that does not
parse and for an error, and `InitAgent` then creates a record. For a token that has one, the new
record replaces it, with the length of the hash as its number, and the next agent will get that
number again. Apart from this case the errors do no harm (`keepsAgents_iff`). -/

namespace PSM
open ByteStr Redis RedisManager

/-- The arguments of `InitAgent`. -/
structure InitCall where
  token : Int
  hostIP : Int
  ramSize : BitVec 64

namespace InitCall

def program (c : InitCall) : Client HashValue Bool := initAgent c.token c.hostIP c.ramSize

/-- Calls one after the other, on a connection some of whose commands are answered with an error. -/
def machine (fails : Nat → Bool) : EventMachine (FaultyConn HashValue) InitCall :=
  ⟨fun t c => (Prog.run (FaultyConn.exec fails) c.program t).map (·.2)⟩

/-- The agent of a token, whether its text parses or not. -/
def agentAt (s : Store HashValue) (token : Int) : Option AgentJson :=
  ((s.hash agentList).lookup (decimal token)).bind HashValue.agent?

/-- The record of the token, if there was one, has its number and its name, and no two records have
the same number. -/
structure KeepsAgent (token : Int) (s s' : Store HashValue) : Prop where
  record : ∀ jv, agentAt s token = some jv → ∃ jv', agentAt s' token = some jv' ∧
    jv'.agentNumber = jv.agentNumber ∧ jv'.agentName = jv.agentName
  distinct : ∀ field field' x, numberAt s' field = some x → numberAt s' field' = some x →
    field = field'

/-- The call returns, and keeps the agents. -/
def Keeps (fails : Nat → Bool) (t : FaultyConn HashValue) (c : InitCall) : Prop :=
  ∃ t', (machine fails).step t c = some t' ∧ KeepsAgent c.token t.conn.store t'.conn.store

/-- If there is a record, and the lookup of it is answered with an error or it does not parse, then
the length of the hash or the write is answered with an error. -/
def LooksUp (fails : Nat → Bool) (t : FaultyConn HashValue) (c : InitCall) : Prop :=
  agentAt t.conn.store c.token ≠ none → fails t.sent ∨ recordAt t.conn.store c.token = none →
    fails (t.sent + 1) ∨ fails (t.sent + 2)

/-- No transaction is open, and the agents are numbered. -/
structure Ready (t : FaultyConn HashValue) : Prop where
  queue : t.conn.queue = none
  numbered : Numbered t.conn.store

/-! ## One call -/

/-- What the lookup gives. -/
def found (fails : Nat → Bool) (t : FaultyConn HashValue) (c : InitCall) : Option AgentRecord :=
  if fails t.sent then none else recordAt t.conn.store c.token

/-- The store after the call. -/
def storeAfter (fails : Nat → Bool) (t : FaultyConn HashValue) (c : InitCall) : Store HashValue :=
  match found fails t c with
  | some jvv =>
    if fails (t.sent + 1) then t.conn.store
    else setRecord t.conn.store c.token { jvv with isOn := true }
  | none =>
    if fails (t.sent + 1) ∨ fails (t.sent + 2) then t.conn.store
    else setValue t.conn.store c.token
      (.ofJson (newAgent c.hostIP (agentCount t.conn.store) c.ramSize))

section
variable {fails : Nat → Bool} {t t' : FaultyConn HashValue} {c : InitCall}

theorem getAgentJVByToken_run_faulty (ht : t.conn.queue = none) :
    Prog.run (FaultyConn.exec fails) (getAgentJVByToken c.token) t =
      some (found fails t c, { t with sent := t.sent + 1 }) := by
  obtain ⟨⟨s, _⟩, n, aborted⟩ := t
  cases ht
  rw [getAgentJVByToken, Prog.run_bind, Prog.run_command, FaultyConn.exec_alone (by trivial), found]
  split
  · rfl
  · simp only [exec, recordAt, Option.bind_some]
    cases (s.hash agentList).lookup (decimal c.token) with
    | none => rfl
    | some v => cases v <;> rfl

/-- The call sends two or three commands. -/
theorem program_run (fails : Nat → Bool) (c : InitCall) (ht : t.conn.queue = none) : ∃ b m,
    Prog.run (FaultyConn.exec fails) c.program t =
      some (b, ⟨⟨storeAfter fails t c, none⟩, m, t.aborted⟩) := by
  obtain ⟨⟨s, _⟩, n, aborted⟩ := t
  cases ht
  rw [program, initAgent, Prog.run_bind, getAgentJVByToken_run_faulty rfl, Option.bind_some,
    storeAfter]
  cases found fails ⟨⟨s, none⟩, n, aborted⟩ c with
  | some jvv =>
    simp only [Prog.run_bind, Prog.run_command, Option.bind_some]
    rw [FaultyConn.exec_alone (by trivial)]
    split
    · exact ⟨_, _, rfl⟩
    · exact ⟨_, _, rfl⟩
  | none =>
    simp only [Prog.run_bind, Prog.run_command, Option.bind_some]
    rw [FaultyConn.exec_alone (by trivial)]
    by_cases hlen : fails (n + 1)
    · simp only [hlen, true_or, if_true]
      exact ⟨_, _, rfl⟩
    · simp only [hlen, false_or, if_false, Bool.false_eq_true, exec, Reply.isOk, if_true,
        Prog.run_bind, Prog.run_command, Option.bind_some]
      rw [FaultyConn.exec_alone (by trivial)]
      by_cases hset : fails (n + 2)
      · rw [if_pos hset, if_pos hset]
        exact ⟨_, _, rfl⟩
      · rw [if_neg hset, if_neg hset]
        exact ⟨_, _, rfl⟩

theorem step_eq (fails : Nat → Bool) (c : InitCall) (ht : t.conn.queue = none) :
    ∃ m, (machine fails).step t c = some ⟨⟨storeAfter fails t c, none⟩, m, t.aborted⟩ := by
  obtain ⟨b, m, hrun⟩ := program_run fails c ht
  exact ⟨m, by simp only [machine, hrun, Option.map_some]⟩

theorem keeps_iff (ht : t.conn.queue = none) :
    Keeps fails t c ↔ KeepsAgent c.token t.conn.store (storeAfter fails t c) := by
  obtain ⟨m, hstep⟩ := step_eq fails c ht
  simp only [Keeps, hstep, Option.some.injEq, exists_eq_left']

end

/-! ## What it writes -/

section
variable {s : Store HashValue} {token hostIP : Int} {ramSize : BitVec 64} {v : HashValue}
  {r : AgentJson} {jv : AgentRecord}

theorem agentAt_setValue : agentAt (setValue s token v) token = v.agent? := by
  unfold agentAt setValue
  simp only [exec, Function.update_self, AList.lookup_insert, Option.bind_some]

theorem agentAt_of_recordAt (h : recordAt s token = some jv) :
    agentAt s token = some jv.toAgentJson := by
  rw [agentAt, recordAt_eq_some_iff.mp h]
  rfl

theorem numberAt_of_agentAt (h : agentAt s token = some r) :
    numberAt s (decimal token) = some (some r.agentNumber) := by
  obtain ⟨v, hv, hr⟩ := Option.bind_eq_some_iff.mp h
  rw [numberAt, hv, Option.map_some, HashValue.number?, hr, Option.map_some]

/-- All values are agents, so that a token without one has no field. -/
theorem numberAt_of_agentAt_none (hs : Numbered s) (h : agentAt s token = none) :
    numberAt s (decimal token) = none := by
  cases hnumber : numberAt s (decimal token) with
  | none => rfl
  | some x =>
    obtain ⟨n, rfl, -⟩ := hs.range _ x hnumber
    obtain ⟨v, hv, hn⟩ := Option.map_eq_some_iff.mp hnumber
    obtain ⟨r, hr, -⟩ := Option.map_eq_some_iff.mp hn
    rw [agentAt, hv, Option.bind_some, hr] at h
    cases h

theorem KeepsAgent.refl (hs : Numbered s) : KeepsAgent token s s :=
  ⟨fun jv h => ⟨jv, h, rfl, rfl⟩, hs.inj⟩

/-- A lookup that succeeds leads to the same record with `isOn` set. -/
theorem rewrites_turnOn (h : recordAt s token = some jv) :
    Rewrites s (setRecord s token { jv with isOn := true }) :=
  rewrites_hmset (by rw [numberAt_of_recordAt h])

theorem keepsAgent_turnOn (hs : Numbered s) (h : recordAt s token = some jv) :
    KeepsAgent token s (setRecord s token { jv with isOn := true }) where
  record r hr := by
    cases (agentAt_of_recordAt h).symm.trans hr
    exact ⟨_, agentAt_setValue, rfl, rfl⟩
  distinct := ((rewrites_turnOn h).numbered hs).inj

/-- What is written for a new agent. -/
abbrev created (s : Store HashValue) (token hostIP : Int) (ramSize : BitVec 64) : Store HashValue :=
  setValue s token (.ofJson (newAgent hostIP (agentCount s) ramSize))

theorem numbered_create (hs : Numbered s) (h : agentAt s token = none) :
    Numbered (created s token hostIP ramSize) :=
  numbered_hmset hs (numberAt_of_agentAt_none hs h) (by rw [HashValue.number?, agent?_ofJson]; rfl)

theorem keepsAgent_create (hs : Numbered s) (h : agentAt s token = none) :
    KeepsAgent token s (created s token hostIP ramSize) where
  record r hr := by
    rw [h] at hr
    cases hr
  distinct := (numbered_create hs h).inj

/-- The number of a record is not the next one. -/
theorem not_keepsAgent_create (hs : Numbered s) (h : agentAt s token = some r) :
    ¬KeepsAgent token s (created s token hostIP ramSize) := by
  intro hkeeps
  obtain ⟨r', hr', hnumber, -⟩ := hkeeps.record r h
  rw [agentAt_setValue, agent?_ofJson] at hr'
  cases hr'
  obtain ⟨n, hn, hlt⟩ := hs.range _ _ (numberAt_of_agentAt h)
  have heq : (agentCount s : Int) = n := hnumber.trans (Option.some.inj hn)
  omega

end

/-! ## Every sequence of calls -/

section
variable {fails : Nat → Bool} {t t' : FaultyConn HashValue} {c : InitCall}

/-- The call leaves the store, sets `isOn`, or creates a record. -/
theorem storeAfter_cases (fails : Nat → Bool) (t : FaultyConn HashValue) (c : InitCall) :
    (storeAfter fails t c = t.conn.store ∧ LooksUp fails t c) ∨
    (∃ jv, recordAt t.conn.store c.token = some jv ∧ LooksUp fails t c ∧
      storeAfter fails t c = setRecord t.conn.store c.token { jv with isOn := true }) ∨
    ((agentAt t.conn.store c.token = none ↔ LooksUp fails t c) ∧
      storeAfter fails t c = created t.conn.store c.token c.hostIP c.ramSize) := by
  have hcases : found fails t c = none ∧ (fails t.sent ∨ recordAt t.conn.store c.token = none) ∨
      ∃ jv, found fails t c = some jv ∧ ¬fails t.sent ∧ recordAt t.conn.store c.token = some jv := by
    unfold found
    by_cases hlookup : fails t.sent
    · exact .inl ⟨if_pos hlookup, .inl hlookup⟩
    · rw [if_neg hlookup]
      cases recordAt t.conn.store c.token with
      | none => exact .inl ⟨rfl, .inr rfl⟩
      | some jv => exact .inr ⟨jv, rfl, hlookup, rfl⟩
  unfold storeAfter
  rcases hcases with ⟨hfound, hmissed⟩ | ⟨jv, hfound, hlookup, hrecord⟩
  · rw [hfound]
    by_cases h : fails (t.sent + 1) ∨ fails (t.sent + 2)
    · exact .inl ⟨if_pos h, fun _ _ => h⟩
    · refine .inr (.inr ⟨⟨fun hnone hne => absurd hnone hne, fun hlooks => ?_⟩, if_neg h⟩)
      exact by_contra fun hne => h (hlooks hne hmissed)
  · have hlooks : LooksUp fails t c := fun _ hmissed => by simp [hlookup, hrecord] at hmissed
    rw [hfound]
    by_cases h : fails (t.sent + 1)
    · exact .inl ⟨if_pos h, hlooks⟩
    · exact .inr (.inl ⟨jv, hrecord, hlooks, if_neg h⟩)

theorem keepsAgent_iff (ht : Ready t) :
    KeepsAgent c.token t.conn.store (storeAfter fails t c) ↔ LooksUp fails t c := by
  rcases storeAfter_cases fails t c with ⟨heq, hlooks⟩ | ⟨jv, hjv, hlooks, heq⟩ | ⟨hiff, heq⟩
  · rw [heq]
    exact iff_of_true (.refl ht.numbered) hlooks
  · rw [heq]
    exact iff_of_true (keepsAgent_turnOn ht.numbered hjv) hlooks
  · rw [heq, ← hiff]
    constructor
    · intro hkeeps
      cases hrecord : agentAt t.conn.store c.token with
      | none => rfl
      | some r => exact absurd hkeeps (not_keepsAgent_create ht.numbered hrecord)
    · exact keepsAgent_create ht.numbered

theorem Ready.step (ht : Ready t) (hlooks : LooksUp fails t c)
    (hstep : (machine fails).step t c = some t') : Ready t' := by
  obtain ⟨m, heq⟩ := step_eq fails c ht.queue
  cases heq.symm.trans hstep
  refine ⟨rfl, ?_⟩
  change Numbered (storeAfter fails t c)
  rcases storeAfter_cases fails t c with ⟨heq, -⟩ | ⟨jv, hjv, -, heq⟩ | ⟨hiff, heq⟩
  · rw [heq]
    exact ht.numbered
  · rw [heq]
    exact (rewrites_turnOn hjv).numbered ht.numbered
  · rw [heq]
    exact numbered_create ht.numbered (hiff.mpr hlooks)

end

/-- In a sequence of calls every call keeps the agents exactly when no lookup of a record fails, or
finds a text that does not parse, and is followed by two commands that succeed. -/
theorem keepsAgents_iff {fails : Nat → Bool} {s : Store HashValue} (hs : Numbered s)
    (cs : List InitCall) : (machine fails).Meets (Keeps fails) (.start s) cs ↔
      (machine fails).Meets (LooksUp fails) (.start s) cs :=
  EventMachine.meets_congr_of_keeps (J := Ready) (fun ht hlooks hstep => ht.step hlooks hstep)
    (fun ht => (keeps_iff ht.queue).trans (keepsAgent_iff ht)) ⟨rfl, hs⟩

/-- One agent, with the token 7 and the number 0. -/
def oneAgent (ramSize : BitVec 64) : Store HashValue := created .empty 7 1 ramSize

theorem numbered_oneAgent (ramSize : BitVec 64) : Numbered (oneAgent ramSize) :=
  numbered_create (numbered_empty rfl) rfl

theorem keepsAgents_iff_oneAgent : Numbered (oneAgent 0#64) ∧
    ((machine fun n => n == 1).Meets (Keeps fun n => n == 1) (.start (oneAgent 0#64))
        [⟨7, 1, 0#64⟩] ↔
      (machine fun n => n == 1).Meets (LooksUp fun n => n == 1) (.start (oneAgent 0#64))
        [⟨7, 1, 0#64⟩]) :=
  ⟨numbered_oneAgent 0#64, keepsAgents_iff (numbered_oneAgent 0#64) _⟩

/-- The lookup of the agent fails, and it is given the number 1. The same without any error when its
`ramSize` was infinite. -/
theorem lookup_error_renumbers :
    (Numbered (oneAgent 0#64) ∧
      ¬(machine fun n => n == 0).Meets (Keeps fun n => n == 0) (.start (oneAgent 0#64))
        [⟨7, 1, 0#64⟩]) ∧
    ¬(machine fun _ => false).Meets (Keeps fun _ => false) (.start .empty)
      [⟨7, 1, 0x7ff0000000000000#64⟩, ⟨7, 1, 0#64⟩] := by
  have hagent (ramSize : BitVec 64) :
      agentAt (oneAgent ramSize) 7 = some (newAgent 1 0 ramSize) :=
    agentAt_setValue.trans (agent?_ofJson _)
  refine ⟨⟨numbered_oneAgent 0#64, fun h => ?_⟩, fun h => ?_⟩
  · exact not_keepsAgent_create (numbered_oneAgent 0#64) (hagent _) ((keeps_iff rfl).mp h.1)
  · have hkeeps := (h.2 ⟨⟨oneAgent 0x7ff0000000000000#64, none⟩, 3, false⟩ rfl).1
    exact not_keepsAgent_create (numbered_oneAgent _) (hagent _) ((keeps_iff rfl).mp hkeeps)

end InitCall

end PSM
