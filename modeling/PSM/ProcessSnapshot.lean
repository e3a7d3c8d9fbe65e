import PSM.RedisJob
import PSM.StoreSteps

/-! The snapshots of an agent's processes, from the server's store to the web.

A snapshot replaces the one before in a transaction. When a command fails after `MULTI`, the
function returns and the connection is left in the transaction, and a packet that does not parse is
stored as an empty snapshot; otherwise a snapshot is stored as a whole or not at all. The web splits
the text of each process into its IDs, and so has the groups of the last snapshot again
(`getCurrentProcessList_of_snapshot`). -/

namespace PSM
open ByteStr Redis RedisManager

namespace RedisManager

/-! ## Errors in the transaction -/

/-- The snapshot is stored and the function has returned true, or what was stored is still there,
and in both cases the connection is out of the transaction. -/
def AllOrNothing (agentID : Int) (msg : Option Agent.CsCurrentProcessListSend)
    (s : Store HashValue) (b : Bool) (conn : Conn HashValue) : Prop :=
  let key := currentProcessListKey agentID
  ((b = true ∧ ∃ m, msg = some m ∧ conn.store.hash key = snapshot m.processInfo) ∨
    conn.store.hash key = s.hash key) ∧ conn.queue = none

/-- The command of one round of the loop. -/
def setCommand (key : ByteStr) (pi : Agent.CurrentProcess) : Command HashValue :=
  .hmset key pi.processName (.text (processIDText pi.processID))

section
variable {fails : Nat → Bool} {key : ByteStr} {s : Store HashValue}
  {cs : List (Command HashValue)} {n : Nat} {processInfo : List Agent.CurrentProcess}
  {pi : Agent.CurrentProcess}

theorem setProcesses_cons_run {t : FaultyConn HashValue} :
    Prog.run (FaultyConn.exec fails) (setProcesses key (pi :: processInfo)) t =
      let (result, t) := FaultyConn.exec fails (setCommand key pi) t
      if result.isOk then Prog.run (FaultyConn.exec fails) (setProcesses key processInfo) t
      else some (false, t) := by
  rw [setProcesses, Prog.run_bind, Prog.run_command, Option.bind_some]
  dsimp only [setCommand]
  split <;> rfl

theorem exec_setCommand (hn : fails n = false) :
    FaultyConn.exec fails (setCommand key pi) ⟨⟨s, some cs⟩, n, false⟩ =
      (.ok, ⟨⟨s, some (cs ++ [setCommand key pi])⟩, n + 1, false⟩) :=
  FaultyConn.exec_queued (by trivial) hn

theorem setProcesses_run_queued (h : ∀ j < processInfo.length, fails (n + j) = false) :
    Prog.run (FaultyConn.exec fails) (setProcesses key processInfo) ⟨⟨s, some cs⟩, n, false⟩ =
      some (true, ⟨⟨s, some (cs ++ processInfo.map (setCommand key))⟩, n + processInfo.length,
        false⟩) := by
  induction processInfo generalizing cs n with
  | nil => simp [setProcesses]
  | cons pi processInfo ih =>
    have hn : fails n = false := h 0 (by simp)
    have hrest : ∀ j < processInfo.length, fails (n + 1 + j) = false := fun j hj => by
      rw [Nat.add_assoc, Nat.add_comm 1]
      exact h (j + 1) (by simpa using hj)
    rw [setProcesses_cons_run, exec_setCommand hn]
    simp only [Reply.isOk, if_true, ih hrest]
    simp [Nat.add_assoc, Nat.add_comm 1]

/-- The loop ends at the first error, in the transaction. -/
theorem setProcesses_run_fails {j : Nat} (hj : j < processInfo.length) (hfails : fails (n + j)) :
    ∃ t, Prog.run (FaultyConn.exec fails) (setProcesses key processInfo)
      ⟨⟨s, some cs⟩, n, false⟩ = some (false, t) ∧ t.conn.queue ≠ none := by
  induction processInfo generalizing cs n j with
  | nil => cases hj
  | cons pi processInfo ih =>
    rw [setProcesses_cons_run]
    cases hn : fails n with
    | true =>
      have hset : setCommand key pi ≠ .exec := fun h => by cases h
      have herror := FaultyConn.exec_fails (t := ⟨⟨s, some cs⟩, n, false⟩) hset hn
      rw [herror]
      exact ⟨_, rfl, fun h => by cases h⟩
    | false =>
      rw [exec_setCommand hn]
      cases j with
      | zero => exact absurd (hn.symm.trans hfails) (by decide)
      | succ j =>
        have hfails' : fails (n + 1 + j) := by rwa [Nat.add_assoc, Nat.add_comm 1]
        exact ih (Nat.lt_of_succ_lt_succ hj) hfails'

/-- What the transaction stores. -/
theorem execAll_del_setCommands :
    (execAll (.del key :: processInfo.map (setCommand key)) s).hash key =
      snapshot processInfo := by
  have hset : ∀ s : Store HashValue, (execAll (processInfo.map (setCommand key)) s).hash key =
      processInfo.foldl (fun h pi => h.insert pi.processName (.text (processIDText pi.processID)))
        (s.hash key) := by
    intro s
    induction processInfo generalizing s with
    | nil => rfl
    | cons pi processInfo ih =>
      have hcons : execAll ((pi :: processInfo).map (setCommand key)) s =
          execAll (processInfo.map (setCommand key)) (exec (setCommand key pi) s).2 := rfl
      rw [hcons, ih]
      simp [exec, setCommand]
  have hcons : execAll (.del key :: processInfo.map (setCommand key)) s =
      execAll (processInfo.map (setCommand key)) (exec (.del key) s).2 := rfl
  rw [hcons, hset]
  simp [exec, snapshot]

end

section
variable {fails : Nat → Bool} (agentID : Int) {msg : Option Agent.CsCurrentProcessListSend}
  (s : Store HashValue)

theorem saveCurrentProcessList_multi_fails (h : fails 0) :
    Prog.run (FaultyConn.exec fails) (saveCurrentProcessList agentID msg) (.start s) =
      some (false, ⟨⟨s, none⟩, 1, false⟩) := by
  have hmulti := FaultyConn.exec_fails (V := HashValue) (t := .start s) (c := .multi)
    (fun h => by cases h) h
  rw [saveCurrentProcessList, Prog.run_bind, Prog.run_command, Option.bind_some, hmulti]
  rfl

/-- When there is no error at `MULTI` and `DEL`, the loop is next. -/
theorem saveCurrentProcessList_queued (h0 : fails 0 = false) (h1 : fails 1 = false) :
    Prog.run (FaultyConn.exec fails) (saveCurrentProcessList agentID msg) (.start s) =
      (Prog.run (FaultyConn.exec fails)
        (setProcesses (currentProcessListKey agentID) (msg.elim [] (·.processInfo)))
        ⟨⟨s, some [.del (currentProcessListKey agentID)]⟩, 2, false⟩).bind fun r =>
          if r.1 then
            let result := FaultyConn.exec fails .exec r.2
            some (result.1.isOk, result.2)
          else some (false, r.2) := by
  have hok : ¬(!(Reply.ok : Reply HashValue).isOk) = true := by simp [Reply.isOk]
  have hdel : FaultyConn.exec fails (.del (currentProcessListKey agentID))
      ⟨⟨s, some []⟩, 1, false⟩ =
        (.ok, ⟨⟨s, some [.del (currentProcessListKey agentID)]⟩, 2, false⟩) :=
    FaultyConn.exec_queued (by trivial) h1
  simp only [saveCurrentProcessList, Prog.run_bind, Prog.run_command, Option.bind_some,
    FaultyConn.start, FaultyConn.exec_multi h0, hdel, if_neg hok]
  refine congrArg _ (funext fun r => ?_)
  obtain ⟨b, t⟩ := r
  cases b <;> rfl

/-- An error in the transaction, before its `EXEC`. -/
theorem saveCurrentProcessList_fails {j : Nat} (h0 : fails 0 = false)
    (hj : j ≤ (msg.elim [] (·.processInfo)).length) (hfails : fails (j + 1)) :
    ∃ t, Prog.run (FaultyConn.exec fails) (saveCurrentProcessList agentID msg) (.start s) =
      some (false, t) ∧ t.conn.queue ≠ none := by
  cases h1 : fails 1 with
  | true =>
    have hdel := FaultyConn.exec_fails (t := ⟨⟨s, some []⟩, 1, false⟩)
      (c := .del (currentProcessListKey agentID)) (fun h => by cases h) h1
    have hok : ¬(!(Reply.ok : Reply HashValue).isOk) = true := by simp [Reply.isOk]
    simp only [saveCurrentProcessList, Prog.run_bind, Prog.run_command, Option.bind_some,
      FaultyConn.start, FaultyConn.exec_multi h0, hdel, if_neg hok]
    exact ⟨_, rfl, fun h => by cases h⟩
  | false =>
    cases j with
    | zero => exact absurd (h1.symm.trans hfails) (by decide)
    | succ j =>
      have hfails' : fails (2 + j) := by rwa [Nat.add_comm 2 j]
      obtain ⟨t, hrun, hqueue⟩ := setProcesses_run_fails (s := s) hj hfails'
      rw [saveCurrentProcessList_queued agentID s h0 h1, hrun]
      exact ⟨t, rfl, hqueue⟩

theorem saveCurrentProcessList_exec (h0 : fails 0 = false)
    (h : ∀ j ≤ (msg.elim [] (·.processInfo)).length, fails (j + 1) = false) :
    ∃ b t, Prog.run (FaultyConn.exec fails) (saveCurrentProcessList agentID msg) (.start s) =
      some (b, t) ∧ t.conn.queue = none ∧
      if fails ((msg.elim [] (·.processInfo)).length + 2) then t.conn.store = s
      else b = true ∧ t.conn.store.hash (currentProcessListKey agentID) =
        snapshot (msg.elim [] (·.processInfo)) := by
  have hrest : ∀ j < (msg.elim [] (·.processInfo)).length, fails (2 + j) = false :=
    fun j hj => by
      rw [Nat.add_comm 2 j]
      exact h (j + 1) hj
  rw [saveCurrentProcessList_queued agentID s h0 (h 0 (Nat.zero_le _)),
    setProcesses_run_queued hrest, Option.bind_some]
  simp only [if_true, FaultyConn.exec_exec, Nat.add_comm 2]
  split
  · exact ⟨_, _, rfl, rfl, rfl⟩
  · exact ⟨_, _, rfl, rfl, rfl, execAll_del_setCommands⟩

end

/-- A snapshot is stored as a whole or not at all if `MULTI` fails, or none of the commands in the
transaction does and the message has been parsed, or `EXEC` fails, or there is nothing to lose. -/
theorem saveCurrentProcessList_allOrNothing_iff {fails : Nat → Bool} {agentID : Int}
    {msg : Option Agent.CsCurrentProcessListSend} {s : Store HashValue} :
    (∃ b t, Prog.run (FaultyConn.exec fails) (saveCurrentProcessList agentID msg) (.start s) =
        some (b, t) ∧ AllOrNothing agentID msg s b t.conn) ↔
      fails 0 ∨ (∀ j ≤ (msg.elim [] (·.processInfo)).length, fails (j + 1) = false) ∧
        (msg.isSome ∨ fails ((msg.elim [] (·.processInfo)).length + 2) ∨
          s.hash (currentProcessListKey agentID) = ∅) := by
  cases h0 : fails 0 with
  | true =>
    exact ⟨fun _ => .inl rfl, fun _ =>
      ⟨_, _, saveCurrentProcessList_multi_fails agentID s h0, .inr rfl, rfl⟩⟩
  | false =>
    rw [or_iff_right Bool.false_ne_true]
    by_cases h : ∀ j ≤ (msg.elim [] (·.processInfo)).length, fails (j + 1) = false
    · obtain ⟨b, t, hrun, hqueue, hstore⟩ := saveCurrentProcessList_exec agentID s h0 h
      have hresult : (∃ b' t', Prog.run (FaultyConn.exec fails)
          (saveCurrentProcessList agentID msg) (.start s) = some (b', t') ∧
          AllOrNothing agentID msg s b' t'.conn) ↔ AllOrNothing agentID msg s b t.conn := by
        constructor
        · rintro ⟨b', t', hrun', hall⟩
          cases hrun.symm.trans hrun'
          exact hall
        · exact fun hall => ⟨b, t, hrun, hall⟩
      rw [hresult, AllOrNothing, and_iff_left hqueue, and_iff_right h]
      split at hstore
      · rename_i hexec
        exact iff_of_true (.inr (by rw [hstore])) (.inr (.inl hexec))
      · rename_i hexec
        obtain ⟨rfl, hhash⟩ := hstore
        rw [hhash]
        cases msg with
        | some m => exact iff_of_true (.inl ⟨rfl, m, rfl, rfl⟩) (.inl rfl)
        | none =>
          constructor
          · rintro (⟨-, m, hm, -⟩ | hempty)
            · cases hm
            · exact .inr (.inr hempty.symm)
          · rintro (hsome | hexec' | hempty)
            · cases hsome
            · exact absurd hexec' hexec
            · exact .inr hempty.symm
    · refine iff_of_false ?_ fun h' => h h'.1
      push Not at h
      obtain ⟨j, hj, hfails⟩ := h
      replace hfails := Bool.eq_true_of_not_eq_false hfails
      obtain ⟨t, hrun, hqueue⟩ := saveCurrentProcessList_fails agentID s h0 hj hfails
      rintro ⟨b, t', hrun', hall⟩
      cases hrun.symm.trans hrun'
      exact hqueue hall.2

/-- A failed `DEL` leaves the connection in the transaction. -/
theorem saveCurrentProcessList_not_allOrNothing : ∃ b t,
    Prog.run (FaultyConn.exec (· == 1)) (saveCurrentProcessList 0 (some ⟨[]⟩)) (.start .empty) =
      some (b, t) ∧ ¬AllOrNothing 0 (some ⟨[]⟩) .empty b t.conn :=
  ⟨_, _, rfl, fun h => by cases h.2⟩

end RedisManager

/-! ## What the web reads -/

namespace RedisJob

structure ProcessData where
  name : ByteStr
  pids : List ByteStr
  deriving DecidableEq

/-- The pieces of a text, without the last one. -/
def popLast (v : ByteStr) : List ByteStr := (v.splitOn space).dropLast

/-- The hash is listed in some order. There are no agents in it. -/
def getCurrentProcessList (s : Store HashValue) (agentNumber : Int) : Option (List ProcessData) :=
  let key := decimal agentNumber ++ ascii ":CurrentProcessList"
  (s.hash key).entries.mapM fun
    | ⟨k, .text v⟩ => some ⟨k, popLast v⟩
    | _ => none

end RedisJob

/-- What the web shows for a group. -/
def Agent.CurrentProcess.data (pi : Agent.CurrentProcess) : RedisJob.ProcessData :=
  ⟨pi.processName, pi.processID.map fun pid => decimal pid.toInt⟩

theorem splitOn_processIDText (processID : List (BitVec 32)) :
    (processIDText processID).splitOn RedisJob.space =
      (processID.map fun pid => decimal pid.toInt) ++ [[]] := by
  induction processID with
  | nil => rfl
  | cons pid processID ih =>
    have hascii : ascii " " = [RedisJob.space] := rfl
    have hcons : processIDText (pid :: processID) =
        decimal pid.toInt ++ RedisJob.space :: processIDText processID := by
      rw [processIDText, List.flatMap_cons, hascii, List.append_assoc, List.singleton_append]
      rfl
    rw [hcons, List.splitOn_append_cons_self_of_not_mem (space_notMem_decimal _), ih]
    rfl

/-- Encoding the IDs and splitting the text again. -/
theorem popLast_processIDText (processID : List (BitVec 32)) :
    RedisJob.popLast (processIDText processID) = processID.map fun pid => decimal pid.toInt := by
  rw [RedisJob.popLast, splitOn_processIDText, List.dropLast_concat]

/-- With distinct names, the hash has one entry for each group. -/
theorem entries_snapshot {processInfo : List Agent.CurrentProcess}
    (h : (processInfo.map (·.processName)).Nodup) :
    (snapshot processInfo).entries.Perm
      (processInfo.map fun pi => ⟨pi.processName, .text (processIDText pi.processID)⟩) := by
  induction processInfo using List.reverseRecOn with
  | nil => exact .refl _
  | append_singleton processInfo pi ih =>
    rw [List.map_append, List.map_singleton, List.nodup_append] at h
    obtain ⟨hnodup, -, hdisjoint⟩ := h
    have hnew : pi.processName ∉ snapshot processInfo := by
      intro hmem
      obtain ⟨v, hv⟩ := List.mem_keys.mp (AList.mem_keys.mp hmem)
      obtain ⟨pi', hpi', heq⟩ := List.mem_map.mp ((ih hnodup).mem_iff.mp hv)
      exact hdisjoint _ (List.mem_map_of_mem hpi') _ (List.mem_singleton_self _)
        (congrArg Sigma.fst heq)
    have hlast : snapshot (processInfo ++ [pi]) = (snapshot processInfo).insert pi.processName
        (.text (processIDText pi.processID)) := by
      rw [snapshot, List.foldl_append]
      rfl
    rw [hlast, AList.entries_insert_of_notMem hnew, List.map_append, List.map_singleton]
    exact ((ih hnodup).cons _).trans (List.perm_append_singleton _ _).symm

/-- The web has the groups of a stored snapshot again, with their IDs. -/
theorem getCurrentProcessList_of_snapshot {s : Store HashValue} {agentID : Int}
    {processInfo : List Agent.CurrentProcess} (hnodup : (processInfo.map (·.processName)).Nodup)
    (h : s.hash (currentProcessListKey agentID) = snapshot processInfo) :
    ∃ list, RedisJob.getCurrentProcessList s agentID = some list ∧
      list.Perm (processInfo.map Agent.CurrentProcess.data) := by
  have hkey : decimal agentID ++ ascii ":CurrentProcessList" = currentProcessListKey agentID := rfl
  have hperm := entries_snapshot hnodup
  rw [RedisJob.getCurrentProcessList, hkey, h]
  refine ⟨_, mapM_eq_some_map (g := fun e => match e.2 with
    | .text v => ⟨e.1, RedisJob.popLast v⟩
    | _ => ⟨e.1, []⟩) fun e he => ?_, ?_⟩
  · obtain ⟨pi, -, rfl⟩ := List.mem_map.mp (hperm.mem_iff.mp he)
    rfl
  · refine (hperm.map _).trans (List.Perm.of_eq ?_)
    rw [List.map_map]
    refine List.map_congr_left fun pi _ => ?_
    simp [Agent.CurrentProcess.data, popLast_processIDText]

namespace Server

variable {ι : Type} [DecidableEq ι]

/-- A snapshot of the processes of the agent. -/
def IsSnapshotOf (agentID : Int) (s : Server ι) : ServerEvent ι → Prop
  | .agent i _ (.currentProcessListSend _) => (s.socket i).agentID = agentID
  | _ => False

theorem currentProcessListKey_injective : Function.Injective currentProcessListKey :=
  fun _ _ h => (decimal_colon_inj.mp h).1

/-- Nothing else changes the stored snapshot. -/
theorem hash_currentProcessListKey_step {ext : Externals} {s s' : Server ι} {e : ServerEvent ι}
    {agentID : Int} (he : ¬IsSnapshotOf agentID s e) (h : (machine ext).step s e = some s') :
    s'.store.hash (currentProcessListKey agentID) =
      s.store.hash (currentProcessListKey agentID) := by
  by_cases hdata : SendsData e
  · obtain ⟨i, now, ⟨msg, rfl⟩ | ⟨info, rfl⟩ | ⟨info, rfl⟩⟩ := sendsData_cases hdata
    · rw [(currentProcessListSend_step h).1]
      exact Function.update_of_ne (fun hkey => he (currentProcessListKey_injective hkey).symm) ..
    · rw [(processInfoSend_step h).1]
    · rw [(machineInfoSend_step h).1]
  · exact (keepsData_step hdata h).hash _ agentKey_ne_agentList

end Server

/-- After the last snapshot of an agent, whatever was stored before it and whatever else comes after
it, the web shows exactly its groups. -/
theorem getCurrentProcessList_last {ι : Type} [DecidableEq ι] {ext : Externals}
    {s s' s'' : Server ι} {i : ι} {now : Int} {msg : Agent.CsCurrentProcessListSend}
    {es : List (ServerEvent ι)} (hnodup : (msg.processInfo.map (·.processName)).Nodup)
    (hsend : (Server.machine ext).step s (.agent i now (.currentProcessListSend (some msg))) =
      some s')
    (hlast : (Server.machine ext).Meets
      (fun t e => ¬Server.IsSnapshotOf (s.socket i).agentID t e) s' es)
    (hrun : (Server.machine ext).run s' es = some s'') :
    ∃ list, RedisJob.getCurrentProcessList s''.store (s.socket i).agentID = some list ∧
      list.Perm (msg.processInfo.map Agent.CurrentProcess.data) := by
  refine getCurrentProcessList_of_snapshot hnodup ?_
  have hkept : s''.store.hash (currentProcessListKey (s.socket i).agentID) =
      s'.store.hash (currentProcessListKey (s.socket i).agentID) :=
    hlast.run_view (fun t : Server ι => t.store.hash (currentProcessListKey _))
      Server.hash_currentProcessListKey_step hrun
  rw [hkept, (Server.currentProcessListSend_step hsend).1, Function.update_self]
  rfl

def noTexts : Externals := .ofTexts []

theorem getCurrentProcessList_last_two : ∃ (s : Server Unit) (list : List RedisJob.ProcessData),
    (Server.machine noTexts).run (.init .empty) [.accept false (),
      .agent () 0 (.agentIDRequest 7 1 0),
      .agent () 0 (.currentProcessListSend (some ⟨[⟨ascii "c", [3]⟩]⟩)),
      .agent () 0 (.currentProcessListSend (some ⟨[⟨ascii "a", [1, -2]⟩, ⟨ascii "b", []⟩]⟩)),
      .agent () 0 .agentReady] = some s ∧
    RedisJob.getCurrentProcessList s.store 0 = some list ∧
      list.Perm [⟨ascii "a", [ascii "1", ascii "-2"]⟩, ⟨ascii "b", []⟩] := by
  obtain ⟨s, hs, hsend⟩ : ∃ s : Server Unit, (Server.machine noTexts).run (.init .empty)
      [.accept false (), .agent () 0 (.agentIDRequest 7 1 0),
        .agent () 0 (.currentProcessListSend (some ⟨[⟨ascii "c", [3]⟩]⟩))] = some s ∧
      (s.socket ()).agentID = 0 := ⟨_, rfl, rfl⟩
  obtain ⟨s', hs'⟩ : ∃ s', (Server.machine noTexts).step s (.agent () 0
      (.currentProcessListSend (some ⟨[⟨ascii "a", [1, -2]⟩, ⟨ascii "b", []⟩]⟩))) = some s' := by
    cases hs
    exact ⟨_, rfl⟩
  obtain ⟨s'', hs''⟩ : ∃ s'', (Server.machine noTexts).run s' [.agent () 0 .agentReady] =
      some s'' := by
    cases hs
    cases hs'
    exact ⟨_, rfl⟩
  have hlast : (Server.machine noTexts).Meets
      (fun t e => ¬Server.IsSnapshotOf (s.socket ()).agentID t e) s' [.agent () 0 .agentReady] :=
    ⟨id, fun _ _ => trivial⟩
  obtain ⟨list, hlist, hperm⟩ := getCurrentProcessList_last (by decide) hs' hlast hs''
  rw [hsend] at hlist
  refine ⟨s'', list, ?_, hlist, hperm⟩
  cases hs
  cases hs'
  exact hs''

end PSM
