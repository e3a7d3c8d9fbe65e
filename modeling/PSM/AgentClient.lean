import PSM.AgentServer
import PSM.Lib.Replica

/-! The client's lists (`Query`), and the handler that keeps them up to date (`AgentClientSocket`).

Each of the three lists is a replica of a set of the server. What a message does to it is an update
in the sense of `Replica`, as long as the list has no duplicates (`query_packetHandling`). -/

namespace PSM
open ByteStr Replica

/-! ## Query -/

structure Query where
  checkProcessList : List ByteStr := []
  counterList : List ByteStr := []
  machineCounterList : List ByteStr := []

namespace Query

/-- The loop and the `push_back` of the `Add` functions. -/
def pushNew (list : List ByteStr) (x : ByteStr) : Bool × List ByteStr :=
  if x ∈ list then (false, list) else (true, list ++ [x])

def addCounter (q : Query) (counter : ByteStr) (isMachine : Bool) : Bool × Query :=
  if isMachine then
    let (added, list) := pushNew q.machineCounterList counter
    (added, { q with machineCounterList := list })
  else
    let (added, list) := pushNew q.counterList counter
    (added, { q with counterList := list })

/-- `remove` takes all equal elements out. -/
def deleteCounter (q : Query) (counter : ByteStr) (isMachine : Bool) : Bool × Query :=
  (true,
    if isMachine then { q with machineCounterList := q.machineCounterList.filter (· ≠ counter) }
    else { q with counterList := q.counterList.filter (· ≠ counter) })

def addProcess (q : Query) (processName : ByteStr) : Bool × Query :=
  let (added, list) := pushNew q.checkProcessList processName
  (added, { q with checkProcessList := list })

/-- The first equal element is taken out. -/
def deleteProcess (q : Query) (processName : ByteStr) : Bool × Query :=
  if processName ∈ q.checkProcessList then
    (true, { q with checkProcessList := q.checkProcessList.erase processName })
  else (false, q)

end Query

/-! ## AgentClientSocket -/

/-- `agentID` is a field of the application. -/
structure AgentClientSocket where
  isConnect : Bool := false
  disconnectCall : Bool := false
  agentID : Int := -1
  query : Query := {}

namespace AgentClientSocket

/-- The senders do nothing when there is no connection. -/
def sendIfConnected (c : AgentClientSocket) (msg : AgentMessage) : List AgentMessage :=
  if c.isConnect then [msg] else []

/-- The client afterwards, and what it sends. `tempAddr` is the address of the host. -/
def connProcess (c : AgentClientSocket) (isError : Bool) (tempAddr : Int) (ramSize : BitVec 64) :
    AgentClientSocket × List AgentMessage :=
  if isError then (c, [])
  else
    let c := { c with isConnect := true }
    (c, c.sendIfConnected (.agentIDRequest tempAddr tempAddr ramSize))

/-- The client afterwards, and what it sends. Recording is left out but for the response. -/
def packetHandling (c : AgentClientSocket) : ServerMessage → AgentClientSocket × List AgentMessage
  | .agentIDResponse agentID alreadyRunning =>
    if alreadyRunning then ({ c with disconnectCall := true }, [])
    else ({ c with agentID }, c.sendIfConnected .processListRequest)
  | .processListResponse processName =>
    let query := processName.foldl (fun q x => (q.addProcess x).2) c.query
    ({ c with query }, c.sendIfConnected (.counterListRequest false))
  | .counterListResponse isMachine counterName =>
    let query := counterName.foldl (fun q x => (q.addCounter x isMachine).2) c.query
    ({ c with query }, c.sendIfConnected (if isMachine then .agentReady else .counterListRequest true))
  | .startRecord .. => (c, c.sendIfConnected .recordResponse)
  | .processCommandRequest type processName =>
    match type with
    | .addList => ({ c with query := (c.query.addProcess processName).2 }, [])
    | .deleteList => ({ c with query := (c.query.deleteProcess processName).2 }, [])
    | _ => (c, [])
  | .counterCommandRequest isMachine type counterName =>
    match type with
    | .cAddList => ({ c with query := (c.query.addCounter counterName isMachine).2 }, [])
    | .cDeleteList => ({ c with query := (c.query.deleteCounter counterName isMachine).2 }, [])

end AgentClientSocket

/-! ## The lists as replicas -/

/-- The lists that the client keeps. -/
inductive ListKind where
  | process
  | counter (isMachine : Bool)
  deriving DecidableEq

def Query.list (q : Query) : ListKind → List ByteStr
  | .process => q.checkProcessList
  | .counter false => q.counterList
  | .counter true => q.machineCounterList

/-- A list as a set. -/
def Query.content (q : Query) (kind : ListKind) : Set ByteStr := {x | x ∈ q.list kind}

/-- What a message does to a list. -/
def ServerMessage.update (kind : ListKind) : ServerMessage → Update ByteStr
  | .processListResponse processName => if kind = .process then .add processName else .keep
  | .counterListResponse isMachine counterName =>
    if kind = .counter isMachine then .add counterName else .keep
  | .processCommandRequest .addList processName =>
    if kind = .process then .add [processName] else .keep
  | .processCommandRequest .deleteList processName =>
    if kind = .process then .remove processName else .keep
  | .counterCommandRequest isMachine .cAddList counterName =>
    if kind = .counter isMachine then .add [counterName] else .keep
  | .counterCommandRequest isMachine .cDeleteList counterName =>
    if kind = .counter isMachine then .remove counterName else .keep
  | _ => .keep

namespace Query

theorem mem_pushNew {list : List ByteStr} {x y : ByteStr} :
    y ∈ (pushNew list x).2 ↔ y ∈ list ∨ y = x := by
  unfold pushNew
  split
  · rename_i h
    exact ⟨.inl, fun hy => hy.elim id fun e => e ▸ h⟩
  · simp

theorem nodup_pushNew {list : List ByteStr} {x : ByteStr} (h : list.Nodup) :
    (pushNew list x).2.Nodup := by
  unfold pushNew
  split
  · exact h
  · rename_i hx
    exact h.append (List.nodup_singleton x) (by simpa using hx)

/-- One list is changed by a function and the others stay. -/
def Changes (q q' : Query) (kind : ListKind) (f : List ByteStr → List ByteStr) : Prop :=
  ∀ kind', q'.list kind' = if kind' = kind then f (q.list kind') else q.list kind'

section
variable {q q' q'' : Query} {kind : ListKind} {f g : List ByteStr → List ByteStr} {x : ByteStr}
  {isMachine : Bool}

theorem Changes.trans (h : q.Changes q' kind f) (h' : q'.Changes q'' kind g) :
    q.Changes q'' kind (g ∘ f) := by
  intro kind'
  rw [h' kind', h kind']
  split <;> rfl

theorem changes_addProcess : q.Changes (q.addProcess x).2 .process fun l => (pushNew l x).2
  | .process => rfl
  | .counter false => rfl
  | .counter true => rfl

theorem changes_deleteProcess : q.Changes (q.deleteProcess x).2 .process (·.erase x) := by
  intro kind'
  unfold deleteProcess
  split
  · rcases kind' with _ | _ | _ <;> rfl
  · rename_i hx
    rcases kind' with _ | _ | _
    · exact (List.erase_of_not_mem hx).symm
    · rfl
    · rfl

theorem changes_addCounter : q.Changes (q.addCounter x isMachine).2 (.counter isMachine)
    fun l => (pushNew l x).2 := by
  intro kind'
  cases isMachine <;> rcases kind' with _ | _ | _ <;> rfl

theorem changes_deleteCounter : q.Changes (q.deleteCounter x isMachine).2 (.counter isMachine)
    (·.filter (· ≠ x)) := by
  intro kind'
  cases isMachine <;> rcases kind' with _ | _ | _ <;> rfl

theorem changes_foldl {add : Query → ByteStr → Query}
    (hadd : ∀ (q : Query) x, q.Changes (add q x) kind fun l => (pushNew l x).2) (xs : List ByteStr) :
    q.Changes (xs.foldl add q) kind (xs.foldl (fun l x => (pushNew l x).2)) := by
  induction xs generalizing q with
  | nil => intro kind'; simp
  | cons x xs ih => exact (hadd q x).trans ih

theorem mem_foldl_pushNew {list xs : List ByteStr} :
    x ∈ xs.foldl (fun l x => (pushNew l x).2) list ↔ x ∈ list ∨ x ∈ xs := by
  induction xs generalizing list with
  | nil => simp
  | cons y xs ih => rw [List.foldl_cons, ih, mem_pushNew, List.mem_cons, or_assoc]

theorem nodup_foldl_pushNew {list xs : List ByteStr} (h : list.Nodup) :
    (xs.foldl (fun l x => (pushNew l x).2) list).Nodup := by
  induction xs generalizing list with
  | nil => exact h
  | cons y xs ih => exact ih (nodup_pushNew h)

theorem Changes.nodup (h : q.Changes q' kind f) {kind' : ListKind} (hq : (q.list kind').Nodup)
    (hf : ∀ l : List ByteStr, l.Nodup → (f l).Nodup) : (q'.list kind').Nodup := by
  rw [h kind']
  split
  · exact hf _ hq
  · exact hq

/-- A change that is an update of the list's content. -/
theorem Changes.content (h : q.Changes q' kind f) {u : Update ByteStr} {kind' : ListKind}
    (hf : kind' = kind → ∀ x, x ∈ f (q.list kind) ↔ x ∈ u.apply (q.content kind)) :
    q'.content kind' = (if kind' = kind then u else .keep).apply (q.content kind') := by
  ext x
  change x ∈ q'.list kind' ↔ _
  rw [h kind']
  by_cases hk : kind' = kind
  · subst hk
    rw [if_pos rfl, if_pos rfl, hf rfl]
  · rw [if_neg hk, if_neg hk]
    rfl

end

end Query

namespace AgentClientSocket

/-- A message does to a list what its update does to the content, and makes no duplicates. -/
theorem query_packetHandling {c : AgentClientSocket} {kind : ListKind}
    (hc : (c.query.list kind).Nodup) (msg : ServerMessage) :
    ((c.packetHandling msg).1.query.list kind).Nodup ∧
      (c.packetHandling msg).1.query.content kind =
        (msg.update kind).apply (c.query.content kind) := by
  cases msg with
  | agentIDResponse agentID alreadyRunning =>
    cases alreadyRunning <;> exact ⟨hc, rfl⟩
  | processListResponse processName =>
    have h : c.query.Changes _ .process _ :=
      Query.changes_foldl (fun _ _ => Query.changes_addProcess) processName
    exact ⟨h.nodup hc fun _ => Query.nodup_foldl_pushNew,
      h.content fun _ _ => Query.mem_foldl_pushNew⟩
  | counterListResponse isMachine counterName =>
    have h : c.query.Changes _ (.counter isMachine) _ :=
      Query.changes_foldl (fun _ _ => Query.changes_addCounter) counterName
    exact ⟨h.nodup hc fun _ => Query.nodup_foldl_pushNew,
      h.content fun _ _ => Query.mem_foldl_pushNew⟩
  | startRecord => exact ⟨hc, rfl⟩
  | processCommandRequest type processName =>
    cases type with
    | addList =>
      exact ⟨Query.changes_addProcess.nodup hc fun _ => Query.nodup_pushNew,
        Query.changes_addProcess.content (u := .add [processName]) fun _ _ =>
          Query.mem_pushNew.trans (by simp [Update.apply, Query.content, or_comm])⟩
    | deleteList =>
      refine ⟨Query.changes_deleteProcess.nodup hc fun _ h => h.erase _,
        Query.changes_deleteProcess.content (u := .remove processName) fun hkind _ => ?_⟩
      subst hkind
      rw [hc.mem_erase_iff]
      exact and_comm
    | _ => exact ⟨hc, rfl⟩
  | counterCommandRequest isMachine type counterName =>
    cases type with
    | cAddList =>
      exact ⟨Query.changes_addCounter.nodup hc fun _ => Query.nodup_pushNew,
        Query.changes_addCounter.content (u := .add [counterName]) fun _ _ =>
          Query.mem_pushNew.trans (by simp [Update.apply, Query.content, or_comm])⟩
    | cDeleteList =>
      exact ⟨Query.changes_deleteCounter.nodup hc fun _ h => h.filter _,
        Query.changes_deleteCounter.content (u := .remove counterName) fun _ _ => by
          simp [Update.apply, Query.content]⟩

end AgentClientSocket

end PSM
