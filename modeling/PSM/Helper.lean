import PSM.Sender

/-! The client's snapshot of processes (`Helper`) and the message with it.

`UpdateProcessList` numbers the processes of one name in the order of the snapshot and sorts them by
name, and `SendCurrentProcessList` starts a group at each change of the name. It takes the empty name
for the one before the first, so that processes whose name is empty are lost; no others are
(`complete_iff`). -/

namespace PSM
open ByteStr Agent

/-! ## The process list -/

/-- An entry of the snapshot. -/
structure ProcessEntry where
  szExeFile : ByteStr
  th32ProcessID : BitVec 32

/-- A `ProcessInfo` with its number. -/
structure NumberedProcess extends ProcessInfo where
  number : Nat

namespace Helper

/-- `substr(0, length() - 4)`. The subtraction of a shorter name wraps around, and the whole name is
taken. -/
def stripped (processName : ByteStr) : ByteStr :=
  if processName.length < 4 then processName else processName.take (processName.length - 4)

def checkDuplicateProcessName (processList : List NumberedProcess) (name : ByteStr) : Nat :=
  processList.countP fun p => p.name = name

/-- The loop of `UpdateProcessList`, after the first two entries. -/
def pushProcesses : List NumberedProcess → List ProcessEntry → List NumberedProcess
  | processList, [] => processList
  | processList, e :: es =>
    let name := stripped e.szExeFile
    let cnt := checkDuplicateProcessName processList name
    pushProcesses (processList ++ [⟨⟨name, e.th32ProcessID⟩, cnt⟩]) es

/-- What `UpdateProcessList` can make of a snapshot. `sort` leaves processes of one name in any
order. -/
structure UpdateProcessList (snapshot : List ProcessEntry) (processList : List NumberedProcess) :
    Prop where
  perm : processList.Perm (pushProcesses [] (snapshot.drop 2))
  sorted : processList.Pairwise fun p q => p.name ≤ q.name

/-! ## The groups -/

/-- The processes of a message, with the names of their groups. -/
def pairs (groups : List CurrentProcess) : List (ByteStr × BitVec 32) :=
  groups.flatMap fun g => g.processID.map (g.processName, ·)

def names (groups : List CurrentProcess) : List ByteStr := groups.map (·.processName)

@[simp] theorem names_concat (groups : List CurrentProcess) (name : ByteStr)
    (pids : List (BitVec 32)) : names (groups ++ [⟨name, pids⟩]) = names groups ++ [name] := by
  simp [names]

/-- Every name has one group, and every process is in the group of its name. -/
structure Complete (msg : CsCurrentProcessListSend) (processList : List ProcessInfo) : Prop where
  nodup : (names msg.processInfo).Nodup
  mem_names : ∀ name, name ∈ names msg.processInfo ↔ ∃ p ∈ processList, p.name = name
  perm : (pairs msg.processInfo).Perm (processList.map fun p => (p.name, p.processID))

section
variable {groups : List CurrentProcess} {cur name : ByteStr} {pids : List (BitVec 32)}
  {p : ProcessInfo} {l : List ProcessInfo}

/-- A process of the current name is added to the last group. -/
theorem addProcesses_cons_self : addProcesses p.name (groups ++ [⟨p.name, pids⟩]) (p :: l) =
    addProcesses p.name (groups ++ [⟨p.name, pids ++ [p.processID]⟩]) l := by
  simp [addProcesses]

/-- A process of another name starts a group. -/
theorem addProcesses_cons_of_ne (h : cur ≠ p.name) : addProcesses cur groups (p :: l) =
    addProcesses p.name (groups ++ [⟨p.name, [p.processID]⟩]) l := by
  simp [addProcesses, h]

/-- Before there is a group, a process of the current name is lost. -/
theorem addProcesses_cons_lost : addProcesses p.name [] (p :: l) = addProcesses p.name [] l := by
  simp [addProcesses]

/-- Once there is a group, no process is lost. -/
theorem pairs_addProcesses : pairs (addProcesses cur (groups ++ [⟨cur, pids⟩]) l) =
    pairs (groups ++ [⟨cur, pids⟩]) ++ l.map fun p => (p.name, p.processID) := by
  induction l generalizing cur groups pids with
  | nil => exact (List.append_nil _).symm
  | cons p l ih =>
    by_cases h : cur = p.name
    · subst h
      rw [addProcesses_cons_self, ih]
      simp [pairs]
    · rw [addProcesses_cons_of_ne h, ih]
      simp [pairs]

theorem mem_names_addProcesses :
    name ∈ names (addProcesses cur (groups ++ [⟨cur, pids⟩]) l) ↔
      name ∈ names groups ++ [cur] ∨ ∃ p ∈ l, p.name = name := by
  induction l generalizing cur groups pids with
  | nil => simp [addProcesses]
  | cons p l ih =>
    by_cases h : cur = p.name
    · subst h
      rw [addProcesses_cons_self, ih]
      simp only [List.mem_append, List.mem_singleton, List.exists_mem_cons_iff, or_assoc,
        eq_comm (a := p.name), or_self_left]
    · rw [addProcesses_cons_of_ne h, ih, names_concat]
      simp only [List.mem_append, List.mem_singleton, List.exists_mem_cons_iff, or_assoc,
        eq_comm (a := p.name)]

/-- Each name above the current one gets one new group. -/
theorem nodup_names_addProcesses (hnodup : (names groups ++ [cur]).Nodup)
    (hle : ∀ n ∈ names groups, n ≤ cur) (hl : ∀ p ∈ l, cur ≤ p.name)
    (hsorted : l.Pairwise fun p q => p.name ≤ q.name) :
    (names (addProcesses cur (groups ++ [⟨cur, pids⟩]) l)).Nodup := by
  induction l generalizing cur groups pids with
  | nil => rwa [addProcesses, names_concat]
  | cons p l ih =>
    obtain ⟨hp, hsorted⟩ := List.pairwise_cons.mp hsorted
    by_cases h : cur = p.name
    · subst h
      rw [addProcesses_cons_self]
      exact ih hnodup hle hp hsorted
    · have hcur : cur ≤ p.name := hl p List.mem_cons_self
      have hle' : ∀ n ∈ names groups ++ [cur], n ≤ cur := by
        rw [List.forall_mem_append, List.forall_mem_singleton]
        exact ⟨hle, List.le_refl cur⟩
      rw [addProcesses_cons_of_ne h]
      refine ih ?_ ?_ hp hsorted
      · rw [names_concat]
        refine List.nodup_append.mpr ⟨hnodup, List.nodup_singleton _, ?_⟩
        rintro n hn m hm rfl
        -- the new name would not be above the current one
        obtain rfl := List.mem_singleton.mp hm
        exact h (List.le_antisymm hcur (hle' _ hn))
      · rw [names_concat]
        exact fun n hn => List.le_trans (hle' n hn) hcur

/-- Before there is a group, a process may be lost, but none is added. -/
theorem length_pairs_addProcesses_le : (pairs (addProcesses cur [] l)).length ≤ l.length := by
  induction l with
  | nil => exact le_rfl
  | cons p l ih =>
    by_cases h : cur = p.name
    · subst h
      rw [addProcesses_cons_lost]
      exact Nat.le_succ_of_le ih
    · rw [addProcesses_cons_of_ne h, pairs_addProcesses]
      simp [pairs]

/-- In a sorted list without the empty name, every name gets its group. -/
theorem complete_of_ne_nil (hsorted : l.Pairwise fun p q => p.name ≤ q.name)
    (h : ∀ p ∈ l, p.name ≠ []) : Complete (currentProcessList l) l := by
  cases l with
  | nil => exact ⟨List.nodup_nil, by simp [currentProcessList, addProcesses, names], .refl _⟩
  | cons p l =>
    obtain ⟨hp, hsorted⟩ := List.pairwise_cons.mp hsorted
    have hne : [] ≠ p.name := (h p List.mem_cons_self).symm
    unfold currentProcessList
    rw [addProcesses_cons_of_ne hne]
    refine ⟨nodup_names_addProcesses (by simp [names]) (by simp [names]) hp hsorted,
      fun name => ?_, ?_⟩
    · rw [mem_names_addProcesses]
      simp [names, eq_comm]
    · rw [pairs_addProcesses]
      simp [pairs]

/-- The empty name comes first, and its processes are lost. -/
theorem not_complete_of_nil (hsorted : l.Pairwise fun p q => p.name ≤ q.name) {p : ProcessInfo}
    (hp : p ∈ l) (hname : p.name = []) : ¬Complete (currentProcessList l) l := by
  intro hcomplete
  cases l with
  | nil => cases hp
  | cons q l =>
    have hfirst : q.name = [] := by
      rcases List.mem_cons.mp hp with rfl | hp
      · exact hname
      · have hle := (List.pairwise_cons.mp hsorted).1 p hp
        rwa [hname, List.le_nil] at hle
    have hlength : (pairs (addProcesses q.name [] l)).length = l.length + 1 := by
      have hperm := hcomplete.perm.length_eq
      unfold currentProcessList at hperm
      rwa [← hfirst, addProcesses_cons_lost, List.length_map, List.length_cons] at hperm
    have hle : (pairs (addProcesses q.name [] l)).length ≤ l.length := length_pairs_addProcesses_le
    omega

end

/-! ## The numbers -/

/-- The processes of the snapshot, each with the number of those before it that have its name. -/
def numbered (before : List ProcessEntry) : List ProcessEntry → List NumberedProcess
  | [] => []
  | e :: es =>
    ⟨⟨stripped e.szExeFile, e.th32ProcessID⟩,
      before.countP fun e' => stripped e'.szExeFile = stripped e.szExeFile⟩ ::
      numbered (before ++ [e]) es

section
variable {before es : List ProcessEntry} {processList : List NumberedProcess}

theorem pushProcesses_eq (h : ∀ name, checkDuplicateProcessName processList name =
      before.countP fun e => stripped e.szExeFile = name) :
    pushProcesses processList es = processList ++ numbered before es := by
  induction es generalizing before processList with
  | nil => exact (List.append_nil _).symm
  | cons e es ih =>
    rw [pushProcesses, @ih (before ++ [e])]
    · simp only [numbered, h, List.append_assoc, List.singleton_append]
    · intro name
      rw [checkDuplicateProcessName, List.countP_append, List.countP_append,
        ← checkDuplicateProcessName, h]
      simp [List.countP_cons]

theorem UpdateProcessList.perm_numbered {snapshot : List ProcessEntry}
    (h : UpdateProcessList snapshot processList) :
    processList.Perm (numbered [] (snapshot.drop 2)) := by
  have hpush := h.perm
  rwa [@pushProcesses_eq [] _ [] fun _ => rfl] at hpush

theorem mem_numbered {name : ByteStr} : (∃ p ∈ numbered before es, p.name = name) ↔
    ∃ e ∈ es, stripped e.szExeFile = name := by
  induction es generalizing before with
  | nil => simp [numbered]
  | cons e es ih => simp only [numbered, List.exists_mem_cons_iff, ih]

/-- The processes of a name have consecutive numbers. -/
theorem numbers_numbered (name : ByteStr) :
    ((numbered before es).filter (·.name = name)).map (·.number) =
      List.range' (before.countP fun e => stripped e.szExeFile = name)
        (es.countP fun e => stripped e.szExeFile = name) := by
  induction es generalizing before with
  | nil => rfl
  | cons e es ih =>
    by_cases h : stripped e.szExeFile = name
    · subst h
      rw [numbered, List.filter_cons_of_pos (by simp), List.map_cons, ih, List.countP_append,
        List.countP_singleton, if_pos (by simp), List.countP_cons_of_pos (by simp),
        List.range'_succ]
    · rw [numbered, List.filter_cons_of_neg (by simpa using h), ih, List.countP_append,
        List.countP_singleton, if_neg (by simpa using h), List.countP_cons_of_neg (by simpa using h),
        Nat.add_zero]

end

/-! ## The message -/

/-- What `UpdateProcessList` makes of a snapshot is sent complete exactly when no name in it is
empty once it is stripped. -/
theorem complete_iff {snapshot : List ProcessEntry} {processList : List NumberedProcess}
    (h : UpdateProcessList snapshot processList) :
    Complete (currentProcessList (processList.map (·.toProcessInfo)))
        (processList.map (·.toProcessInfo)) ↔
      ∀ e ∈ snapshot.drop 2, stripped e.szExeFile ≠ [] := by
  have hsorted : (processList.map (·.toProcessInfo)).Pairwise fun p q => p.name ≤ q.name :=
    List.pairwise_map.mpr h.sorted
  have hnames : ∀ name, (∃ p ∈ processList.map (·.toProcessInfo), p.name = name) ↔
      ∃ e ∈ snapshot.drop 2, stripped e.szExeFile = name := by
    intro name
    rw [← @mem_numbered []]
    simp only [List.mem_map, exists_exists_and_eq_and, h.perm_numbered.mem_iff]
  constructor
  · intro hcomplete e he hname
    obtain ⟨p, hp, hnil⟩ := (hnames []).mpr ⟨e, he, hname⟩
    exact not_complete_of_nil hsorted hp hnil hcomplete
  · intro hne
    refine complete_of_ne_nil hsorted fun p hp hname => ?_
    obtain ⟨e, he, hstripped⟩ := (hnames []).mp ⟨p, hp, hname⟩
    exact hne e he hstripped

def systemEntries : List ProcessEntry :=
  [⟨ascii "[System Process]", 0⟩, ⟨ascii "System", 4⟩]

def twoProcesses : List ProcessEntry :=
  systemEntries ++ [⟨ascii "b.exe", 7⟩, ⟨ascii "a.exe", 3⟩]

theorem complete_iff_twoProcesses :
    Complete (currentProcessList [⟨ascii "a", 3⟩, ⟨ascii "b", 7⟩])
        [⟨ascii "a", 3⟩, ⟨ascii "b", 7⟩] ↔
      ∀ e ∈ twoProcesses.drop 2, stripped e.szExeFile ≠ [] :=
  @complete_iff twoProcesses [⟨⟨ascii "a", 3⟩, 0⟩, ⟨⟨ascii "b", 7⟩, 0⟩] ⟨.swap _ _ _, by decide⟩

/-- The image name `.exe` is the extension alone. -/
theorem extension_only_lost : ∃ processList,
    UpdateProcessList (systemEntries ++ [⟨ascii ".exe", 9⟩]) processList ∧
      (∀ e ∈ systemEntries ++ [⟨ascii ".exe", 9⟩], 4 ≤ e.szExeFile.length) ∧
      ¬Complete (currentProcessList (processList.map (·.toProcessInfo)))
        (processList.map (·.toProcessInfo)) := by
  refine ⟨[⟨⟨[], 9⟩, 0⟩], ⟨.refl _, by decide⟩, by decide, ?_⟩
  exact not_complete_of_nil (by decide) List.mem_cons_self rfl

end Helper

end PSM
