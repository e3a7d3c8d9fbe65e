import PSM.RedisManager

/-! The numbering of agents in `AgentList`.

`InitAgent` takes the number of a new agent from `HLEN` and stores it with a later `HMSET`, while
other threads read records, change them and write them back. The argument is one of promises: the
other threads only rewrite records under the number they have (`Rewrites`), and only `InitAgent`
adds one, with the next number (`numbersContract`). A record whose text does not parse is taken for
none, and `InitAgent` gives its token another number. -/

namespace PSM
open ByteStr Redis RedisManager

/-! ## Numbers of a store -/

/-- The agent in the value of a hash, whether its text parses or not. -/
def HashValue.agent? : HashValue → Option AgentJson
  | .json r => some r.toAgentJson
  | .unread r => some r
  | .text _ => none

def HashValue.number? (v : HashValue) : Option Int := v.agent?.map (·.agentNumber)

@[simp] theorem agent?_ofJson (jv : AgentJson) : (HashValue.ofJson jv).agent? = some jv := by
  unfold HashValue.ofJson
  split <;> rfl

/-- What is in a field of `AgentList`, as far as the number is concerned. -/
def numberAt (s : Store HashValue) (field : ByteStr) : Option (Option Int) :=
  ((s.hash agentList).lookup field).map HashValue.number?

/-- `HLEN AgentList`. -/
def agentCount (s : Store HashValue) : Nat := (s.hash agentList).keys.length

/-- The numbers of the records, in the order of the hash. -/
def agentNumbers (s : Store HashValue) : List (Option Int) :=
  (s.hash agentList).entries.map fun e => e.2.number?

/-- The value of a field reads as a record. -/
def ReadsAsRecord (s : Store HashValue) (field : ByteStr) : Prop :=
  ∃ jv, (s.hash agentList).lookup field = some (.json jv)

/-- The token has a record that does not read as one. -/
def Unreadable (s : Store HashValue) (token : Int) : Prop :=
  numberAt s (decimal token) ≠ none ∧ recordAt s token = none

instance (s : Store HashValue) (token : Int) : Decidable (Unreadable s token) :=
  inferInstanceAs (Decidable (_ ∧ _))

/-- Every value is an agent, numbered below the number of agents, and no number is used twice. -/
structure Numbered (s : Store HashValue) : Prop where
  range : ∀ field x, numberAt s field = some x → ∃ n : Nat, x = some (n : Int) ∧ n < agentCount s
  inj : ∀ field field' x, numberAt s field = some x → numberAt s field' = some x → field = field'

/-- All values read as records. -/
def AllRead (s : Store HashValue) : Prop := ∀ field, numberAt s field ≠ none → ReadsAsRecord s field

/-- The agents are numbered, and all of them read as records. -/
structure RecordsNumbered (s : Store HashValue) : Prop extends Numbered s where
  reads : AllRead s

/-- Every field that is there keeps its number. -/
def Keeps (s s' : Store HashValue) : Prop :=
  ∀ field x, numberAt s field = some x → numberAt s' field = some x

/-- The fields are the same, with the same numbers, and what reads as a record still does. -/
structure Rewrites (s s' : Store HashValue) : Prop where
  numbers : ∀ field, numberAt s' field = numberAt s field
  count : agentCount s' = agentCount s
  reads : ∀ field, ReadsAsRecord s field → ReadsAsRecord s' field

/-- Records may be new, if the store stays numbered. -/
def Extends (s s' : Store HashValue) : Prop := (Numbered s → Numbered s') ∧ Keeps s s'

/-- The same where all agents read as records. -/
def RecordsExtend (s s' : Store HashValue) : Prop :=
  (RecordsNumbered s → RecordsNumbered s') ∧ Keeps s s'

theorem Rewrites.numbered {s s' : Store HashValue} (h : Rewrites s s') (hs : Numbered s) :
    Numbered s' where
  range field x hx := by
    rw [h.count]
    exact hs.range field x ((h.numbers field).symm.trans hx)
  inj field field' x hx hx' :=
    hs.inj field field' x ((h.numbers field).symm.trans hx) ((h.numbers field').symm.trans hx')

theorem Rewrites.extends {s s' : Store HashValue} (h : Rewrites s s') : Extends s s' :=
  ⟨h.numbered, fun field _ hx => (h.numbers field).trans hx⟩

theorem Rewrites.recordsExtend {s s' : Store HashValue} (h : Rewrites s s') : RecordsExtend s s' :=
  ⟨fun hs => ⟨h.numbered hs.toNumbered, fun field hfield =>
    h.reads field (hs.reads field (h.numbers field ▸ hfield))⟩, h.extends.2⟩

theorem Rewrites.refl (s : Store HashValue) : Rewrites s s := ⟨fun _ => rfl, rfl, fun _ => id⟩

theorem Rewrites.trans {s s' s'' : Store HashValue} (h : Rewrites s s') (h' : Rewrites s' s'') :
    Rewrites s s'' where
  numbers field := (h'.numbers field).trans (h.numbers field)
  count := h'.count.trans h.count
  reads field := h'.reads field ∘ h.reads field

theorem Extends.refl (s : Store HashValue) : Extends s s := ⟨id, fun _ _ => id⟩

theorem Extends.trans {s s' s'' : Store HashValue} (h : Extends s s') (h' : Extends s' s'') :
    Extends s s'' := ⟨h'.1 ∘ h.1, fun field x hx => h'.2 field x (h.2 field x hx)⟩

theorem RecordsExtend.refl (s : Store HashValue) : RecordsExtend s s := ⟨id, fun _ _ => id⟩

theorem numbered_empty {s : Store HashValue} (h : s.hash agentList = ∅) : Numbered s where
  range field x hx := by simp [numberAt, h] at hx
  inj field field' x hx := by simp [numberAt, h] at hx

theorem recordsNumbered_empty {s : Store HashValue} (h : s.hash agentList = ∅) :
    RecordsNumbered s :=
  ⟨numbered_empty h, fun field hfield => absurd (by simp [numberAt, h]) hfield⟩

/-! ## The commands -/

theorem numberAt_hmset (s : Store HashValue) (field field' : ByteStr) (v : HashValue) :
    numberAt (exec (.hmset agentList field v) s).2 field' =
      if field' = field then some v.number? else numberAt s field' := by
  unfold numberAt
  simp only [exec, Function.update_self]
  split
  · rename_i h
    rw [h, AList.lookup_insert, Option.map_some]
  · rename_i h
    rw [AList.lookup_insert_ne h]

theorem agentCount_hmset (s : Store HashValue) (field : ByteStr) (v : HashValue) :
    agentCount (exec (.hmset agentList field v) s).2 =
      if numberAt s field = none then agentCount s + 1 else agentCount s := by
  unfold agentCount numberAt
  simp only [exec, Function.update_self, AList.keys_insert, List.length_cons,
    Option.map_eq_none_iff, AList.lookup_eq_none, List.length_erase, AList.mem_keys]
  split
  · rename_i h
    exact Nat.sub_add_cancel (List.length_pos_of_mem h)
  · rfl

theorem readsAsRecord_hmset {s : Store HashValue} {field field' : ByteStr} {jv : AgentRecord}
    (h : field' = field ∨ ReadsAsRecord s field') :
    ReadsAsRecord (exec (.hmset agentList field (.json jv)) s).2 field' := by
  unfold ReadsAsRecord
  simp only [exec, Function.update_self]
  by_cases he : field' = field
  · exact ⟨jv, by rw [he, AList.lookup_insert]⟩
  · rw [AList.lookup_insert_ne he]
    exact h.resolve_left he

theorem AllRead.hmset {s : Store HashValue} (hs : AllRead s) {field : ByteStr} {jv : AgentRecord} :
    AllRead (exec (.hmset agentList field (.json jv)) s).2 := by
  intro field' hfield
  rw [numberAt_hmset] at hfield
  split at hfield
  · exact readsAsRecord_hmset (.inl ‹_›)
  · exact readsAsRecord_hmset (.inr (hs field' hfield))

theorem rewrites_hmset {s : Store HashValue} {field : ByteStr} {jv : AgentRecord}
    (h : numberAt s field = some (some jv.agentNumber)) :
    Rewrites s (exec (.hmset agentList field (.json jv)) s).2 where
  numbers field' := by
    rw [numberAt_hmset]
    split
    · rename_i he
      rw [he, h]
      rfl
    · rfl
  count := by rw [agentCount_hmset, h, if_neg (by simp)]
  reads _ hfield := readsAsRecord_hmset (.inr hfield)

/-- A new record gets the next number. -/
theorem numbered_hmset {s : Store HashValue} {field : ByteStr} {v : HashValue} (hs : Numbered s)
    (hnew : numberAt s field = none) (hv : v.number? = some (agentCount s : Int)) :
    Numbered (exec (.hmset agentList field v) s).2 where
  range field' x hx := by
    rw [numberAt_hmset] at hx
    rw [agentCount_hmset, if_pos hnew]
    split at hx
    · cases hx
      exact ⟨agentCount s, hv, Nat.lt_succ_self _⟩
    · obtain ⟨n, hn, hlt⟩ := hs.range field' x hx
      exact ⟨n, hn, Nat.lt_succ_of_lt hlt⟩
  inj a b x ha hb := by
    rw [numberAt_hmset] at ha hb
    -- an old record never has the next number
    have hold : ∀ c, numberAt s c ≠ some v.number? := by
      intro c hc
      obtain ⟨n, hn, hlt⟩ := hs.range c _ hc
      rw [hv] at hn
      have : (agentCount s : Int) = n := Option.some.inj hn
      omega
    split at ha <;> split at hb
    · rename_i h h'
      rw [h, h']
    · exact absurd (hb.trans ha.symm) (hold b)
    · exact absurd (ha.trans hb.symm) (hold a)
    · exact hs.inj a b x ha hb

theorem keeps_hmset {s : Store HashValue} {field : ByteStr} {v : HashValue}
    (hnew : numberAt s field = none) : Keeps s (exec (.hmset agentList field v) s).2 := by
  intro field' x hx
  rw [numberAt_hmset, if_neg, hx]
  rintro rfl
  rw [hnew] at hx
  cases hx

theorem length_agentNumbers (s : Store HashValue) : (agentNumbers s).length = agentCount s := by
  simp [agentNumbers, agentCount, AList.keys, List.keys]

/-- Numbers below the number of records, none twice: exactly the first ones, each once. -/
theorem Numbered.perm {s : Store HashValue} (h : Numbered s) :
    (agentNumbers s).Perm ((List.range (agentCount s)).map fun n : Nat => some (n : Int)) := by
  have hmem : ∀ e ∈ (s.hash agentList).entries, numberAt s e.1 = some e.2.number? := fun e he =>
    congrArg (Option.map HashValue.number?) (Option.mem_def.mp (AList.mem_lookup_iff.mpr he))
  have hnodup : (agentNumbers s).Nodup := by
    refine (s.hash agentList).nodupKeys.nodup.map_on fun e he e' he' heq => ?_
    have hfst := h.inj e.1 e'.1 _ (hmem e he) ((hmem e' he').trans (by rw [heq]))
    exact (s.hash agentList).nodupKeys.eq_of_fst_eq he he' hfst
  have hsub : agentNumbers s ⊆ (List.range (agentCount s)).map fun n : Nat => some (n : Int) := by
    intro x hx
    obtain ⟨e, he, rfl⟩ := List.mem_map.mp hx
    obtain ⟨n, hn, hlt⟩ := h.range _ _ (hmem e he)
    rw [hn]
    exact List.mem_map.mpr ⟨n, List.mem_range.mpr hlt, rfl⟩
  exact (List.subperm_of_subset hnodup hsub).perm_of_length_le (by
    rw [length_agentNumbers, List.length_map, List.length_range])

/-! ## Lookups by token -/

theorem recordAt_eq_some_iff {s : Store HashValue} {token : Int} {jv : AgentRecord} :
    recordAt s token = some jv ↔ (s.hash agentList).lookup (decimal token) = some (.json jv) := by
  unfold recordAt
  cases (s.hash agentList).lookup (decimal token) with
  | none => simp
  | some v => simp [record?_eq_some_iff]

theorem numberAt_of_recordAt {s : Store HashValue} {token : Int} {jv : AgentRecord}
    (h : recordAt s token = some jv) : numberAt s (decimal token) = some (some jv.agentNumber) := by
  rw [numberAt, recordAt_eq_some_iff.mp h]
  rfl

theorem readsAsRecord_decimal_iff {s : Store HashValue} {token : Int} :
    ReadsAsRecord s (decimal token) ↔ recordAt s token ≠ none := by
  rw [← Option.isSome_iff_ne_none, Option.isSome_iff_exists]
  exact exists_congr fun jv => recordAt_eq_some_iff.symm

/-- A token without a record that reads has none, if it is not unreadable. -/
theorem numberAt_of_not_unreadable {s : Store HashValue} {token : Int} (h : ¬Unreadable s token)
    (hnone : recordAt s token = none) : numberAt s (decimal token) = none :=
  by_contra fun hne => h ⟨hne, hnone⟩

theorem AllRead.not_unreadable {s : Store HashValue} (hs : AllRead s) (token : Int) :
    ¬Unreadable s token :=
  fun ⟨hne, hnone⟩ => readsAsRecord_decimal_iff.mp (hs _ hne) hnone

theorem RecordsNumbered.numberAt_decimal_iff {s : Store HashValue} {token n : Int}
    (hs : RecordsNumbered s) : numberAt s (decimal token) = some (some n) ↔
      ∃ jv, recordAt s token = some jv ∧ jv.agentNumber = n := by
  constructor
  · intro h
    cases hrecord : recordAt s token with
    | none => exact absurd ⟨by rw [h]; exact nofun, hrecord⟩ (hs.reads.not_unreadable token)
    | some jv =>
      rw [numberAt_of_recordAt hrecord] at h
      exact ⟨jv, rfl, Option.some.inj (Option.some.inj h)⟩
  · rintro ⟨jv, hjv, rfl⟩
    exact numberAt_of_recordAt hjv

/-- `GetAgentID` gives −1 or the number of the token's record. -/
theorem RecordsNumbered.agentIDAt_eq_some_iff {s : Store HashValue} {token n : Int}
    (hs : RecordsNumbered s) (hn : n ≠ -1) :
    agentIDAt s token = some n ↔ numberAt s (decimal token) = some (some n) := by
  rw [hs.numberAt_decimal_iff]
  unfold agentIDAt recordAt
  cases (s.hash agentList).lookup (decimal token) with
  | none => simp [hn.symm]
  | some v => cases v <;> simp [HashValue.record?]

theorem Numbered.ne_neg_one {s : Store HashValue} {field : ByteStr} {n : Int} (hs : Numbered s)
    (h : numberAt s field = some (some n)) : n ≠ -1 := by
  obtain ⟨m, hm, -⟩ := hs.range field _ h
  cases hm
  omega

/-! ## The programs -/

section programs
variable {rely guar : Store HashValue → Store HashValue → Prop} {s : Store HashValue}

/-- The text of a record is one that reads as a record, or the other agents are all as before. -/
theorem Rewrites.not_unreadable {s' : Store HashValue} {token : Int} (h : Rewrites s s')
    (hs : ¬Unreadable s token) : ¬Unreadable s' token := by
  intro ⟨hne, hnone⟩
  rw [h.numbers] at hne
  have hreads : ReadsAsRecord s (decimal token) :=
    readsAsRecord_decimal_iff.mpr fun hnone' => hs ⟨hne, hnone'⟩
  exact readsAsRecord_decimal_iff.mp (h.reads _ hreads) hnone

/-- What `GetAgentJVByToken` returns is what reads as a record in the store. -/
theorem found_reply {token : Int} {P : Store HashValue → Prop} (hrely : ∀ s', rely s s' → P s')
    (hguar : ∀ s, guar s s) :
    (getAgentJVByToken token).Safe exec rely guar (fun r s => P s ∧ r = recordAt s token) s := by
  have hcommand : (Prog.command (.hmget agentList (decimal token))).Safe exec rely guar
      (fun r s => P s ∧ r = .value ((s.hash agentList).lookup (decimal token))) s :=
    Prog.Safe.command fun s' hs' => ⟨hguar s', hrely s' hs', rfl⟩
  refine hcommand.bind _ ?_
  rintro r s ⟨hs, rfl⟩
  cases hv : (s.hash agentList).lookup (decimal token) with
  | none => exact ⟨hs, by rw [recordAt, hv]; rfl⟩
  | some v => cases v <;> exact ⟨hs, by rw [recordAt, hv]; rfl⟩

theorem changeAgentState_safe {token : Int} {change : AgentRecord → AgentRecord}
    (hchange : ∀ jv, (change jv).agentNumber = jv.agentNumber)
    (hrely : ∀ s s', rely s s' → Keeps s s') (hguar : ∀ s s', Rewrites s s' → guar s s') :
    (changeAgentState token change).Safe exec rely guar (fun _ _ => True) s := by
  refine (found_reply (P := fun _ => True) (fun _ _ => trivial)
    fun s => hguar s s (.refl s)).bind _ ?_
  rintro (_ | jv) s ⟨-, hfound⟩
  · exact trivial
  · refine Prog.Safe.bind (fun _ _ => True) (Prog.Safe.command fun s' hs' => ?_)
      fun _ _ _ => trivial
    have hnow : numberAt s' (decimal token) = some (some jv.agentNumber) :=
      hrely s s' hs' _ _ (numberAt_of_recordAt hfound.symm)
    exact ⟨hguar _ _ (rewrites_hmset (by rw [hnow, hchange])), trivial⟩

theorem initAgent_safe {token hostIP : Int} {ramSize : BitVec 64} (hs : Numbered s)
    (hread : ¬Unreadable s token) (hrely : ∀ s s', rely s s' → Rewrites s s')
    (hguar : ∀ s s', Extends s s' → guar s s') :
    (initAgent token hostIP ramSize).Safe exec rely guar (fun _ _ => True) s := by
  refine (found_reply (P := fun s => Numbered s ∧ ¬Unreadable s token)
    (fun s' hs' => ⟨(hrely s s' hs').numbered hs, (hrely s s' hs').not_unreadable hread⟩)
    fun s => hguar s s (.refl s)).bind _ ?_
  rintro (_ | jv) s ⟨⟨hs, hread⟩, hfound⟩
  · -- the length is still right at the write, because the others add no records
    have hnone : numberAt s (decimal token) = none := numberAt_of_not_unreadable hread hfound.symm
    have hlen : (Prog.command (.hlen agentList)).Safe exec rely guar
        (fun r s => Numbered s ∧ numberAt s (decimal token) = none ∧
          r = .int (agentCount s)) s :=
      Prog.Safe.command fun s' hs' => ⟨hguar _ _ (.refl _), (hrely s s' hs').numbered hs,
        ((hrely s s' hs').numbers _).trans hnone, rfl⟩
    refine hlen.bind _ ?_
    rintro r s ⟨hs, hnone, rfl⟩
    refine Prog.Safe.bind (fun _ _ => True) (Prog.Safe.command fun s' hs' => ?_)
      fun _ _ _ => trivial
    have hrewrites := hrely s s' hs'
    have hnone' := (hrewrites.numbers (decimal token)).trans hnone
    refine ⟨hguar _ _ ⟨fun hn => numbered_hmset hn hnone' ?_, keeps_hmset hnone'⟩, trivial⟩
    rw [HashValue.number?, agent?_ofJson, hrewrites.count]
    rfl
  · refine Prog.Safe.bind (fun _ _ => True) (Prog.Safe.command fun s' hs' => ?_)
      fun _ _ _ => trivial
    have hnow : numberAt s' (decimal token) = some (some jv.agentNumber) :=
      ((hrely s s' hs').numbers _).trans (numberAt_of_recordAt hfound.symm)
    exact ⟨hguar _ _ (rewrites_hmset (by rw [hnow])).extends, trivial⟩

/-! ### With nothing in between -/

theorem changeAgentState_rewrites {token : Int} {change : AgentRecord → AgentRecord} {b : Bool}
    {s' : Store HashValue} (hchange : ∀ jv, (change jv).agentNumber = jv.agentNumber)
    (hrun : (changeAgentState token change).run s = some (b, s')) : Rewrites s s' := by
  have hsafe : (changeAgentState token change).Safe exec (· = ·) Rewrites (fun _ _ => True) s :=
    changeAgentState_safe hchange (fun _ _ h _ _ hx => h ▸ hx) fun _ _ => id
  exact hsafe.run (fun _ => rfl) Rewrites.refl Rewrites.trans hrun

theorem initAgent_extends {token hostIP : Int} {ramSize : BitVec 64} {b : Bool}
    {s' : Store HashValue} (hs : Numbered s) (hread : ¬Unreadable s token)
    (hrun : (initAgent token hostIP ramSize).run s = some (b, s')) : Extends s s' := by
  have hsafe : (initAgent token hostIP ramSize).Safe exec (· = ·) Extends (fun _ _ => True) s :=
    initAgent_safe hs hread (fun s _ h => h ▸ .refl s) fun _ _ => id
  exact hsafe.run (fun _ => rfl) Extends.refl Extends.trans hrun

/-- A new agent whose record reads leaves all as records. -/
theorem initRecord_extends {token hostIP : Int} {ramSize : BitVec 64} {jv : AgentRecord}
    (hs : RecordsNumbered s) (hjv : initValue s token hostIP ramSize = .json jv) :
    RecordsExtend s (setRecord s token jv) := by
  have hrun : (initAgent token hostIP ramSize).run s = some (true, setRecord s token jv) := by
    rw [initAgent_run, hjv]
  have hext : Extends s (setRecord s token jv) :=
    initAgent_extends hs.toNumbered (hs.reads.not_unreadable token) hrun
  exact ⟨fun hs => ⟨hext.1 hs.toNumbered, hs.reads.hmset⟩, hext.2⟩

end programs

/-! ## The threads -/

/-- The thread of `LogicHandle`, and any others. -/
inductive AgentThread where
  | logic
  | other (n : Nat)
  deriving DecidableEq

/-- A call that changes the state of an agent. -/
inductive StateChange where
  | isOn (token : Int) (value : Bool)
  | startRecording (now token totalRecordTime responseTime delay : Int)
  | stopRecording (token : Int)

inductive LogicCall where
  | initAgent (token hostIP : Int) (ramSize : BitVec 64)
  | change (c : StateChange)

def StateChange.program (localTime : Int → ByteStr) : StateChange → Client HashValue Bool
  | isOn token value => changeAgentState_isOn token value
  | startRecording now token totalRecordTime responseTime delay =>
    changeAgentState_startRecording localTime now token totalRecordTime responseTime delay
  | stopRecording token => changeAgentState_stopRecording token

def LogicCall.program (localTime : Int → ByteStr) : LogicCall → Client HashValue Bool
  | .initAgent token hostIP ramSize => RedisManager.initAgent token hostIP ramSize
  | change c => c.program localTime

/-- Only the logic thread registers agents. -/
abbrev AgentCall : AgentThread → Type
  | .logic => LogicCall
  | .other _ => StateChange

def agentBody (localTime : Int → ByteStr) : (i : AgentThread) → AgentCall i → Client HashValue Bool
  | .logic, c => LogicCall.program localTime c
  | .other _, c => StateChange.program localTime c

def agentMachine (localTime : Int → ByteStr) :
    EventMachine (Threads AgentThread (Command HashValue) (Reply HashValue) Bool (Store HashValue))
      (Threads.Event AgentCall) :=
  Threads.machine exec (agentBody localTime)

/-- `InitAgent` is not called for a token whose record does not read. -/
def LogicCall.Readable : LogicCall → Store HashValue → Prop
  | .initAgent token _ _, s => ¬Unreadable s token
  | .change _, _ => True

def agentPre : (i : AgentThread) → AgentCall i → Store HashValue → Prop
  | .logic, c, s => LogicCall.Readable c s
  | .other _, _, _ => True

instance : ∀ c s, Decidable (LogicCall.Readable c s)
  | .initAgent token _ _, s => inferInstanceAs (Decidable ¬Unreadable s token)
  | .change _, _ => .isTrue trivial

instance (t : Threads AgentThread (Command HashValue) (Reply HashValue) Bool (Store HashValue)) :
    ∀ e, Decidable (t.Allowed agentPre e)
  | .start .logic c => inferInstanceAs (Decidable (LogicCall.Readable c t.shared))
  | .start (.other _) _ => .isTrue trivial
  | .step _ => .isTrue trivial

def agentRely : AgentThread → Store HashValue → Store HashValue → Prop
  | .logic => Rewrites
  | .other _ => Extends

def agentGuar : AgentThread → Store HashValue → Store HashValue → Prop
  | .logic => Extends
  | .other _ => Rewrites

section threads
variable {localTime : Int → ByteStr}

theorem StateChange.program_safe {c : StateChange}
    {rely guar : Store HashValue → Store HashValue → Prop} {s : Store HashValue}
    (hrely : ∀ s s', rely s s' → Keeps s s') (hguar : ∀ s s', Rewrites s s' → guar s s') :
    (c.program localTime).Safe exec rely guar (fun _ _ => True) s := by
  cases c <;> exact changeAgentState_safe (fun _ => rfl) hrely hguar

theorem numbersContract :
    Threads.Contract exec (agentBody localTime) agentPre Numbered agentRely agentGuar where
  refl i s := by
    cases i
    · exact Rewrites.refl s
    · exact Extends.refl s
  trans {i _ _ _} h h' := by
    cases i
    · exact Rewrites.trans h h'
    · exact Extends.trans h h'
  rely_of_guar {i j _ _} hij _ h := by
    cases i <;> cases j
    · exact absurd rfl hij
    · exact h
    · exact h
    · exact Rewrites.extends h
  keeps {i _ _} hs h := by
    cases i
    · exact h.1 hs
    · exact Rewrites.numbered h hs
  safe i call s hs hread := by
    cases i with
    | logic =>
      cases call with
      | initAgent token hostIP ramSize => exact initAgent_safe hs hread (fun _ _ => id) fun _ _ => id
      | change c =>
        exact c.program_safe (fun _ _ h => h.extends.2) fun _ _ => Rewrites.extends
    | other n => exact StateChange.program_safe (fun _ _ => And.right) fun _ _ => id

theorem agentGuar_extends {i : AgentThread} {s s' : Store HashValue} (h : agentGuar i s s') :
    Extends s s' := by
  cases i
  · exact h
  · exact Rewrites.extends h

/-- A run keeps the store numbered and every number that has been given. -/
theorem run_numbered {t t' : Threads AgentThread (Command HashValue) (Reply HashValue) Bool
      (Store HashValue)} {es : List (Threads.Event AgentCall)}
    (h : t.Sound exec Numbered agentRely agentGuar)
    (hread : (agentMachine localTime).Meets (Threads.Allowed agentPre) t es)
    (hrun : (agentMachine localTime).run t es = some t') :
    t'.Sound exec Numbered agentRely agentGuar ∧ Extends t.shared t'.shared :=
  h.run numbersContract Extends.refl Extends.trans (fun _ => agentGuar_extends) hread hrun

/-! ### Calls with a finite `ramSize` -/

def LogicCall.Finite : LogicCall → Prop
  | .initAgent _ _ ramSize => isFinite ramSize = true
  | .change _ => True

def finitePre : (i : AgentThread) → AgentCall i → Store HashValue → Prop
  | .logic, c, _ => LogicCall.Finite c
  | .other _, _, _ => True

def KeepsRead (s s' : Store HashValue) : Prop := AllRead s → AllRead s'

theorem changeAgentState_safe_read {s : Store HashValue} {token : Int}
    {change : AgentRecord → AgentRecord} :
    (changeAgentState token change).Safe exec KeepsRead KeepsRead (fun _ _ => True) s := by
  refine (found_reply (P := fun _ => True) (fun _ _ => trivial) fun _ => id).bind _ ?_
  rintro (_ | jv) s -
  · trivial
  · exact fun s' _ => ⟨fun hs => hs.hmset, trivial⟩

theorem initAgent_safe_read {s : Store HashValue} {token hostIP : Int} {ramSize : BitVec 64}
    (hfinite : isFinite ramSize = true) :
    (initAgent token hostIP ramSize).Safe exec KeepsRead KeepsRead (fun _ _ => True) s := by
  refine (found_reply (P := fun _ => True) (fun _ _ => trivial) fun _ => id).bind _ ?_
  rintro (_ | jv) s -
  · refine fun s' _ => ⟨id, fun s'' _ => ⟨?_, trivial⟩⟩
    have hread : HashValue.ofJson (newAgent hostIP (agentCount s') ramSize) =
        .json (newRecord hostIP (agentCount s') ramSize hfinite) := ofJson_eq_json_iff.mpr rfl
    change KeepsRead s'' (exec (.hmset _ _ (.ofJson (newAgent hostIP (agentCount s') ramSize))) _).2
    rw [hread]
    exact fun hs => hs.hmset
  · exact fun s' _ => ⟨fun hs => hs.hmset, trivial⟩

theorem finiteContract : Threads.Contract exec (agentBody localTime) finitePre AllRead
    (fun _ => KeepsRead) (fun _ => KeepsRead) where
  refl _ _ := id
  trans h h' := h' ∘ h
  rely_of_guar _ _ h := h
  keeps hs h := h hs
  safe i call s _ hfinite := by
    cases i with
    | logic =>
      cases call with
      | initAgent token hostIP ramSize => exact initAgent_safe_read hfinite
      | change c => cases c <;> exact changeAgentState_safe_read
    | other n => cases call <;> exact changeAgentState_safe_read

/-- When every `ramSize` is finite, every record reads. -/
theorem readable_of_finite {s : Store HashValue} (hs : s.hash agentList = ∅)
    {es : List (Threads.Event AgentCall)}
    (h : (agentMachine localTime).Meets (Threads.Allowed finitePre) (Threads.init s) es) :
    (agentMachine localTime).Meets (Threads.Allowed agentPre) (Threads.init s) es := by
  refine h.imp (fun ht hfinite hstep => (ht.step finiteContract hfinite hstep).1) ?_
    (Threads.init_sound (recordsNumbered_empty hs).reads)
  intro t e ht hfinite
  cases e with
  | start i call =>
    cases i with
    | logic =>
      cases call with
      | initAgent token => exact ht.1.not_unreadable token
      | change => trivial
    | other => trivial
  | step => trivial

/-! ### Every run -/

/-- From an empty list of agents, as long as `InitAgent` is not called for a token whose record does
not read, the `n` agents have the numbers below `n`, each once, in every state that is reached, and
no agent's number changes. -/
theorem agentNumbers_perm_stable {s : Store HashValue} (hs : s.hash agentList = ∅)
    {es fs : List (Threads.Event AgentCall)}
    {t t' : Threads AgentThread (Command HashValue) (Reply HashValue) Bool (Store HashValue)}
    (hrun : (agentMachine localTime).run (Threads.init s) es = some t)
    (hrun' : (agentMachine localTime).run t fs = some t')
    (hread : (agentMachine localTime).Meets (Threads.Allowed agentPre) (Threads.init s) es)
    (hread' : (agentMachine localTime).Meets (Threads.Allowed agentPre) t fs) :
    (agentNumbers t'.shared).Perm
      ((List.range (agentCount t'.shared)).map fun n : Nat => some (n : Int)) ∧
    ∀ field x, numberAt t.shared field = some x → numberAt t'.shared field = some x := by
  obtain ⟨hsound, -⟩ := run_numbered (Threads.init_sound (numbered_empty hs)) hread hrun
  obtain ⟨hsound', hext⟩ := run_numbered hsound hread' hrun'
  exact ⟨hsound'.1.perm, hext.2⟩

def registerFirst : List (Threads.Event AgentCall) :=
  [.start .logic (.initAgent 7 1 0#64), .step .logic, .step .logic, .step .logic, .step .logic]

/-- A second agent registers between the read and the write of a state change of the first. -/
def registerSecond : List (Threads.Event AgentCall) :=
  [.start (.other 0) (.isOn 7 false), .step (.other 0), .start .logic (.initAgent 8 2 0#64),
    .step .logic, .step .logic, .step .logic, .step (.other 0)]

theorem agentNumbers_perm_stable_two :
    ∃ t t', (agentMachine fun _ => []).run (Threads.init Store.empty) registerFirst = some t ∧
      (agentMachine fun _ => []).run t registerSecond = some t' ∧ agentCount t'.shared = 2 ∧
      (agentNumbers t'.shared).Perm
        ((List.range (agentCount t'.shared)).map fun n : Nat => some (n : Int)) ∧
      ∀ field x, numberAt t.shared field = some x → numberAt t'.shared field = some x := by
  obtain ⟨t, t', hrun, hrun', hcount, hread, hread'⟩ : ∃ t t',
      (agentMachine fun _ => []).run (Threads.init Store.empty) registerFirst = some t ∧
      (agentMachine fun _ => []).run t registerSecond = some t' ∧ agentCount t'.shared = 2 ∧
      (agentMachine fun _ => []).Meets (Threads.Allowed agentPre) (Threads.init Store.empty)
        registerFirst ∧
      (agentMachine fun _ => []).Meets (Threads.Allowed agentPre) t registerSecond :=
    ⟨_, _, rfl, rfl, rfl, by decide, by decide⟩
  exact ⟨t, t', hrun, hrun', hcount, agentNumbers_perm_stable rfl hrun hrun' hread hread'⟩

/-- An agent whose `ramSize` is infinite registers twice. -/
def registerInfinite : List (Threads.Event AgentCall) :=
  [.start .logic (.initAgent 7 1 0x7ff0000000000000#64), .step .logic, .step .logic, .step .logic,
    .step .logic, .start .logic (.initAgent 7 1 0#64), .step .logic, .step .logic, .step .logic,
    .step .logic]

/-- The text of the record does not parse, and the one agent is given the number 1. -/
theorem agentNumbers_not_perm_infinite :
    ∃ t, (agentMachine fun _ => []).run (Threads.init Store.empty) registerInfinite = some t ∧
      agentCount t.shared = 1 ∧ numberAt t.shared (decimal 7) = some (some 1) ∧
      ¬(agentNumbers t.shared).Perm
        ((List.range (agentCount t.shared)).map fun n : Nat => some (n : Int)) := by
  have hnot : ¬[some (1 : Int)].Perm [some 0] := by decide
  exact ⟨_, rfl, rfl, rfl, hnot⟩

end threads

end PSM
