import PSM.DeletedMembers

/-! The texts in the lists of counters, and who reads them.

A member of such a list is read by the server with jsoncpp and by the web with Python's `json`.
`SetCounterName` stores every text from which jsoncpp gets a name and a counter, and jsoncpp gets
empty strings from `null` and from an object without these members. So the lists stay readable
exactly when the web adds no such text (`CountersReadable.refusesEach_iff`,
`CountersReadable.step`). -/

namespace PSM
open ByteStr Redis RedisManager

/-! ## JSON values -/

/-- A JSON value, as either library gives it. Of members with one name the first one counts. -/
inductive Json where
  | null
  | bool (b : Bool)
  | int (n : Int)
  | real (bits : BitVec 64)
  | string (s : ByteStr)
  | array (values : List Json)
  | object (members : List (ByteStr × Json))

namespace Json

/-- The value that is written for a counter. -/
def ofCounter (c : CounterJson) : Json :=
  object [(ascii "counter", string c.counter), (ascii "name", string c.name),
    (ascii "unit", string c.unit)]

/-- An object with the string members `name` and `counter`. -/
def IsCounter : Json → Prop
  | object members => (∃ name, members.lookup (ascii "name") = some (string name)) ∧
    ∃ counter, members.lookup (ascii "counter") = some (string counter)
  | _ => False

theorem isCounter_ofCounter (c : CounterJson) : (ofCounter c).IsCounter :=
  ⟨⟨c.name, rfl⟩, c.counter, rfl⟩

end Json

/-! ## The readers -/

/-- The two libraries: `Reader::parse` and `StyledWriter` of jsoncpp, and `json.loads`. Both read
back what is written for the default counters. `get` is what the server gets from a value with
`== NULL`, `operator[]` and `asString`: `NULL` is the integer 0, and string members are read as they
are. -/
structure CounterReaders where
  parse : ByteStr → Option Json
  loads : ByteStr → Option Json
  jsonToStr : CounterJson → ByteStr
  get : Json → CounterText
  get_ofCounter : ∀ c, get (.ofCounter c) = .object c
  get_isCounter : ∀ v, v.IsCounter → ∃ jv, get v = .object jv
  get_eq_null_iff : ∀ v, get v = .null ↔ v = .int 0
  parse_jsonToStr : ∀ isMachine, ∀ c ∈ defaultsOf isMachine,
    parse (jsonToStr c) = some (.ofCounter c)
  loads_jsonToStr : ∀ isMachine, ∀ c ∈ defaultsOf isMachine,
    loads (jsonToStr c) = some (.ofCounter c)

namespace CounterReaders

variable {r : CounterReaders} {x : ByteStr}

/-- `StrToJson`, which returns `NULL` for a text that it cannot parse. -/
def jsonCpp (r : CounterReaders) : JsonCpp where
  strToJson x := (r.parse x).elim .null r.get
  jsonToStr := r.jsonToStr
  strToJson_jsonToStr isMachine c hc := by
    rw [r.parse_jsonToStr isMachine c hc]
    exact r.get_ofCounter c

/-- The loop body of `GetProcessCounterList` and of `GetMachineCounterList`: the name and the
counter that the web shows for a member. A text that does not load, a value that is no object and a
missing member raise an exception. -/
def getCounter (r : CounterReaders) (data : ByteStr) : Option (Json × Json) :=
  match r.loads data with
  | some (.object members) => do
    let name ← members.lookup (ascii "name")
    let counter ← members.lookup (ascii "counter")
    some (name, counter)
  | _ => none

/-- The text is an object with the string members `name` and `counter` for both. -/
def Readable (r : CounterReaders) (x : ByteStr) : Prop :=
  (∃ v, r.parse x = some v ∧ v.IsCounter) ∧ ∃ v, r.loads x = some v ∧ v.IsCounter

/-- jsoncpp cannot parse the text, or reads the number 0. -/
def Unread (r : CounterReaders) (x : ByteStr) : Prop :=
  r.parse x = none ∨ r.parse x = some (.int 0)

theorem strToJson_eq_null_iff : r.jsonCpp.strToJson x = .null ↔ r.Unread x := by
  simp only [jsonCpp, Unread]
  cases r.parse x with
  | none => simp
  | some v => simp [r.get_eq_null_iff]

theorem Readable.strToJson (h : r.Readable x) : ∃ jv, r.jsonCpp.strToJson x = .object jv := by
  obtain ⟨v, hparse, hv⟩ := h.1
  obtain ⟨jv, hjv⟩ := r.get_isCounter v hv
  exact ⟨jv, by simp only [jsonCpp, hparse, Option.elim_some, hjv]⟩

theorem Readable.counter? (h : r.Readable x) : r.jsonCpp.counter? x ≠ none := by
  obtain ⟨jv, hjv⟩ := h.strToJson
  simp [JsonCpp.counter?, hjv]

theorem Readable.getCounter (h : r.Readable x) : ∃ name counter,
    r.getCounter x = some (.string name, .string counter) := by
  obtain ⟨v, hloads, hv⟩ := h.2
  cases v with
  | object members =>
    obtain ⟨⟨name, hname⟩, counter, hcounter⟩ := hv
    exact ⟨name, counter, by simp [CounterReaders.getCounter, hloads, hname, hcounter]⟩
  | _ => cases hv

theorem readable_of_default {isMachine : Bool} (h : x ∈ r.jsonCpp.defaultCounterList isMachine) :
    r.Readable x := by
  obtain ⟨c, hc, rfl⟩ := List.mem_map.mp h
  exact ⟨⟨_, r.parse_jsonToStr isMachine c hc, Json.isCounter_ofCounter c⟩,
    _, r.loads_jsonToStr isMachine c hc, Json.isCounter_ofCounter c⟩

/-- The texts that `SetCounterName` refuses whatever the state is. -/
theorem setCounterName_refuses_iff : (∀ m agentID isMachine store,
    (setCounterName r.jsonCpp m agentID x isMachine).run store = some ((none, m), store)) ↔
      r.Unread x := by
  rw [← strToJson_eq_null_iff]
  refine ⟨fun h => ?_, fun h m agentID isMachine store => by rw [setCounterName_run, h]⟩
  have hrun := h .empty 0 false .empty
  rw [setCounterName_run] at hrun
  cases hread : r.jsonCpp.strToJson x with
  | null => rfl
  | other => rw [hread] at hrun; cases hrun
  | object jv =>
    rw [hread] at hrun
    simp only [Option.some.injEq, Prod.mk.injEq, ite_eq_left_iff] at hrun
    exact absurd (hrun.1.1 MemberSet.notMem_empty) nofun

end CounterReaders

namespace Server

variable {ι : Type} [DecidableEq ι]

/-- The members of the counter lists of all agents are readable. -/
def CountersReadable (r : CounterReaders) (s : Server ι) : Prop :=
  ∀ agentID isMachine, ∀ x ∈ s.store.set (counterListKey agentID isMachine), r.Readable x

/-- Where `SetCounterName` is called for a text that is not readable, in the loop over the names of
a command, it returns false and changes neither the store nor its map. -/
def RefusesEach (r : CounterReaders) (agentID : Int) (socket : Option ι) (isMachine : Bool) :
    List ByteStr → Server ι → Prop
  | [], _ => True
  | x :: names, s =>
    (¬r.Readable x →
      (setCounterName r.jsonCpp s.webCounterNameMap agentID x isMachine).run s.store =
        some ((none, s.webCounterNameMap), s.store)) ∧
    ∀ b s', WebCommandSocket.counterCommand r.jsonCpp agentID socket isMachine .cAddList x s =
      some (b, s') → RefusesEach r agentID socket isMachine names s'

def RefusesUnreadable (r : CounterReaders) (s : Server ι) : ServerEvent ι → Prop
  | .web (.counterCommandRequest token isMachine .cAddList names) =>
    ∀ agentID, agentIDAt s.store token = some agentID →
      RefusesEach r agentID (s.getAgentSocketByToken token) isMachine names s
  | _ => True

/-- The web adds readable texts, and texts that jsoncpp does not read, to the lists of an agent. -/
def AddsReadable (r : CounterReaders) (s : Server ι) : ServerEvent ι → Prop
  | .web (.counterCommandRequest token _ .cAddList names) =>
    agentIDAt s.store token ≠ none → ∀ x ∈ names, r.Readable x ∨ r.Unread x
  | _ => True

section
variable {r : CounterReaders} {ext : Externals} {s s' : Server ι} {agentID : Int}
  {socket : Option ι} {isMachine : Bool} {x : ByteStr} {names : List ByteStr} {e : ServerEvent ι}

/-- A command that adds a readable text, or one that is not read, keeps the lists readable. -/
theorem CountersReadable.counterCommand (hs : CountersReadable r s)
    (hx : r.Readable x ∨ r.Unread x) : ∃ b s',
    WebCommandSocket.counterCommand r.jsonCpp agentID socket isMachine .cAddList x s =
      some (b, s') ∧ CountersReadable r s' := by
  rcases hx with hx | hx
  · obtain ⟨jv, hjv⟩ := hx.strToJson
    obtain ⟨b, s', hcommand⟩ : ∃ b s', WebCommandSocket.counterCommand r.jsonCpp agentID socket
        isMachine .cAddList x s = some (b, s') := by
      rw [counterCommand_cAddList_eq, hjv]
      exact ⟨_, _, rfl⟩
    refine ⟨b, s', hcommand, fun agentID' isMachine' y hy => ?_⟩
    replace hy : y ∈ s'.stored agentID' (.counter isMachine') := hy
    rcases mem_counterCommand hcommand hy with hy | ⟨-, rfl, -⟩
    · exact hs agentID' isMachine' y hy
    · exact hx
  · refine ⟨false, s, ?_, hs⟩
    rw [counterCommand_cAddList_eq, CounterReaders.strToJson_eq_null_iff.mpr hx]

omit [DecidableEq ι] in
/-- A text that is not readable is no member yet, so it is refused only if it is not read. -/
theorem CountersReadable.refuses_iff (hs : CountersReadable r s) :
    (¬r.Readable x →
      (setCounterName r.jsonCpp s.webCounterNameMap agentID x isMachine).run s.store =
        some ((none, s.webCounterNameMap), s.store)) ↔ r.Readable x ∨ r.Unread x := by
  rw [or_iff_not_imp_left, setCounterName_run, ← CounterReaders.strToJson_eq_null_iff]
  refine imp_congr_right fun hx => ?_
  have hnew : x ∉ s.store.set (counterListKey agentID isMachine) := fun hmem =>
    hx (hs agentID isMachine x hmem)
  cases r.jsonCpp.strToJson x with
  | null => simp
  | other => simp
  | object jv => simp [hnew]

theorem CountersReadable.refusesEach_iff (hs : CountersReadable r s) :
    RefusesEach r agentID socket isMachine names s ↔
      ∀ x ∈ names, r.Readable x ∨ r.Unread x := by
  induction names generalizing s with
  | nil => exact iff_of_true trivial nofun
  | cons x names ih =>
    rw [RefusesEach, hs.refuses_iff, List.forall_mem_cons]
    refine and_congr_right fun hx => ?_
    obtain ⟨b, s', hcommand, hs'⟩ := hs.counterCommand hx
    rw [hcommand]
    refine Iff.trans ⟨fun h => h b s' rfl, fun h b' t heq => ?_⟩ (ih hs')
    cases heq
    exact h

theorem CountersReadable.refusesUnreadable_iff (hs : CountersReadable r s) :
    RefusesUnreadable r s e ↔ AddsReadable r s e := by
  unfold RefusesUnreadable AddsReadable
  split
  · rename_i token isMachine names
    cases agentIDAt s.store token with
    | none => exact iff_of_true nofun fun h => absurd rfl h
    | some agentID =>
      refine Iff.trans ⟨fun h => h agentID rfl, fun h agentID' heq => ?_⟩
        (hs.refusesEach_iff.trans ⟨fun h _ => h, fun h => h nofun⟩)
      cases heq
      exact h
  · exact .rfl

/-- The defaults that a request stores are readable. -/
theorem mem_default_of_requests (hreq : s.Requests agentID (.counter isMachine) e)
    (h : (machine ext).step s e = some s') (hempty : s.stored agentID (.counter isMachine) = ∅)
    (hx : x ∈ s'.stored agentID (.counter isMachine)) :
    x ∈ ext.json.defaultCounterList isMachine := by
  rw [stored_eq_empty_iff] at hempty
  obtain ⟨i, now, rfl, ⟨hkind, -⟩ | ⟨isMachine', hkind, rfl⟩⟩ := requests_cases hreq
  · cases hkind
  · cases hkind
    cases change_of_step h with | agent h
    cases h with | counterList hne => exact absurd hempty hne | defaultCounters
    replace hx : x ∈ (s.modifySet ((ListKind.counter isMachine).key (s.socket i).agentID)
      ((ext.json.defaultCounterList isMachine).foldl MemberSet.add ·)).stored
        (s.socket i).agentID (.counter isMachine) := hx
    rw [stored_modifySet_self] at hx
    rcases MemberSet.mem_foldl_add.mp hx with hmem | hmem
    · rw [MemberSet.mem_def, hempty] at hmem
      exact absurd hmem List.not_mem_nil
    · exact hmem

/-- The next state's lists are readable when the added texts are. -/
theorem CountersReadable.step (hs : CountersReadable r s) (hadds : AddsReadable r s e)
    (h : (machine { ext with json := r.jsonCpp }).step s e = some s') : CountersReadable r s' := by
  intro agentID isMachine x hx
  replace hx : x ∈ s'.stored agentID (.counter isMachine) := hx
  rcases mem_step h hx with hx | hadd | ⟨hreq, hempty⟩
  · exact hs agentID isMachine x hx
  · cases e with
    | web msg =>
      cases msg with
      | counterCommandRequest token isMachine' type names =>
        obtain ⟨rfl, hmem, -, hID⟩ := hadd
        obtain ⟨⟨response, t⟩, hweb, rfl⟩ := Option.map_eq_some_iff.mp h
        obtain ⟨agentID', b, -, -, hcommands⟩ := counterCommandRequest_cases hweb
        rcases mem_counterCommands hcommands hx with hx | ⟨-, -, -, -, jv, hjv⟩
        · exact hs agentID isMachine x hx
        · rcases hadds (by rw [hID]; nofun) x hmem with hread | hunread
          · exact hread
          · exact nomatch hjv.symm.trans (CounterReaders.strToJson_eq_null_iff.mpr hunread)
      | processCommandRequest token type name => exact nomatch hadd.2.2.1
      | _ => cases hadd
    | _ => cases hadd
  · exact r.readable_of_default (mem_default_of_requests hreq h hempty hx)

end

end Server

/-! ## The consumers of a readable list -/

theorem JsonCpp.exists_firstNamed {json : JsonCpp} {v : List ByteStr}
    (h : ∀ value ∈ v, json.counter? value ≠ none) (name : ByteStr) :
    ∃ found, json.firstNamed name v = some found := by
  induction v with
  | nil => exact ⟨none, rfl⟩
  | cons value v ih =>
    rw [List.forall_mem_cons] at h
    obtain ⟨jv, hjv⟩ := Option.ne_none_iff_exists'.mp h.1
    simp only [JsonCpp.firstNamed, hjv]
    split
    · exact ⟨_, rfl⟩
    · exact ih h.2

/-- `GetCounterList` and `RemCounterName` return, and the web shows every member. -/
theorem consumers_of_readable {r : CounterReaders} {m : CounterNameMap} {agentID : Int}
    {isMachine : Bool} {s : Store HashValue}
    (h : ∀ x ∈ s.set (counterListKey agentID isMachine), r.Readable x) (name : ByteStr) :
    (getCounterList r.jsonCpp m agentID isMachine).run s ≠ none ∧
      (remCounterName r.jsonCpp agentID name isMachine).run s ≠ none ∧
      (s.set (counterListKey agentID isMachine)).members.mapM r.getCounter ≠ none := by
  have hcounter : ∀ x ∈ (s.set (counterListKey agentID isMachine)).members,
      r.jsonCpp.counter? x ≠ none := fun x hx => (h x hx).counter?
  obtain ⟨jvs, hjvs⟩ := exists_mapM hcounter
  obtain ⟨found, hfound⟩ := JsonCpp.exists_firstNamed hcounter name
  obtain ⟨shown, hshown⟩ : ∃ shown,
      (s.set (counterListKey agentID isMachine)).members.mapM r.getCounter = some shown := by
    refine exists_mapM fun x hx => ?_
    obtain ⟨name, counter, hget⟩ := (h x hx).getCounter
    rw [hget]
    nofun
  refine ⟨?_, ?_, ?_⟩
  · rw [getCounterList_run, hjvs]
    split <;> nofun
  · rw [remCounterName_run, hfound]
    nofun
  · rw [hshown]
    nofun

/-! ## Runs -/

namespace Server

/-- From readable lists on, the lists stay readable and every unreadable text is refused exactly
when the web adds readable texts and texts that jsoncpp does not read. The unreadable texts that
are refused whatever the state is are those that jsoncpp does not read. -/
theorem countersReadable_iff {ι : Type} [DecidableEq ι] (r : CounterReaders) (ext : Externals)
    {s : Server ι} (hs : CountersReadable r s) :
    (∀ es, (machine { ext with json := r.jsonCpp }).Always (CountersReadable r) s es ∧
        (machine { ext with json := r.jsonCpp }).Meets (RefusesUnreadable r) s es ↔
      (machine { ext with json := r.jsonCpp }).Meets (AddsReadable r) s es) ∧
    ∀ x, ¬r.Readable x → ((∀ m agentID isMachine store,
      (setCounterName r.jsonCpp m agentID x isMachine).run store = some ((none, m), store)) ↔
        r.Unread x) := by
  refine ⟨fun es => ⟨fun ⟨halways, hrefuses⟩ => ?_, fun hadds => ⟨?_, ?_⟩⟩,
    fun x _ => CounterReaders.setCounterName_refuses_iff⟩
  · exact halways.meets_imp (fun hs => hs.refusesUnreadable_iff.mp) hrefuses
  · exact hadds.always (fun hs hadds hstep => hs.step hadds hstep) id hs
  · exact hadds.imp (fun hs hadds hstep => hs.step hadds hstep)
      (fun hs => hs.refusesUnreadable_iff.mpr) hs

end Server

/-- The values of the texts of the default counters and of the given ones. -/
def readTexts (texts : List (ByteStr × Json)) (value : ByteStr) : Option Json :=
  (((defaultCounters ++ defaultMachineCounters).map fun c => (styledText c, Json.ofCounter c)) ++
    texts).lookup value

theorem readTexts_styledText (texts : List (ByteStr × Json)) (isMachine : Bool) :
    ∀ c ∈ defaultsOf isMachine, readTexts texts (styledText c) = some (Json.ofCounter c) := by
  intro c hc
  cases isMachine
  · simp only [defaultsOf, Bool.false_eq_true, if_false, defaultCounters, List.mem_cons,
      List.not_mem_nil, or_false] at hc
    rcases hc with rfl | rfl <;> rfl
  · simp only [defaultsOf, if_true, defaultMachineCounters, List.mem_cons, List.not_mem_nil,
      or_false] at hc
    rcases hc with rfl | rfl | rfl <;> rfl

/-- A missing member is read as the empty string, and a value that is no object cannot be read. -/
def getText : Json → CounterText
  | .int n => if n = 0 then .null else .other
  | .object members =>
    let text (key : ByteStr) : ByteStr :=
      match members.lookup key with
      | some (.string s) => s
      | _ => []
    .object ⟨text (ascii "name"), text (ascii "counter"), text (ascii "unit")⟩
  | _ => .other

theorem getText_eq_null_iff (v : Json) : getText v = .null ↔ v = .int 0 := by
  cases v with
  | int n =>
    simp only [getText, Json.int.injEq]
    split <;> simp_all
  | _ => simp [getText]

theorem getText_isCounter (v : Json) (h : v.IsCounter) : ∃ jv, getText v = .object jv := by
  cases v with
  | object members => exact ⟨_, rfl⟩
  | _ => cases h

/-- Two libraries that agree on these texts, and read no others. -/
def CounterReaders.ofTexts (texts : List (ByteStr × Json)) : CounterReaders where
  parse := readTexts texts
  loads := readTexts texts
  jsonToStr := styledText
  get := getText
  get_ofCounter _ := rfl
  get_isCounter := getText_isCounter
  get_eq_null_iff := getText_eq_null_iff
  parse_jsonToStr := readTexts_styledText texts
  loads_jsonToStr := readTexts_styledText texts

namespace Server

theorem countersReadable_init {ι : Type} {r : CounterReaders} :
    CountersReadable r (init Store.empty : Server ι) := fun _ _ _ hx =>
  absurd hx MemberSet.notMem_empty

/-- An agent registers and asks for its list, and the web adds a text to it. -/
def addCounterText (x : ByteStr) : List (ServerEvent Unit) :=
  [.accept false (), .agent () 0 (.agentIDRequest 7 1 0), .agent () 0 (.counterListRequest true),
    .web (.counterCommandRequest 7 true .cAddList [x])]

def pageFault : CounterJson := ⟨ascii "PageFault", ascii "\\Memory\\Page Faults/sec", []⟩

def pageFaultReaders : CounterReaders := .ofTexts [(styledText pageFault, .ofCounter pageFault)]

theorem countersReadable_iff_pageFault :
    (machine { Externals.ofTexts [] with json := pageFaultReaders.jsonCpp }).Always
      (CountersReadable pageFaultReaders) (init Store.empty)
      (addCounterText (styledText pageFault)) := by
  have hread : pageFaultReaders.Readable (styledText pageFault) :=
    ⟨⟨_, rfl, Json.isCounter_ofCounter _⟩, _, rfl, Json.isCounter_ofCounter _⟩
  have hadds : (machine { Externals.ofTexts [] with json := pageFaultReaders.jsonCpp }).Meets
      (AddsReadable pageFaultReaders) (init Store.empty)
      (addCounterText (styledText pageFault)) := by
    refine ⟨trivial, fun _ _ => ⟨trivial, fun _ _ => ⟨trivial, fun _ _ => ⟨fun _ x hx => ?_,
      fun _ _ => trivial⟩⟩⟩⟩
    rw [List.mem_singleton.mp hx]
    exact .inl hread
  exact (((countersReadable_iff pageFaultReaders (.ofTexts []) countersReadable_init).1 _).mpr
    hadds).1

/-- An object without members. -/
def emptyObject : ByteStr := ascii "\x7b\x7d"

def emptyObjectReaders : CounterReaders := .ofTexts [(emptyObject, .object [])]

/-- It is stored. -/
theorem not_countersReadable_emptyObject : ∃ s,
    (machine { Externals.ofTexts [] with json := emptyObjectReaders.jsonCpp }).run
      (init Store.empty) (addCounterText emptyObject) = some s ∧
    ¬CountersReadable emptyObjectReaders s := by
  obtain ⟨s, hrun, hmem⟩ : ∃ s,
      (machine { Externals.ofTexts [] with json := emptyObjectReaders.jsonCpp }).run
        (init Store.empty) (addCounterText emptyObject) = some s ∧
      emptyObject ∈ s.store.set (counterListKey 0 true) := ⟨_, rfl, by decide⟩
  refine ⟨s, hrun, fun hs => ?_⟩
  obtain ⟨⟨v, hparse, hv⟩, -⟩ := hs 0 true emptyObject hmem
  obtain rfl : Json.object [] = v := Option.some.inj hparse
  obtain ⟨⟨name, hname⟩, -⟩ := hv
  cases hname

end Server

end PSM
