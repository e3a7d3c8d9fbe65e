import PSM.Lib.Json
import PSM.Lib.Rendering
import PSM.ProcessSnapshot

/-! The list of processes on the page of a server.

The web writes the list into a hidden input as a Python literal, and the script of the page makes
JSON of it by replacing the quotes. The page has the list again (`roundTrips_iff`) when no name has
a quote in it: a double one cannot be told from the quotes of the literal, and a single one becomes
a double one. Backslashes are written alike in the two languages. -/

namespace PSM
open ByteStr
open Json (Text LexesTo)

/-! ## The page -/

/-- The dictionary of a process. The interpreter has the keys in an order of its own. -/
def RedisJob.ProcessData.toPy (nameFirst : Bool) (data : RedisJob.ProcessData) : PyValue :=
  let name := (ascii "name", .str data.name)
  let pids := (ascii "pids", .list (data.pids.map .str))
  .dict (if nameFirst then [name, pids] else [pids, name])

/-- The hidden input of `server_detail.html`, from behind `value="` on. -/
def serverDetail (nameFirst : Bool) (cpl : List RedisJob.ProcessData) : ByteStr :=
  Html.escape (PyValue.list (cpl.map fun data => data.toPy nameFirst)).repr ++ ascii "\">"

/-! ## The script -/

namespace Script

/-- An ASCII text as a text of the script. -/
def utf16 (s : ByteStr) : Text := s.map UInt8.toUInt16

/-- `replace(/'/gi, "\"")`. -/
def replaceQuotes (cpl : Text) : Text := cpl.map fun c => if c = 39 then 34 else c

def strToJsonArray (cpl : Text) : Option Json.Value := Json.parseText (replaceQuotes cpl)

def str? : Json.Value → Option Text
  | .str s => some s
  | _ => none

def strings? : Json.Value → Option (List Text)
  | .arr xs => xs.mapM str?
  | _ => none

/-- The name and the pids of an element of the list. -/
def readProcess (elem : Json.Value) : Option (Text × List Text) := do
  let name ← elem.member? (Json.text "name")
  let pids ← elem.member? (Json.text "pids")
  let name ← str? name
  let pids ← strings? pids
  some (name, pids)

def readProcesses : Json.Value → Option (List (Text × List Text))
  | .arr xs => xs.mapM readProcess
  | _ => none

/-- What the script has of the page. -/
def list (page : ByteStr) : Option (List (Text × List Text)) :=
  (strToJsonArray (utf16 (Html.attrValue page))).bind readProcesses

end Script

open Script

/-- A name of printable ASCII characters, and pids that are decimal numbers. -/
structure RedisJob.ProcessData.IsPrintable (data : RedisJob.ProcessData) : Prop where
  name : ∀ c ∈ data.name, 32 ≤ c ∧ c ≤ 126
  pids : ∀ pid ∈ data.pids, ∀ c ∈ pid, c = 45 ∨ 48 ≤ c ∧ c ≤ 57

instance (data : RedisJob.ProcessData) : Decidable data.IsPrintable :=
  decidable_of_iff ((data.name.all fun c => decide (32 ≤ c ∧ c ≤ 126)) = true ∧
      (data.pids.all fun pid => pid.all fun c => decide (c = 45 ∨ 48 ≤ c ∧ c ≤ 57)) = true) <| by
    simp only [List.all_eq_true, decide_eq_true_eq]
    exact ⟨fun h => ⟨h.1, h.2⟩, fun h => ⟨h.name, h.pids⟩⟩

/-- What the script should have of a process. -/
def RedisJob.ProcessData.shown (data : RedisJob.ProcessData) : Text × List Text :=
  (utf16 data.name, data.pids.map utf16)

/-- The script has the names and the pids of the list. -/
def RoundTrips (nameFirst : Bool) (cpl : List RedisJob.ProcessData) : Prop :=
  list (serverDetail nameFirst cpl) = some (cpl.map fun data => data.shown)

/-! ## Characters -/

namespace Script

/-- A character of the page, after the replacement. -/
def unit (c : UInt8) : UInt16 := if c = 39 then 34 else c.toUInt16

theorem replaceQuotes_utf16 (s : ByteStr) : replaceQuotes (utf16 s) = s.map unit := by
  rw [replaceQuotes, utf16, List.map_map]
  refine List.map_congr_left fun c _ => ?_
  have hc : c.toUInt16 = (39 : UInt8).toUInt16 ↔ c = 39 := UInt8.toUInt16_inj
  have hquote : (39 : UInt8).toUInt16 = 39 := rfl
  rw [hquote] at hc
  simp only [Function.comp_apply, unit, hc]

theorem list_serverDetail (nameFirst : Bool) (cpl : List RedisJob.ProcessData) :
    list (serverDetail nameFirst cpl) =
      (Json.parseText ((PyValue.list (cpl.map fun data => data.toPy nameFirst)).repr.map unit)).bind
        readProcesses := by
  have hend : ascii "\">" = 34 :: [62] := rfl
  rw [list, serverDetail, hend, Html.attrValue_escape, strToJsonArray, replaceQuotes_utf16]

/-- A printable string without quotes. -/
def IsClean (s : ByteStr) : Prop := ∀ c ∈ s, (32 ≤ c ∧ c ≤ 126) ∧ c ≠ 39 ∧ c ≠ 34

variable {s : ByteStr} {c : UInt8}

theorem map_reprChar (hc : (32 ≤ c ∧ c ≤ 126) ∧ c ≠ 39 ∧ c ≠ 34) :
    (PyValue.reprChar 39 c).map unit = Json.escapeUnit c.toUInt16 := by
  obtain ⟨hprintable, hsingle, hdouble⟩ := hc
  by_cases h : c = 92
  · rw [h]
    rfl
  · have hquote : c.toUInt16 ≠ 34 := fun heq => hdouble (UInt8.toUInt16_inj.mp heq)
    have hbackslash : c.toUInt16 ≠ 92 := fun heq => h (UInt8.toUInt16_inj.mp heq)
    have hplain : ¬(c = 39 ∨ c = 92) := not_or.mpr ⟨hsingle, h⟩
    have hmark : ¬(c.toUInt16 = Json.quote ∨ c.toUInt16 = Json.backslash) :=
      not_or.mpr ⟨hquote, hbackslash⟩
    rw [PyValue.reprChar_plain hplain hprintable, Json.escapeUnit, if_neg hmark,
      List.map_singleton, unit, if_neg hsingle]

/-- Without quotes, the two languages write a string alike. -/
theorem map_reprStr (hs : IsClean s) : (PyValue.reprStr s).map unit = Json.quoted (utf16 s) := by
  have hsingle : 39 ∉ s := fun h => (hs 39 h).2.1 rfl
  have hbody : s.flatMap (fun c => (PyValue.reprChar 39 c).map unit) =
      s.flatMap fun c => Json.escapeUnit c.toUInt16 :=
    List.flatMap_congr fun c hc => map_reprChar (hs c hc)
  rw [PyValue.reprStr, PyValue.reprQuote_of_notMem hsingle, List.map_append, List.map_cons,
    List.map_flatMap, hbody, Json.quoted, utf16, List.flatMap_map]
  rfl

/-! ## Values -/

open PyValue (reprElements reprItems)

mutual

/-- The value that a literal without quotes in its strings stands for. -/
def toJson : PyValue → Json.Value
  | .str s => .str (utf16 s)
  | .list xs => .arr (elementsToJson xs)
  | .dict items => .obj (itemsToJson items)

def elementsToJson : List PyValue → List Json.Value
  | [] => []
  | x :: xs => toJson x :: elementsToJson xs

def itemsToJson : List (ByteStr × PyValue) → List (Text × Json.Value)
  | [] => []
  | m :: ms => (utf16 m.1, toJson m.2) :: itemsToJson ms

end

theorem elementsToJson_eq_map (xs : List PyValue) :
    elementsToJson xs = xs.map toJson := by
  induction xs with
  | nil => rw [elementsToJson, List.map_nil]
  | cons x xs ih => rw [elementsToJson, ih, List.map_cons]

theorem lexesTo_reprStr {s : ByteStr} (hs : IsClean s) :
    LexesTo ((PyValue.reprStr s).map unit) [.str (utf16 s)] := by
  rw [map_reprStr hs]
  apply LexesTo.quoted
  intro c hc
  obtain ⟨b, hb, rfl⟩ := List.mem_map.mp hc
  exact UInt8.toUInt16_le.mpr (hs b hb).1.1

theorem lexesTo_comma : LexesTo ([44, 32].map unit) [.comma] :=
  (LexesTo.punctuation rfl).append .space

theorem lexesTo_item {k : ByteStr} {v : PyValue} (hk : IsClean k)
    (hv : LexesTo (v.repr.map unit) (toJson v).tokens) :
    LexesTo ((PyValue.reprStr k ++ 58 :: 32 :: v.repr).map unit)
      (.str (utf16 k) :: .colon :: (toJson v).tokens) := by
  have hcolon : LexesTo ([58, 32].map unit) [.colon] := (LexesTo.punctuation rfl).append .space
  rw [List.map_append]
  exact (lexesTo_reprStr hk).append (hcolon.append hv)

mutual

/-- After the replacement, a literal has the tokens of its value. -/
theorem lexesTo_repr : ∀ (v : PyValue), v.All IsClean →
    LexesTo (v.repr.map unit) (toJson v).tokens
  | .str s, .str hs => by
    rw [PyValue.repr, toJson, Json.Value.tokens]
    exact lexesTo_reprStr hs
  | .list xs, .list hxs => by
    have hbegin : LexesTo ([91].map unit) [.beginArray] := .punctuation rfl
    have hend : LexesTo ([93].map unit) [.endArray] := .punctuation rfl
    rw [PyValue.repr, List.map_append, toJson, Json.Value.tokens]
    exact (hbegin.append (lexesTo_reprElements xs hxs)).append hend
  | .dict items, .dict hkeys hitems => by
    have hbegin : LexesTo ([123].map unit) [.beginObject] := .punctuation rfl
    have hend : LexesTo ([125].map unit) [.endObject] := .punctuation rfl
    rw [PyValue.repr, List.map_append, toJson, Json.Value.tokens]
    exact (hbegin.append (lexesTo_reprItems items hkeys hitems)).append hend

theorem lexesTo_reprElements : ∀ (xs : List PyValue), (∀ x ∈ xs, x.All IsClean) →
    LexesTo ((reprElements xs).map unit) (Json.Value.elements (elementsToJson xs))
  | [], _ => by
    rw [reprElements, elementsToJson, Json.Value.elements]
    exact .nil
  | [x], h => by
    rw [reprElements, elementsToJson, elementsToJson, Json.Value.elements]
    exact lexesTo_repr x (h x List.mem_cons_self)
  | x :: y :: xs, h => by
    rw [List.forall_mem_cons] at h
    have hrest := lexesTo_reprElements (y :: xs) h.2
    rw [elementsToJson] at hrest
    rw [reprElements, List.map_append, elementsToJson, elementsToJson, Json.Value.elements]
    exact (lexesTo_repr x h.1).append (lexesTo_comma.append hrest)

theorem lexesTo_reprItems : ∀ (ms : List (ByteStr × PyValue)), (∀ m ∈ ms, IsClean m.1) →
    (∀ m ∈ ms, m.2.All IsClean) →
    LexesTo ((reprItems ms).map unit) (Json.Value.members (itemsToJson ms))
  | [], _, _ => by
    rw [reprItems, itemsToJson, Json.Value.members]
    exact .nil
  | [(k, v)], hkeys, h => by
    rw [List.forall_mem_cons] at hkeys h
    rw [reprItems, itemsToJson, itemsToJson, Json.Value.members]
    exact lexesTo_item hkeys.1 (lexesTo_repr v h.1)
  | (k, v) :: m :: ms, hkeys, h => by
    rw [List.forall_mem_cons] at hkeys h
    have hrest := lexesTo_reprItems (m :: ms) hkeys.2 h.2
    rw [itemsToJson] at hrest
    rw [reprItems, List.map_append, itemsToJson, itemsToJson, Json.Value.members]
    exact (lexesTo_item hkeys.1 (lexesTo_repr v h.1)).append (lexesTo_comma.append hrest)

end

theorem parseText_repr {v : PyValue} (hv : v.All IsClean) :
    Json.parseText (v.repr.map unit) = some (toJson v) := by
  rw [Json.parseText, (lexesTo_repr v hv).lex, Option.bind_some, Json.parse_tokens]

/-! ## Reading the list -/

theorem strings?_toJson (pids : List ByteStr) :
    strings? (toJson (.list (pids.map .str))) = some (pids.map utf16) := by
  have hread : ∀ pid ∈ pids, str? (toJson (.str pid)) = some (utf16 pid) := fun pid _ => by
    rw [toJson]
    rfl
  rw [toJson, strings?, elementsToJson_eq_map, List.map_map, List.mapM_map]
  exact mapM_eq_some_map hread

theorem readProcess_toJson (nameFirst : Bool) (data : RedisJob.ProcessData) :
    readProcess (toJson (data.toPy nameFirst)) = some data.shown := by
  have hname : (toJson (data.toPy nameFirst)).member? (Json.text "name") =
      some (toJson (.str data.name)) := by
    cases nameFirst <;> rfl
  have hpids : (toJson (data.toPy nameFirst)).member? (Json.text "pids") =
      some (toJson (.list (data.pids.map .str))) := by
    cases nameFirst <;> rfl
  rw [readProcess, hname, hpids]
  simp only [Option.bind_eq_bind, Option.bind_some, strings?_toJson]
  rw [toJson]
  rfl

/-- The value of the list. -/
theorem readProcesses_toJson (nameFirst : Bool) (cpl : List RedisJob.ProcessData) :
    readProcesses (toJson (.list (cpl.map fun data => data.toPy nameFirst))) =
      some (cpl.map fun data => data.shown) := by
  rw [toJson, readProcesses, elementsToJson_eq_map, List.map_map, List.mapM_map]
  exact mapM_eq_some_map fun data _ => readProcess_toJson nameFirst data

theorem forall_mem_pair {α : Type} {p : α → Prop} {a b : α} (ha : p a) (hb : p b) :
    ∀ x ∈ [a, b], p x :=
  List.forall_mem_cons.mpr ⟨ha, List.forall_mem_singleton.mpr hb⟩

/-- What holds of the names, the pids and the keys holds of all strings of the list. -/
theorem all_list {P : ByteStr → Prop} {nameFirst : Bool} {cpl : List RedisJob.ProcessData}
    (hname : P (ascii "name")) (hpids : P (ascii "pids"))
    (h : ∀ data ∈ cpl, P data.name ∧ ∀ pid ∈ data.pids, P pid) :
    (PyValue.list (cpl.map fun data => data.toPy nameFirst)).All P := by
  refine .list fun x hx => ?_
  obtain ⟨data, hdata, rfl⟩ := List.mem_map.mp hx
  obtain ⟨hdataName, hdataPids⟩ := h data hdata
  have hlist : (PyValue.list (data.pids.map .str)).All P := by
    refine .list fun y hy => ?_
    obtain ⟨pid, hpid, rfl⟩ := List.mem_map.mp hy
    exact .str (hdataPids pid hpid)
  cases nameFirst with
  | false => exact .dict (forall_mem_pair hpids hname) (forall_mem_pair hlist (.str hdataName))
  | true => exact .dict (forall_mem_pair hname hpids) (forall_mem_pair (.str hdataName) hlist)

/-! ## Both directions -/

variable {nameFirst : Bool} {cpl : List RedisJob.ProcessData}

/-- The quotes come before the characters of pids and keys. -/
theorem isClean_of_le {s : ByteStr} (h : ∀ c ∈ s, 40 ≤ c ∧ c ≤ 126) : IsClean s := by
  intro c hc
  obtain ⟨hlow, hhigh⟩ := h c hc
  have hne : ∀ d : UInt8, d < 40 → c ≠ d := by
    rintro d hd rfl
    exact absurd hlow (UInt8.not_le.mpr hd)
  exact ⟨⟨UInt8.le_trans (by decide) hlow, hhigh⟩, hne 39 (by decide), hne 34 (by decide)⟩

theorem isClean_keys : IsClean (ascii "name") ∧ IsClean (ascii "pids") := by
  have hkey : ∀ key : ByteStr, key.all (fun c => decide (40 ≤ c ∧ c ≤ 126)) = true →
      IsClean key := by
    intro key hall
    apply isClean_of_le
    exact fun c hc => of_decide_eq_true (List.all_eq_true.mp hall c hc)
  exact ⟨hkey _ rfl, hkey _ rfl⟩

theorem isClean_pid {pid : ByteStr} (h : ∀ c ∈ pid, c = 45 ∨ 48 ≤ c ∧ c ≤ 57) : IsClean pid := by
  apply isClean_of_le
  intro c hc
  rcases h c hc with rfl | ⟨hlow, hhigh⟩
  · decide
  · exact ⟨UInt8.le_trans (by decide) hlow, UInt8.le_trans hhigh (by decide)⟩

theorem roundTrips_of_clean (hcpl : ∀ data ∈ cpl, data.IsPrintable)
    (hclean : ∀ data ∈ cpl, 39 ∉ data.name ∧ 34 ∉ data.name) : RoundTrips nameFirst cpl := by
  have hall : (PyValue.list (cpl.map fun data => data.toPy nameFirst)).All IsClean := by
    refine all_list isClean_keys.1 isClean_keys.2 fun data hdata => ?_
    obtain ⟨hsingle, hdouble⟩ := hclean data hdata
    refine ⟨fun c hc => ⟨(hcpl data hdata).name c hc, ?_, ?_⟩, fun pid hpid =>
      isClean_pid ((hcpl data hdata).pids pid hpid)⟩
    · rintro rfl
      exact hsingle hc
    · rintro rfl
      exact hdouble hc
  rw [RoundTrips, list_serverDetail, parseText_repr hall, Option.bind_some, readProcesses_toJson]

theorem readProcess_all {P : Text → Prop} {elem : Json.Value} {process : Text × List Text}
    (helem : elem.All P) (h : readProcess elem = some process) : P process.1 := by
  obtain ⟨v, hv, h⟩ := Option.bind_eq_some_iff.mp h
  obtain ⟨w, -, h⟩ := Option.bind_eq_some_iff.mp h
  obtain ⟨name, hname, h⟩ := Option.bind_eq_some_iff.mp h
  obtain ⟨pids, -, h⟩ := Option.bind_eq_some_iff.mp h
  cases h
  have hall : v.All P := helem.member hv
  cases hall with
  | str hs =>
    cases hname
    exact hs
  | _ => cases hname

/-- The names that have been read are strings of the value. -/
theorem readProcesses_all {P : Text → Prop} {v : Json.Value} {processes : List (Text × List Text)}
    (hv : v.All P) (h : readProcesses v = some processes) : ∀ process ∈ processes, P process.1 := by
  cases hv with
  | @arr xs hxs =>
    intro process hprocess
    obtain ⟨elem, helem, hread⟩ := exists_of_mem_mapM h hprocess
    exact readProcess_all (hxs elem helem) hread
  | _ => cases h

/-- A printable string of which the literal has a backslash before the characters of `E` only. -/
def IsReadable (E : UInt16 → Prop) (s : ByteStr) : Prop :=
  ∀ c ∈ s, (32 ≤ c ∧ c ≤ 126) ∧ (c = 39 → E 34)

variable {E : UInt16 → Prop}

theorem unit_ne_backslash {c : UInt8} (h : c ≠ 92) : unit c ≠ Json.backslash := by
  unfold unit
  split
  · decide
  · exact fun heq => h (UInt8.toUInt16_inj.mp heq)

/-- Double quotes are chosen for a literal only when there are none in the string. -/
theorem escaped_reprQuote {s : ByteStr} (hs : IsReadable E s) (hc : PyValue.reprQuote s ∈ s) :
    E (unit (PyValue.reprQuote s)) := by
  unfold PyValue.reprQuote at hc ⊢
  split at hc
  · rename_i hquotes
    exact absurd hc hquotes.2
  · rename_i hquotes
    rw [if_neg hquotes]
    exact (hs 39 hc).2 rfl

theorem units_reprStr {s : ByteStr} (hE : E 92) (hs : IsReadable E s) :
    Json.Units E ((PyValue.reprStr s).map unit) := by
  have hquote : PyValue.reprQuote s ≠ 92 := by
    unfold PyValue.reprQuote
    split <;> decide
  have hchar : ∀ c ∈ s,
      Json.Units E ((PyValue.reprChar (PyValue.reprQuote s) c).map unit) := by
    intro c hc
    by_cases hmark : c = PyValue.reprQuote s ∨ c = 92
    · have hescaped : E (unit c) := by
        rcases hmark with rfl | rfl
        · exact escaped_reprQuote hs hc
        · exact hE
      rw [PyValue.reprChar_marked hmark]
      exact .escape hescaped .nil
    · rw [PyValue.reprChar_plain hmark (hs c hc).1]
      exact .char (unit_ne_backslash (not_or.mp hmark).2) .nil
  rw [PyValue.reprStr, List.map_append, List.map_cons, List.map_flatMap]
  exact .append (.char (unit_ne_backslash hquote) (.flatMap hchar))
    (.char (unit_ne_backslash hquote) .nil)

theorem units_item {k : ByteStr} {v : PyValue} (hE : E 92) (hk : IsReadable E k)
    (hv : Json.Units E (v.repr.map unit)) :
    Json.Units E ((PyValue.reprStr k ++ 58 :: 32 :: v.repr).map unit) := by
  rw [List.map_append]
  exact (units_reprStr hE hk).append (.char (by decide) (.char (by decide) hv))

mutual

/-- A literal has its backslashes in the strings. -/
theorem units_repr (hE : E 92) : ∀ (v : PyValue), v.All (IsReadable E) →
    Json.Units E (v.repr.map unit)
  | .str s, .str hs => by
    rw [PyValue.repr]
    exact units_reprStr hE hs
  | .list xs, .list hxs => by
    rw [PyValue.repr, List.map_append]
    exact .append (.char (by decide) (units_reprElements hE xs hxs)) (.char (by decide) .nil)
  | .dict items, .dict hkeys hitems => by
    rw [PyValue.repr, List.map_append]
    exact .append (.char (by decide) (units_reprItems hE items hkeys hitems))
      (.char (by decide) .nil)

theorem units_reprElements (hE : E 92) : ∀ (xs : List PyValue),
    (∀ x ∈ xs, x.All (IsReadable E)) → Json.Units E ((reprElements xs).map unit)
  | [], _ => by
    rw [reprElements]
    exact .nil
  | [x], h => by
    rw [reprElements]
    exact units_repr hE x (h x List.mem_cons_self)
  | x :: y :: xs, h => by
    rw [List.forall_mem_cons] at h
    rw [reprElements, List.map_append]
    exact (units_repr hE x h.1).append
      (.char (by decide) (.char (by decide) (units_reprElements hE (y :: xs) h.2)))

theorem units_reprItems (hE : E 92) : ∀ (ms : List (ByteStr × PyValue)),
    (∀ m ∈ ms, IsReadable E m.1) → (∀ m ∈ ms, m.2.All (IsReadable E)) →
    Json.Units E ((reprItems ms).map unit)
  | [], _, _ => by
    rw [reprItems]
    exact .nil
  | [(k, v)], hkeys, h => by
    rw [List.forall_mem_cons] at hkeys h
    rw [reprItems]
    exact units_item hE hkeys.1 (units_repr hE v h.1)
  | (k, v) :: m :: ms, hkeys, h => by
    rw [List.forall_mem_cons] at hkeys h
    rw [reprItems, List.map_append]
    exact (units_item hE hkeys.1 (units_repr hE v h.1)).append
      (.char (by decide) (.char (by decide) (units_reprItems hE (m :: ms) hkeys.2 h.2)))

end

/-- The names are made of what the text and its escapes have. -/
theorem name_of_roundTrips {Q : UInt16 → Prop} (hE : E 92)
    (hescapes : ∀ e, E e → e ≠ 117 ∧ ∀ x, Json.escaped? e = some x → Q x)
    (hQ : ∀ c, unit c ≠ Json.quote → Q (unit c)) (hcpl : ∀ data ∈ cpl, data.IsPrintable)
    (hsingle : ∀ data ∈ cpl, 39 ∈ data.name → E 34) (h : RoundTrips nameFirst cpl) :
    ∀ data ∈ cpl, ∀ c ∈ data.name, Q c.toUInt16 := by
  have hclean : ∀ {s}, IsClean s → IsReadable E s :=
    fun hs c hc => ⟨(hs c hc).1, fun heq => absurd heq (hs c hc).2.1⟩
  have hall : (PyValue.list (cpl.map fun data => data.toPy nameFirst)).All (IsReadable E) := by
    refine all_list (hclean isClean_keys.1) (hclean isClean_keys.2) fun data hdata => ?_
    obtain ⟨hname, hpids⟩ := hcpl data hdata
    exact ⟨fun c hc => ⟨hname c hc, fun heq => hsingle data hdata (heq ▸ hc)⟩,
      fun pid hpid => hclean (isClean_pid (hpids pid hpid))⟩
  rw [RoundTrips, list_serverDetail] at h
  obtain ⟨v, hparse, hread⟩ := Option.bind_eq_some_iff.mp h
  have hstrings : v.All fun s => ∀ c ∈ s, Q c := by
    refine Json.all_of_parseText hescapes (fun c hc => ?_) (units_repr hE _ hall) hparse
    obtain ⟨b, -, rfl⟩ := List.mem_map.mp hc
    exact hQ b
  intro data hdata c hc
  exact readProcesses_all hstrings hread data.shown (List.mem_map_of_mem hdata) c.toUInt16
    (List.mem_map_of_mem hc)

/-- First a name has no single quotes, so that backslashes stand before backslashes only, and then
it has no double ones. -/
theorem clean_of_roundTrips (hcpl : ∀ data ∈ cpl, data.IsPrintable)
    (h : RoundTrips nameFirst cpl) : ∀ data ∈ cpl, 39 ∉ data.name ∧ 34 ∉ data.name := by
  have hne : ∀ c, unit c ≠ 39 := by
    intro c
    unfold unit
    split
    · decide
    · rename_i hc
      exact fun heq => hc (UInt8.toUInt16_inj.mp heq)
  have hsingle : ∀ data ∈ cpl, 39 ∉ data.name := by
    have hescapes : ∀ e, e = Json.backslash ∨ e = Json.quote →
        e ≠ 117 ∧ ∀ x, Json.escaped? e = some x → x ≠ 39 := by
      rintro e (rfl | rfl) <;> exact ⟨by decide, fun x hx => by cases hx; decide⟩
    have hname := name_of_roundTrips (.inl rfl) hescapes (fun c _ => hne c) hcpl
      (fun _ _ _ => .inr rfl) h
    exact fun data hdata hmem => hname data hdata 39 hmem rfl
  refine fun data hdata => ⟨hsingle data hdata, fun hmem => ?_⟩
  have hescapes : ∀ e, e = Json.backslash → e ≠ 117 ∧ ∀ x, Json.escaped? e = some x → x ≠ 34 := by
    rintro e rfl
    exact ⟨by decide, fun x hx => by cases hx; decide⟩
  have hname := name_of_roundTrips (E := (· = 92)) (Q := (· ≠ 34)) rfl hescapes
    (fun _ hc => hc) hcpl (fun data hdata hc => absurd hc (hsingle data hdata)) h
  exact hname data hdata 34 hmem rfl

end Script

/-- The page has the list again exactly when there are no quotes in the names. -/
theorem roundTrips_iff {nameFirst : Bool} {cpl : List RedisJob.ProcessData}
    (hcpl : ∀ data ∈ cpl, data.IsPrintable) :
    RoundTrips nameFirst cpl ↔ ∀ data ∈ cpl, 39 ∉ data.name ∧ 34 ∉ data.name :=
  ⟨clean_of_roundTrips hcpl, roundTrips_of_clean hcpl⟩

theorem roundTrips_iff_backslash : RoundTrips true [⟨ascii "C:\\tool", [ascii "7"]⟩] :=
  (roundTrips_iff (List.forall_mem_singleton.mpr (by decide))).mpr
    (List.forall_mem_singleton.mpr (by decide))

/-- The single quote makes the literal one in double quotes, and becomes the end of the string. -/
theorem not_roundTrips_apostrophe : ¬∀ (nameFirst : Bool) (cpl : List RedisJob.ProcessData),
    (∀ data ∈ cpl, data.IsPrintable) → RoundTrips nameFirst cpl := by
  intro h
  have hcpl : ∀ data ∈ [(⟨ascii "it's", [ascii "7"]⟩ : RedisJob.ProcessData)], data.IsPrintable :=
    List.forall_mem_singleton.mpr (by decide)
  have hclean := clean_of_roundTrips hcpl (h true _ hcpl)
  rw [List.forall_mem_singleton] at hclean
  exact hclean.1 (by decide)

end PSM
