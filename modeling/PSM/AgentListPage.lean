import PSM.HostAddress
import PSM.RecentValue
import PSM.Lib.Calendar

/-! The page of agents.

The server writes the start of a recording as a local date and a local time, and `GetCurTime` reads
them back in the web's own zone (`getCurTime_localTime_iff`). `GetAgentListToView` compares that
with the clock, and computes the values of the agents that are recording. After any run of the
server the page is shown unless an address, a date or a size of memory is out of range
(`getAgentListToView_iff`). -/

namespace PSM
open ByteStr Redis RedisManager SampleHold Calendar

/-! ## The texts of the server -/

namespace RedisManager

/-- `%0*d`. -/
def padded (width n : Nat) : ByteStr :=
  List.replicate (width - (decimal n).length) 48 ++ decimal n

/-- `localtime_s` fails on a time before 1970 or after 3000, in UTC, and sets all fields to -1. -/
def HasLocalTime (timestamp : Int) : Prop := 0 ≤ timestamp ∧ timestamp ≤ 32535215999

instance (timestamp : Int) : Decidable (HasLocalTime timestamp) :=
  inferInstanceAs (Decidable (_ ∧ _))

/-- The seconds of the local time since the beginning of 1969. `zone` is how far the local time is
ahead. -/
def localSecond (zone : Int → Int) (timestamp : Int) : Nat :=
  (timestamp + zone timestamp + 31536000).toNat

/-- The date of `localtime_s`. -/
def localDate (zone : Int → Int) (timestamp : Int) : Date :=
  ofDays 1969 (localSecond zone timestamp / 86400)

def getCurrentDate (zone : Int → Int) (timestamp : Int) : ByteStr :=
  if HasLocalTime timestamp then
    let t := localDate zone timestamp
    padded 4 t.year ++ ascii "-" ++ padded 2 t.month ++ ascii "-" ++ padded 2 t.day
  else ascii "1899-00--1"

def getCurrTime (zone : Int → Int) (timestamp : Int) : ByteStr :=
  if HasLocalTime timestamp then
    let t := localSecond zone timestamp % 86400
    padded 2 (t / 3600) ++ ascii ":" ++ padded 2 (t / 60 % 60) ++ ascii ":" ++ padded 2 (t % 60)
  else ascii "-1:-1:-1"

/-- What `ChangeAgentState_startRecording` stores. -/
def localTime (zone : Int → Int) (timestamp : Int) : ByteStr :=
  getCurrentDate zone timestamp ++ ascii " " ++ getCurrTime zone timestamp

end RedisManager

/-! ## The page -/

namespace RedisJob

def minus : UInt8 := 45

/-- A number of ASCII digits. -/
def digits? (s : ByteStr) : Option Nat :=
  if s ≠ [] ∧ ∀ b ∈ s, 48 ≤ b ∧ b ≤ 57 then
    some (Nat.ofDigitChars 10 (s.map fun b => Char.ofNat b.toNat) 0)
  else none

/-- One or two digits for a number from 1 to `most`. -/
def shortField? (most : Nat) (s : ByteStr) : Option Nat :=
  if s.length ≤ 2 then (digits? s).filter fun n => 1 ≤ n ∧ n ≤ most else none

def yearField? (s : ByteStr) : Option Nat :=
  if s.length = 4 then (digits? s).filter (1 ≤ ·) else none

/-- A day may also be a space and a digit. -/
def dayField? : ByteStr → Option Nat
  | [32, digit] => shortField? 9 [digit]
  | s => shortField? 31 s

/-- `strptime(strdate, "%Y-%m-%d")`. -/
def strptime (strdate : ByteStr) : Option Date :=
  match strdate.splitOn minus with
  | [year, month, day] => do
    let year ← yearField? year
    let month ← shortField? 12 month
    let day ← dayField? day
    date? year month day
  | _ => none

/-- `mktime` takes the beginning of a date in the web's zone to its timestamp. -/
def getCurTime (mktime : Date → Int) (strdate strTime : ByteStr) : Option Int := do
  let time1 := mktime (← strptime strdate)
  let temp := strTime.splitOn colon
  let hour ← temp[0]?.bind int
  let minute ← temp[1]?.bind int
  let second ← temp[2]?.bind int
  some (time1 + (hour * 3600 + minute * 60 + second))

/-- What the page uses of Python and of its clock. `number` is the number that a `double` is written
as and read from. -/
structure PageEnv (V : Type) where
  float : ByteStr → Option V
  round : V → V
  number : BitVec 64 → V
  mktime : Date → Int

/-- The readings of the clock for one agent. -/
structure Readings where
  start : Int
  cpu : Int
  memory : Int
  disk : Int

structure AgentRow (V : Type) where
  recording : Bool
  cpu : V
  memory : V
  disk : V
  state : ByteStr
  color : ByteStr
  name : ByteStr
  ip : ByteStr
  index : Int
  token : ByteStr

section
variable {V : Type} [Add V] [Sub V] [Mul V] [Div V] [IntCast V] [Zero V] [DecidableEq V]

def getMachineValue_recent (env : PageEnv V) (s : Store HashValue) (number : Int)
    (counter : ByteStr) (responseTime interval curTime : Int) : Option V :=
  let key := decimal number ++ ascii ":" ++ counter ++ ascii ":" ++ ascii "Total"
  getRecentValue env.float env.round s key responseTime interval curTime

/-- The body of the loop of `GetAgentListToView`. -/
def agentRow (env : PageEnv V) (s : Store HashValue) (clock : Readings) (token : ByteStr)
    (agent : AgentRecord) : Option (AgentRow V) := do
  let state := if agent.isOn then ascii "Run" else ascii "Stop"
  let row (recording : Bool) (cpu memory disk : V) (state color : ByteStr) :
      Option (AgentRow V) := do
    let ip ← int2ip agent.hostIP
    some ⟨recording, cpu, memory, disk, state, color, agent.agentName, ip, agent.agentNumber, token⟩
  if agent.isRecording then
    let t := agent.startTime.splitOn space
    let startTime ← getCurTime env.mktime (← t[0]?) (← t[1]?)
    if clock.start > startTime then
      let recent := getMachineValue_recent env s agent.agentNumber
      let cpu ← recent (ascii "CPUTime") agent.responseTime 60 clock.cpu
      let mv ← recent (ascii "Memory") agent.responseTime 60 clock.memory
      let ram := env.number agent.ramSize / ((1024 : Int) : V)
      -- a division by zero raises an exception
      if ram = 0 then none
      else
        let disk ← recent (ascii "Disk") agent.responseTime 60 clock.disk
        let hundred := ((100 : Int) : V)
        row true cpu (env.round (hundred - mv / ram * hundred)) (env.round (hundred - disk))
          (state ++ ascii "(Recording)") (ascii "green")
    else row false 0 0 0 (state ++ ascii "(Ready)") (ascii "black")
  else row false 0 0 0 (state ++ ascii "(Stop)") (ascii "red")

def getAgentListToView (env : PageEnv V) (s : Store HashValue) (clock : ByteStr → Readings) :
    Option (List (AgentRow V)) :=
  (s.hash agentList).entries.mapM fun e =>
    e.2.record?.bind fun agent => agentRow env s (clock e.1) e.1 agent

end

end RedisJob

/-! ## Reading a text back -/

section
variable {width n : Nat}

theorem decimal_natCast (n : Nat) : (decimal n).map (fun b => Char.ofNat b.toNat) =
    Nat.toDigits 10 n := by
  have hrepr : (n : Int).repr = n.repr := rfl
  rw [decimal, ascii, hrepr, Nat.toList_repr, List.map_map]
  refine (List.map_congr_left fun c hc => ?_).trans (List.map_id _)
  have hdigit := Nat.isDigit_of_mem_toDigits (by decide) (by decide) hc
  have hlt := isDecimalChar_lt (.inl hdigit)
  simp only [Function.comp_apply, Nat.toUInt8, UInt8.toNat_ofNat', id_eq]
  rw [Nat.mod_eq_of_lt (by omega), Char.ofNat_toNat]

theorem length_decimal (n : Nat) : (decimal n).length = (Nat.toDigits 10 n).length := by
  rw [← decimal_natCast, List.length_map]

theorem digit_of_mem_decimal {b : UInt8} (h : b ∈ decimal n) : 48 ≤ b ∧ b ≤ 57 := by
  have hlt := lt_of_mem_decimal h
  obtain ⟨c, hc, rfl⟩ := List.mem_map.mp h
  have hrepr : (n : Int).repr = n.repr := rfl
  rw [hrepr, Nat.toList_repr] at hc
  have hdigit := Nat.isDigit_of_mem_toDigits (by decide) (by decide) hc
  have hlt := isDecimalChar_lt (.inl hdigit)
  simp only [Char.isDigit, Bool.and_eq_true, decide_eq_true_eq] at hdigit
  have hle : 48 ≤ c.toNat := hdigit.1
  simp only [UInt8.le_iff_toNat_le, Nat.toUInt8, UInt8.toNat_ofNat', UInt8.reduceToNat]
  omega

theorem digit_of_mem_padded {b : UInt8} (h : b ∈ padded width n) : 48 ≤ b ∧ b ≤ 57 := by
  rcases List.mem_append.mp h with h | h
  · rw [List.eq_of_mem_replicate h]
    decide
  · exact digit_of_mem_decimal h

theorem length_padded (hpos : 0 < width) (h : n < 10 ^ width) :
    (padded width n).length = width := by
  have hle : (decimal n).length ≤ width := by
    rw [length_decimal, Nat.length_toDigits_le_iff (by decide) hpos]
    exact h
  rw [padded, List.length_append, List.length_replicate]
  omega

theorem notMem_padded {sep : UInt8} (hsep : ¬(48 ≤ sep ∧ sep ≤ 57)) : sep ∉ padded width n :=
  fun h => hsep (digit_of_mem_padded h)

/-- The characters of a padded number. -/
def paddedChars (width n : Nat) : List Char :=
  List.replicate (width - (decimal n).length) '0' ++ Nat.toDigits 10 n

theorem map_padded (width n : Nat) :
    (padded width n).map (fun b => Char.ofNat b.toNat) = paddedChars width n := by
  have hzero : Char.ofNat (48 : UInt8).toNat = '0' := rfl
  rw [padded, List.map_append, List.map_replicate, decimal_natCast, hzero]
  rfl

theorem isDigit_of_mem_paddedChars {c : Char} (h : c ∈ paddedChars width n) : c.isDigit := by
  rcases List.mem_append.mp h with h | h
  · rw [List.eq_of_mem_replicate h]
    decide
  · exact Nat.isDigit_of_mem_toDigits (by decide) (by decide) h

theorem ofDigitChars_paddedChars (width n : Nat) :
    Nat.ofDigitChars 10 (paddedChars width n) 0 = n := by
  rw [paddedChars, Nat.ofDigitChars_append, Nat.ofDigitChars_replicate_zero, Nat.mul_zero,
    Nat.ofDigitChars_ten_toDigits]

theorem paddedChars_ne_nil (width n : Nat) : paddedChars width n ≠ [] := by
  intro hnil
  have hpos : 0 < (Nat.toDigits 10 n).length := Nat.length_toDigits_pos
  rw [(List.append_eq_nil_iff.mp hnil).2] at hpos
  exact absurd hpos (by decide)

theorem digits?_padded (width n : Nat) : RedisJob.digits? (padded width n) = some n := by
  have hne : padded width n ≠ [] := by
    intro hnil
    refine paddedChars_ne_nil width n ?_
    rw [← map_padded, hnil, List.map_nil]
  rw [RedisJob.digits?, if_pos ⟨hne, fun b hb => digit_of_mem_padded hb⟩, map_padded,
    ofDigitChars_paddedChars]

theorem shortField?_padded {most : Nat} (hn : 1 ≤ n) (hmost : n ≤ most) (h : n < 100) :
    RedisJob.shortField? most (padded 2 n) = some n := by
  have hlen : (padded 2 n).length = 2 := length_padded (by decide) (by omega)
  rw [RedisJob.shortField?, if_pos (Nat.le_of_eq hlen), digits?_padded]
  simp [hn, hmost]

theorem int_padded (width n : Nat) : RedisJob.int (padded width n) = some (n : Int) := by
  rw [RedisJob.int, map_padded]
  apply String.toInt?_eq_some_of_toNat?_eq_some
  have hnat : (String.ofList (paddedChars width n)).isNat = true := by
    apply String.isNat_of_isDigit
    · intro hempty
      refine paddedChars_ne_nil width n ?_
      rw [← String.toList_ofList (l := paddedChars width n), hempty]
      rfl
    · intro c hc
      rw [String.toList_ofList] at hc
      exact isDigit_of_mem_paddedChars hc
  have hfilter : (paddedChars width n).filter (· != '_') = paddedChars width n := by
    refine List.filter_eq_self.mpr fun c hc => ?_
    have hdigit := isDigit_of_mem_paddedChars hc
    rw [bne_iff_ne]
    rintro rfl
    exact absurd hdigit (by decide)
  rw [String.toNat?_eq_some_ofDigitChars hnat, String.toList_ofList, hfilter,
    ofDigitChars_paddedChars]

end

/-- The beginning of a date, in seconds since the beginning of 1970. -/
def dateSecond (date : Date) : Int := 86400 * toDays 1969 date - 31536000

/-- The web's offset at the beginning of a date. -/
def webOffset (mktime : Date → Int) (date : Date) : Int := dateSecond date - mktime date

/-- `localtime_s` takes the time, and the local time is at most a day from UTC. -/
structure InZone (zone : Int → Int) (timestamp : Int) : Prop where
  hasLocalTime : HasLocalTime timestamp
  behind : -86400 ≤ zone timestamp
  ahead : zone timestamp ≤ 86400

instance (zone : Int → Int) (timestamp : Int) : Decidable (InZone zone timestamp) :=
  decidable_of_iff
    (HasLocalTime timestamp ∧ -86400 ≤ zone timestamp ∧ zone timestamp ≤ 86400)
    ⟨fun h => ⟨h.1, h.2.1, h.2.2⟩, fun h => ⟨h.1, h.2, h.3⟩⟩

namespace RedisJob

variable {zone : Int → Int} {mktime : Date → Int} {timestamp : Int}

theorem splitOn_three {sep : UInt8} {a b c : ByteStr} (ha : sep ∉ a) (hb : sep ∉ b) (hc : sep ∉ c) :
    (a ++ [sep] ++ b ++ [sep] ++ c).splitOn sep = [a, b, c] := by
  simp only [List.append_assoc, List.cons_append, List.nil_append]
  rw [List.splitOn_append_cons_self_of_not_mem ha, List.splitOn_append_cons_self_of_not_mem hb,
    List.splitOn_eq_singleton hc]

theorem yearField?_padded {n : Nat} (hn : 1 ≤ n) (h : n ≤ 9999) :
    yearField? (padded 4 n) = some n := by
  have hlen : (padded 4 n).length = 4 := length_padded (by decide) (by omega)
  rw [yearField?, if_pos hlen, digits?_padded]
  simp [hn]

theorem dayField?_padded {n : Nat} (hn : 1 ≤ n) (h : n ≤ 31) :
    dayField? (padded 2 n) = some n := by
  unfold dayField?
  split
  · rename_i digit heq
    have hdigit := digit_of_mem_padded (heq ▸ List.mem_cons_self : (32 : UInt8) ∈ padded 2 n)
    exact absurd hdigit (by decide)
  · exact shortField?_padded hn h (by omega)

theorem natCast_localSecond (h : InZone zone timestamp) :
    (localSecond zone timestamp : Int) = timestamp + zone timestamp + 31536000 := by
  have hpos := h.hasLocalTime.1
  have hbehind := h.behind
  exact Int.toNat_of_nonneg (by omega)

/-- The years have four digits. -/
theorem year_localDate_le (h : InZone zone timestamp) : (localDate zone timestamp).year ≤ 9999 := by
  have hle := h.hasLocalTime.2
  have hahead := h.ahead
  have hsecond := natCast_localSecond h
  have hyear : (localDate zone timestamp).year < 1969 + 8000 := year_ofDays_lt (by omega)
  omega

/-- The date is read back. -/
theorem strptime_getCurrentDate (h : InZone zone timestamp) :
    strptime (getCurrentDate zone timestamp) = some (localDate zone timestamp) := by
  have hminus (width n : Nat) : minus ∉ padded width n := notMem_padded (by decide)
  have hascii : ascii "-" = [minus] := rfl
  have hpos : 1969 ≤ (localDate zone timestamp).year := Nat.le_add_right _ _
  have hyear := year_localDate_le h
  rw [strptime, getCurrentDate, if_pos h.hasLocalTime]
  generalize localDate zone timestamp = date at hyear hpos ⊢
  have hmonth := date.month_le
  have hday := Nat.le_trans date.day_le (daysInMonth_le date.year date.month)
  dsimp only
  rw [hascii, splitOn_three (hminus _ _) (hminus _ _) (hminus _ _)]
  dsimp only
  rw [yearField?_padded (by omega) hyear, shortField?_padded date.month_pos hmonth (by omega),
    dayField?_padded date.day_pos hday]
  exact date.date?_eq

theorem splitOn_getCurrTime (h : HasLocalTime timestamp) :
    (getCurrTime zone timestamp).splitOn colon =
      [padded 2 (localSecond zone timestamp % 86400 / 3600),
        padded 2 (localSecond zone timestamp % 86400 / 60 % 60),
        padded 2 (localSecond zone timestamp % 86400 % 60)] := by
  have hcolon (width n : Nat) : colon ∉ padded width n := notMem_padded (by decide)
  have hascii : ascii ":" = [colon] := rfl
  rw [getCurrTime, if_pos h, hascii, splitOn_three (hcolon _ _) (hcolon _ _) (hcolon _ _)]

/-- The web reads the time of the server, moved by the difference of the offsets. -/
theorem getCurTime_localTime (h : InZone zone timestamp) :
    getCurTime mktime (getCurrentDate zone timestamp) (getCurrTime zone timestamp) =
      some (timestamp + zone timestamp - webOffset mktime (localDate zone timestamp)) := by
  have hdays : toDays 1969 (localDate zone timestamp) = localSecond zone timestamp / 86400 :=
    toDays_ofDays _ _
  have hsecond := natCast_localSecond h
  rw [getCurTime, strptime_getCurrentDate h, Option.bind_eq_bind, Option.bind_some,
    splitOn_getCurrTime h.hasLocalTime]
  simp only [List.getElem?_cons_zero, List.getElem?_cons_succ, Option.bind_some, int_padded,
    Option.bind_eq_bind, Option.some.injEq]
  rw [webOffset, dateSecond, hdays]
  omega

/-- What the web reads, and that it is the time of the server if and only if the offset that the web
takes at the beginning of the day is the server's at that time. -/
theorem getCurTime_localTime_iff (h : InZone zone timestamp) :
    getCurTime mktime (getCurrentDate zone timestamp) (getCurrTime zone timestamp) =
        some (timestamp + zone timestamp - webOffset mktime (localDate zone timestamp)) ∧
      (getCurTime mktime (getCurrentDate zone timestamp) (getCurrTime zone timestamp) =
        some timestamp ↔ webOffset mktime (localDate zone timestamp) = zone timestamp) := by
  refine ⟨getCurTime_localTime h, ?_⟩
  rw [getCurTime_localTime h, Option.some.injEq]
  omega

end RedisJob

/-! ## The records of a run -/

/-- All records of the list have the property, and there is nothing else in it. -/
structure AllRecords (P : Int → AgentRecord → Prop) (s : Store HashValue) : Prop where
  only : ∀ e ∈ (s.hash agentList).entries, ∃ token jv, e = ⟨decimal token, .json jv⟩
  all : ∀ token jv, recordAt s token = some jv → P token jv

namespace AllRecords

variable {P Q : Int → AgentRecord → Prop} {s s' : Store HashValue} {token : Int} {jv : AgentRecord}

theorem of_empty (h : s.hash agentList = ∅) : AllRecords P s where
  only e he := by
    rw [h] at he
    cases he
  all token jv hjv := by
    rw [recordAt, h, AList.lookup_empty] at hjv
    cases hjv

theorem mono (hs : AllRecords P s) (h : ∀ token jv, P token jv → Q token jv) : AllRecords Q s :=
  ⟨hs.only, fun token jv hjv => h token jv (hs.all token jv hjv)⟩

theorem of_hash (hs : AllRecords P s) (h : s'.hash agentList = s.hash agentList) :
    AllRecords P s' where
  only := by
    rw [h]
    exact hs.only
  all token jv hjv := by
    rw [recordAt, h] at hjv
    exact hs.all token jv hjv

theorem setRecord (hs : AllRecords P s) (h : P token jv) :
    AllRecords P (setRecord s token jv) where
  only e he := by
    have hlookup : e.2 ∈ ((RedisManager.setRecord s token jv).hash agentList).lookup e.1 :=
      AList.mem_lookup_iff.mpr he
    have hhash : (RedisManager.setRecord s token jv).hash agentList =
        (s.hash agentList).insert (decimal token) (.json jv) := by
      simp only [RedisManager.setRecord, setValue, exec, Function.update_self]
    rw [hhash] at hlookup
    by_cases hkey : e.1 = decimal token
    · rw [hkey, AList.lookup_insert] at hlookup
      obtain ⟨key, v⟩ := e
      cases hkey
      cases hlookup
      exact ⟨token, jv, rfl⟩
    · rw [AList.lookup_insert_ne hkey] at hlookup
      exact hs.only e (AList.mem_lookup_iff.mp hlookup)
  all token' jv' hjv' := by
    rw [recordAt_setRecord] at hjv'
    split at hjv'
    · rename_i htoken
      cases hjv'
      rw [htoken]
      exact h
    · exact hs.all token' jv' hjv'

theorem changeAgentState {change : AgentRecord → AgentRecord} {b : Bool} (hs : AllRecords P s)
    (hchange : ∀ jv, P token jv → P token (change jv))
    (h : (RedisManager.changeAgentState token change).run s = some (b, s')) : AllRecords P s' := by
  rw [changeAgentState_run] at h
  split at h
  · rename_i jv hjv
    cases h
    exact hs.setRecord (hchange jv (hs.all token jv hjv))
  · cases h
    exact hs

end AllRecords

namespace Server

variable {ι : Type} [DecidableEq ι]

/-- The token of an agent that is ready, and the time. -/
def readyOf (s : Server ι) : ServerEvent ι → List (Int × Int)
  | .agent i now .agentReady => [((s.socket i).token, now)]
  | _ => []

/-- When the agents of a run were ready. -/
def readies (ext : Externals) (s : Server ι) (es : List (ServerEvent ι)) : List (Int × Int) :=
  (machine ext).collect readyOf s es

end Server

/-- The last time for a token. -/
def lastReady (readies : List (Int × Int)) (token : Int) : Option Int :=
  ((readies.filter (·.1 = token)).getLast?).map Prod.snd

/-- An agent that is recording has been started when it was last ready. -/
def Started (localTime : Int → ByteStr) (readies : List (Int × Int)) (token : Int)
    (jv : AgentRecord) : Prop :=
  jv.isRecording = true → jv.responseTime = 10 ∧
    ∃ t, lastReady readies token = some t ∧ jv.startTime = localTime t

section
variable {localTime : Int → ByteStr} {readies : List (Int × Int)} {token token' now : Int}

theorem lastReady_append_self : lastReady (readies ++ [(token, now)]) token = some now := by
  simp [lastReady]

theorem lastReady_append_ne (h : token ≠ token') :
    lastReady (readies ++ [(token', now)]) token = lastReady readies token := by
  have hne : ¬token' = token := fun heq => h heq.symm
  simp [lastReady, hne]

theorem mem_of_lastReady {t : Int} (h : lastReady readies token = some t) :
    (token, t) ∈ readies := by
  obtain ⟨⟨token', t'⟩, hlast, rfl⟩ := Option.map_eq_some_iff.mp h
  obtain ⟨hmem, htoken⟩ := List.mem_filter.mp (List.mem_of_getLast? hlast)
  obtain rfl : token' = token := of_decide_eq_true htoken
  exact hmem

end

theorem AllRecords.startRecording {localTime : Int → ByteStr} {times : List (Int × Int)}
    {s s' : Store HashValue} {now token : Int} {b : Bool}
    (hs : AllRecords (Started localTime times) s)
    (h : (changeAgentState_startRecording localTime now token (-1) 10 0).run s = some (b, s')) :
    AllRecords (Started localTime (times ++ [(token, now)])) s' where
  only := by
    have htrue : AllRecords (fun _ _ => True) s := hs.mono fun _ _ _ => trivial
    exact (htrue.changeAgentState (fun _ => id) h).only
  all token' jv' hjv' := by
    rw [changeAgentState_startRecording, changeAgentState_run] at h
    by_cases htoken : token' = token
    · subst htoken
      split at h
      · cases h
        rw [recordAt_setRecord, if_pos rfl] at hjv'
        cases hjv'
        intro _
        refine ⟨rfl, now, lastReady_append_self, ?_⟩
        dsimp only
        rw [Int.add_zero]
      · rename_i hnone
        cases h
        rw [hnone] at hjv'
        cases hjv'
    · have hjv : recordAt s token' = some jv' := by
        split at h
        · cases h
          rwa [recordAt_setRecord, if_neg htoken] at hjv'
        · cases h
          exact hjv'
      unfold Started
      rw [lastReady_append_ne htoken]
      exact hs.all token' jv' hjv

namespace Server

variable {ι : Type} [DecidableEq ι] {s s' : Server ι} {ext : Externals} {e : ServerEvent ι}
  {es : List (ServerEvent ι)} {times : List (Int × Int)}

/-- Apart from `AgentReady`, nothing starts a recording. -/
theorem started_step (h : (machine ext).step s e = some s')
    (hs : AllRecords (Started ext.localTime times) s.store) :
    AllRecords (Started ext.localTime (times ++ s.readyOf e)) s'.store := by
  have hnil : readyOf s e = [] → AllRecords (Started ext.localTime times) s'.store →
      AllRecords (Started ext.localTime (times ++ s.readyOf e)) s'.store := by
    intro hready hs'
    rwa [hready, List.append_nil]
  cases change_of_step h with
  | acceptError => exact hnil rfl hs
  | accept => exact hnil rfl hs
  | disconnectError => exact hnil rfl hs
  | disconnect hrun hrun' =>
    refine hnil rfl ?_
    have hs' := hs.changeAgentState (by exact fun _ hjv => hjv) hrun
    exact hs'.changeAgentState (fun _ _ hrecording => by cases hrecording) hrun'
  | web hweb => exact hnil rfl (hs.of_hash (webEffect_web hweb).sameAgents.hash)
  | reorder => exact hnil rfl (hs.of_hash rfl)
  | @agent i now msg _ hpacket =>
    replace h : AgentSocket.packetHandling ext now i s msg = some s' := h
    cases hpacket with
    | @register token hostIP ramSize jv hfind hjv =>
      refine hnil rfl (hs.setRecord fun hrecording => ?_)
      obtain ⟨-, hnew⟩ | ⟨jvv, hjvv, rfl⟩ := initValue_eq_json_iff.mp hjv
      · rw [hnew] at hrecording
        cases hrecording
      · exact hs.all token jvv hjvv hrecording
    | refuse => exact hnil rfl hs
    | ready hrun =>
      exact hs.startRecording hrun
    | _ => exact hnil rfl (hs.of_hash (sameAgents_packet (by trivial) h).hash)

theorem started_run (hs : s.store.hash RedisManager.agentList = ∅)
    (h : (machine ext).run s es = some s') :
    AllRecords (Started ext.localTime (readies ext s es)) s'.store := by
  refine EventMachine.run_induction
    (P := fun es s' => AllRecords (Started ext.localTime (readies ext s es)) s'.store) ?_ ?_ h
  · exact .of_empty hs
  · intro es e t t' hrun ht hstep
    have hreadies : readies ext s (es ++ [e]) = readies ext s es ++ t.readyOf e :=
      EventMachine.collect_concat hrun
    rw [hreadies]
    exact started_step hstep ht

omit [DecidableEq ι] in
theorem mem_readyOf {token t : Int} (h : (token, t) ∈ s.readyOf e) :
    ∃ i, e = .agent i t .agentReady := by
  cases e with
  | agent i now msg =>
    cases msg with
    | agentReady =>
      cases List.mem_singleton.mp h
      exact ⟨i, rfl⟩
    | _ => cases h
  | _ => cases h

/-- The times come from the events. -/
theorem exists_agentReady {token t : Int} (h : (token, t) ∈ readies ext s es) :
    ∃ i, ServerEvent.agent i t .agentReady ∈ es := by
  induction es generalizing s with
  | nil => cases h
  | cons e es ih =>
    rcases List.mem_append.mp h with h | h
    · obtain ⟨i, rfl⟩ := mem_readyOf h
      exact ⟨i, List.mem_cons_self⟩
    · cases hstep : (machine ext).step s e with
      | none =>
        rw [hstep] at h
        cases h
      | some s' =>
        rw [hstep] at h
        obtain ⟨i, hi⟩ := ih h
        exact ⟨i, List.mem_cons_of_mem _ hi⟩

end Server

/-! ## The page after a run -/

namespace RedisJob

section
variable {V : Type} [Add V] [Sub V] [Mul V] [Div V] [IntCast V] [Zero V] [DecidableEq V]

/-- The web takes the recording of the agent to have begun. -/
def begun (zone : Int → Int) (mktime : Date → Int) (started : Option Int) (now : Int) : Bool :=
  started.any fun t => t + zone t - webOffset mktime (localDate zone t) < now

/-- The state that the page shows. -/
def stateText (isOn isRecording begun : Bool) : ByteStr :=
  (if isOn then ascii "Run" else ascii "Stop") ++
    if isRecording then if begun then ascii "(Recording)" else ascii "(Ready)" else ascii "(Stop)"

/-- Every list can be read, and has the newest entry first. -/
def ListsReadable (float : ByteStr → Option V) (s : Store HashValue) : Prop :=
  ∀ key, ∃ entries, Reads float (s.list key) entries ∧ NewestFirst entries

variable {env : PageEnv V} {s : Store HashValue} {zone : Int → Int} {times : List (Int × Int)}
  {clock : Readings} {token : Int} {agent : AgentRecord}

omit [Sub V] [DecidableEq V] in
/-- The recent values of an agent that is recording can be computed. -/
theorem exists_recent (hlists : ListsReadable env.float s) {responseTime : Int}
    (h : 1 ≤ responseTime) (number : Int) (counter : ByteStr) (curTime : Int) :
    ∃ x, getMachineValue_recent env s number counter responseTime 60 curTime = some x := by
  obtain ⟨entries, hreads, hentries⟩ := hlists
    (decimal number ++ ascii ":" ++ counter ++ ascii ":" ++ ascii "Total")
  have hcompletes : Completes env.float env.round s _ responseTime 60 curTime :=
    (completes_iff_one_le hreads hentries (by decide)).mpr (.inl h)
  exact Option.isSome_iff_exists.mp hcompletes.returns

theorem splitOn_localTime {t : Int} (h : HasLocalTime t) : (localTime zone t).splitOn space =
    [getCurrentDate zone t, getCurrTime zone t] := by
  have hspace (width n : Nat) : space ∉ padded width n := notMem_padded (by decide)
  have hdate : space ∉ getCurrentDate zone t := by
    simp only [getCurrentDate, if_pos h, List.mem_append, not_or, hspace, not_false_eq_true, true_and,
      and_true]
    exact ⟨by decide, by decide⟩
  have htime : space ∉ getCurrTime zone t := by
    simp only [getCurrTime, if_pos h, List.mem_append, not_or, hspace, not_false_eq_true, true_and,
      and_true]
    exact ⟨by decide, by decide⟩
  have hascii : ascii " " = [space] := rfl
  rw [localTime, hascii, List.append_assoc, List.singleton_append,
    List.splitOn_append_cons_self_of_not_mem hdate, List.splitOn_eq_singleton htime]

/-- The address is in range and, once the recording has begun, the size of the memory can be
divided by. -/
def Showable (env : PageEnv V) (agent : AgentRecord) (begun : Bool) : Prop :=
  (0 ≤ agent.hostIP ∧ agent.hostIP < 2 ^ 32) ∧
    (agent.isRecording = true → begun = true → env.number agent.ramSize / ((1024 : Int) : V) ≠ 0)

theorem agentRow_stopped (h : agent.isRecording = false) :
    agentRow env s clock (decimal token) agent = (int2ip agent.hostIP).map fun ip =>
      ⟨false, 0, 0, 0, stateText agent.isOn false false, ascii "red", agent.agentName, ip,
        agent.agentNumber, decimal token⟩ := by
  unfold agentRow
  simp only [h, Bool.false_eq_true, if_false]
  exact Option.map_eq_bind.symm

section
variable (hlists : ListsReadable env.float s)
  (hstarted : Started (localTime zone) times token agent)
  (hclock : ∀ t, lastReady times token = some t → InZone zone t)
include hlists hstarted hclock

/-- What the page computes for an agent that is recording. -/
theorem agentRow_recording (hrecording : agent.isRecording) :
    (begun zone env.mktime (lastReady times token) clock.start = true ∧
      env.number agent.ramSize / ((1024 : Int) : V) = 0 ∧
      agentRow env s clock (decimal token) agent = none) ∨
    (begun zone env.mktime (lastReady times token) clock.start = true →
      env.number agent.ramSize / ((1024 : Int) : V) ≠ 0) ∧
    ∃ recording cpu memory disk color, agentRow env s clock (decimal token) agent =
      (int2ip agent.hostIP).map fun ip => ⟨recording, cpu, memory, disk, stateText agent.isOn true
        (begun zone env.mktime (lastReady times token) clock.start), color, agent.agentName, ip,
        agent.agentNumber, decimal token⟩ := by
  obtain ⟨hresponse, t, hlast, htime⟩ := hstarted hrecording
  have hzone := hclock t hlast
  have hbegun : begun zone env.mktime (lastReady times token) clock.start =
      decide (t + zone t - webOffset env.mktime (localDate zone t) < clock.start) := by
    rw [begun, hlast]
    rfl
  have hone : 1 ≤ agent.responseTime := by omega
  obtain ⟨cpu, hcpu⟩ := exists_recent hlists hone agent.agentNumber (ascii "CPUTime") clock.cpu
  obtain ⟨mv, hmv⟩ := exists_recent hlists hone agent.agentNumber (ascii "Memory") clock.memory
  obtain ⟨disk, hdisk⟩ := exists_recent hlists hone agent.agentNumber (ascii "Disk") clock.disk
  rw [hbegun]
  unfold agentRow
  simp only [hrecording, if_true, htime, splitOn_localTime hzone.hasLocalTime,
    List.getElem?_cons_zero, List.getElem?_cons_succ, Option.bind_eq_bind, Option.bind_some,
    getCurTime_localTime hzone]
  by_cases hlt : t + zone t - webOffset env.mktime (localDate zone t) < clock.start
  · simp only [gt_iff_lt, hlt, if_true, hcpu, hmv, hdisk, Option.bind_some, decide_true]
    by_cases hram : env.number agent.ramSize / ((1024 : Int) : V) = 0
    · exact .inl ⟨trivial, hram, if_pos hram⟩
    · let hundred := ((100 : Int) : V)
      refine .inr ⟨fun _ => hram, true, cpu, env.round (hundred - mv / (env.number agent.ramSize /
        ((1024 : Int) : V)) * hundred), env.round (hundred - disk), ascii "green", ?_⟩
      rw [if_neg hram]
      exact Option.map_eq_bind.symm
  · simp only [gt_iff_lt, hlt, if_false, decide_false]
    exact .inr ⟨nofun, false, 0, 0, 0, ascii "black", Option.map_eq_bind.symm⟩

/-- An agent has a row if and only if it can be shown. -/
theorem agentRow_ne_none_iff : agentRow env s clock (decimal token) agent ≠ none ↔
      Showable env agent (begun zone env.mktime (lastReady times token) clock.start) := by
  cases hrecording : agent.isRecording with
  | false =>
    rw [agentRow_stopped hrecording, ne_eq, Option.map_eq_none_iff, ← ne_eq, int2ip_ne_none_iff,
      Showable, hrecording]
    simp
  | true =>
    rw [Showable]
    rcases agentRow_recording hlists hstarted hclock hrecording with
      ⟨hbegun, hram, hrow⟩ | ⟨hram, recording, cpu, memory, disk, color, hrow⟩
    · rw [hrow]
      exact iff_of_false (fun hne => hne rfl) fun h => h.2 hrecording hbegun hram
    · rw [hrow, ne_eq, Option.map_eq_none_iff, ← ne_eq, int2ip_ne_none_iff]
      exact (and_iff_left fun _ => hram).symm

/-- What a row shows. -/
theorem eq_of_agentRow {row : AgentRow V}
    (h : agentRow env s clock (decimal token) agent = some row) :
    row.token = decimal token ∧ row.state = stateText agent.isOn agent.isRecording
      (begun zone env.mktime (lastReady times token) clock.start) := by
  cases hrecording : agent.isRecording with
  | false =>
    rw [agentRow_stopped hrecording] at h
    obtain ⟨ip, -, rfl⟩ := Option.map_eq_some_iff.mp h
    exact ⟨rfl, rfl⟩
  | true =>
    rcases agentRow_recording hlists hstarted hclock hrecording with
      ⟨-, -, hrow⟩ | ⟨-, recording, cpu, memory, disk, color, hrow⟩
    · rw [hrow] at h
      cases h
    · rw [hrow] at h
      obtain ⟨ip, -, rfl⟩ := Option.map_eq_some_iff.mp h
      exact ⟨rfl, rfl⟩

end

theorem recordAt_of_mem {e : (_ : ByteStr) × HashValue} (he : e ∈ (s.hash agentList).entries)
    (h : e = ⟨decimal token, .json agent⟩) : recordAt s token = some agent := by
  subst h
  rw [recordAt, AList.mem_lookup_iff.mpr he]
  rfl

theorem mem_of_recordAt (h : recordAt s token = some agent) :
    ⟨decimal token, .json agent⟩ ∈ (s.hash agentList).entries := by
  obtain ⟨v, hv, hrecord⟩ := Option.bind_eq_some_iff.mp h
  cases v with
  | json jv =>
    cases hrecord
    exact AList.mem_lookup_iff.mp hv
  | unread r => cases hrecord
  | text x => cases hrecord

section
variable {ι : Type} [DecidableEq ι] {ext : Externals} {s₀ s' : Server ι} {es : List (ServerEvent ι)}
  {clocks : ByteStr → Readings}

/-- After any run the page is shown if and only if every agent can be, and then each agent has its
row, with the state that follows from when it was last ready. -/
theorem getAgentListToView_iff (hzone : ext.localTime = localTime zone)
    (hs : s₀.store.hash agentList = ∅) (h : (Server.machine ext).run s₀ es = some s')
    (hclock : ∀ i now, ServerEvent.agent i now .agentReady ∈ es → InZone zone now)
    (hlists : ListsReadable env.float s'.store) :
    ((getAgentListToView env s'.store clocks).isSome ↔
      ∀ token agent, recordAt s'.store token = some agent → Showable env agent
        (begun zone env.mktime (lastReady (Server.readies ext s₀ es) token)
          (clocks (decimal token)).start)) ∧
    ∀ rows, getAgentListToView env s'.store clocks = some rows →
      rows.length = (s'.store.hash agentList).entries.length ∧
      ∀ token agent, recordAt s'.store token = some agent → ∃ row ∈ rows,
        row.token = decimal token ∧ row.state = stateText agent.isOn agent.isRecording
          (begun zone env.mktime (lastReady (Server.readies ext s₀ es) token)
            (clocks (decimal token)).start) := by
  have hall := Server.started_run hs h
  rw [hzone] at hall
  have hdates (token t : Int) (hlast : lastReady (Server.readies ext s₀ es) token = some t) :
      InZone zone t := by
    obtain ⟨i, hi⟩ := Server.exists_agentReady (mem_of_lastReady hlast)
    exact hclock i t hi
  refine ⟨?_, ?_⟩
  · rw [getAgentListToView, isSome_mapM_iff]
    constructor
    · intro hrows token agent hagent
      have hrow := hrows _ (mem_of_recordAt hagent)
      exact (agentRow_ne_none_iff hlists (hall.all token agent hagent) (hdates token)).mp hrow
    · intro hshow e he
      obtain ⟨token, agent, heq⟩ := hall.only e he
      have hagent := recordAt_of_mem he heq
      have hrow := (agentRow_ne_none_iff hlists (hall.all token agent hagent) (hdates token)).mpr
        (hshow token agent hagent)
      rw [heq]
      exact hrow
  · intro rows hrows
    refine ⟨length_of_mapM hrows, fun token agent hagent => ?_⟩
    obtain ⟨row, hrow, hmem⟩ := exists_mem_of_mapM hrows (mem_of_recordAt hagent)
    exact ⟨row, hmem, eq_of_agentRow hlists (hall.all token agent hagent) (hdates token) hrow⟩

end

end

end RedisJob

/-! ## A page -/

/-- Nine hours ahead. -/
def nineHours (_ : Int) : Int := 32400

def nineHoursAhead : Externals := { Externals.ofTexts [] with localTime := localTime nineHours }

/-- The web's zone is that of Greenwich. -/
def greenwichPage : RedisJob.PageEnv ℚ where
  float := RedisJob.oneOrZero
  round := id
  number _ := 4096
  mktime := dateSecond

/-- The host is ready one second past the beginning of 1970. -/
def readyHost : List (ServerEvent Nat) :=
  [.accept false 0, .agent 0 0 (.agentIDRequest 7 7 0), .agent 0 1 .agentReady]

theorem getCurTime_localTime_iff_nineHours :
    RedisJob.getCurTime greenwichPage.mktime (getCurrentDate nineHours 1)
        (getCurrTime nineHours 1) = some (1 + nineHours 1 -
          webOffset greenwichPage.mktime (localDate nineHours 1)) ∧
      (RedisJob.getCurTime greenwichPage.mktime (getCurrentDate nineHours 1)
        (getCurrTime nineHours 1) = some 1 ↔
        webOffset greenwichPage.mktime (localDate nineHours 1) = nineHours 1) :=
  RedisJob.getCurTime_localTime_iff (by decide)

theorem readyHost_runs : ∃ s', (Server.machine nineHoursAhead).run (Server.init Store.empty)
    readyHost = some s' ∧ s'.store.list = fun _ => [] := ⟨_, rfl, rfl⟩

theorem now_of_mem_readyHost {i : Nat} {now : Int}
    (h : ServerEvent.agent i now .agentReady ∈ readyHost) : now = 1 := by
  rcases List.mem_cons.mp h with h | h
  · cases h
  · rcases List.mem_cons.mp h with h | h
    · cases h
    · cases List.mem_singleton.mp h
      rfl

/-- The clock is read when the recording has been going on for six seconds. -/
def readings (_ : ByteStr) : RedisJob.Readings := ⟨7, 7, 7, 7⟩

theorem getAgentListToView_iff_readyHost : ∃ s',
    (Server.machine nineHoursAhead).run (Server.init Store.empty) readyHost = some s' ∧
    ((RedisJob.getAgentListToView greenwichPage s'.store readings).isSome ↔
      ∀ token agent, recordAt s'.store token = some agent → RedisJob.Showable greenwichPage agent
        (RedisJob.begun nineHours greenwichPage.mktime (lastReady (Server.readies nineHoursAhead
          (Server.init Store.empty) readyHost) token) (readings (decimal token)).start)) := by
  obtain ⟨s', hs', hlist⟩ := readyHost_runs
  have hlists : RedisJob.ListsReadable greenwichPage.float s'.store := by
    intro key
    rw [hlist]
    exact ⟨[], .nil, .nil⟩
  have hzone : nineHoursAhead.localTime = localTime nineHours := rfl
  have hempty : (Server.init Store.empty : Server Nat).store.hash agentList = ∅ := rfl
  have hclock (i : Nat) (now : Int) (h : ServerEvent.agent i now .agentReady ∈ readyHost) :
      InZone nineHours now := by
    cases now_of_mem_readyHost h
    decide
  exact ⟨s', hs', (RedisJob.getAgentListToView_iff hzone hempty hs' hclock hlists).1⟩

/-- On this page an agent that is recording is not yet shown so. -/
example : RedisJob.begun nineHours greenwichPage.mktime (some 1) 7 = false := by decide

end PSM
