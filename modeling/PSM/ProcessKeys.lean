import PSM.Lib.Glob
import PSM.RedisManager

/-! The keys of a process (`GetProcessKeys`).

The logs of a process are stored under keys that end in its identifier, and the web finds them by a
pattern: the part of the key before the identifier, and a star. The parts of a key cannot contain the
colon that separates them, so that the text before the star determines the agent, the counter and the
process. But it is a pattern as well, and exact only when no byte in it has a meaning
(`findsExactly_iff`). -/

namespace PSM
open ByteStr Redis RedisManager Glob

/-! ## The store -/

/-- A packet that `SaveProcessInfo` or `SaveMachineInfo` saves, with the names of the counters at the
time. -/
inductive SaveCall where
  | processInfo (m : CounterNameMap) (agentID : Int) (info : List Agent.ProcessInfos)
  | machineInfo (m : CounterNameMap) (agentID : Int) (info : List Agent.MachineInfos)

namespace SaveCall

def program (ops : DoubleOps) : SaveCall → Client HashValue Bool
  | .processInfo m agentID info => saveProcessInfo ops m agentID info
  | .machineInfo m agentID info => saveMachineInfo ops m agentID info

/-- The keys under which logs are pushed. -/
def keys : SaveCall → List ByteStr
  | .processInfo m agentID info => (info.filter (·.logs ≠ [])).map (processInfoKey m agentID)
  | .machineInfo m agentID info => (info.filter (·.logs ≠ [])).map (machineInfoKey m agentID)

end SaveCall

/-- The name of a file in Windows, as far as the bytes go that separate or have a meaning. -/
def LegalName (name : ByteStr) : Prop := ∀ b ∈ name, b ∉ ascii ":*?/\\"

instance (name : ByteStr) : Decidable (LegalName name) :=
  inferInstanceAs (Decidable (∀ b ∈ name, _))

theorem LegalName.colon_notMem {name : ByteStr} (h : LegalName name) : colon ∉ name :=
  fun hmem => h colon hmem (by decide)

theorem LegalName.anyByte_notMem {name : ByteStr} (h : LegalName name) : anyByte ∉ name :=
  fun hmem => h anyByte hmem (by decide)

/-- No counter has a colon in its name, and the processes have names of files. -/
def SaveCall.Named : SaveCall → Prop
  | .processInfo m _ info =>
    ∀ pi ∈ info, colon ∉ counterNameToNewName m pi.counterName ∧ LegalName pi.processName
  | .machineInfo m _ info => ∀ mi ∈ info, colon ∉ counterNameToNewName m mi.counterName

/-- The store after the calls. -/
def fill (ops : DoubleOps) (s : Store HashValue) : List SaveCall → Option (Store HashValue)
  | [] => some s
  | call :: calls => ((call.program ops).run s).bind fun r => fill ops r.2 calls

namespace RedisJob

/-- The part of a key before the identifier of the process, as `PRedis` puts it together. -/
def prevKey (agentNumber : Int) (counter name : ByteStr) : ByteStr :=
  (ascii ":").intercalate [decimal agentNumber, counter, name]

/-- `keys` is the command of Redis. -/
def getProcessKeys (keys : ByteStr → List ByteStr) (prevkey : ByteStr) : List ByteStr :=
  (keys (prevkey ++ ascii ":*")).foldl (fun keys data => keys ++ [data]) []

/-- What the command answers: the keys that are in use and match the pattern, in any order. -/
def IsKeys (s : Store HashValue) (keys : ByteStr → List ByteStr) : Prop :=
  ∀ pattern, (keys pattern).Nodup ∧ ∀ key, key ∈ keys pattern ↔ ¬s.Unused key ∧ glob pattern key = true

/-- Logs of the process and the counter are stored under the key. -/
def StoredFor (calls : List SaveCall) (agentNumber : Int) (counter name key : ByteStr) : Prop :=
  ∃ m info, SaveCall.processInfo m agentNumber info ∈ calls ∧ ∃ pi ∈ info,
    counterNameToNewName m pi.counterName = counter ∧ pi.processName = name ∧ pi.logs ≠ [] ∧
      key = processLogKey agentNumber counter pi

/-- In every store, the keys of the process are found, each once and no others. -/
def FindsExactly (ops : DoubleOps) (agentNumber : Int) (counter name : ByteStr) : Prop :=
  ∀ calls, (∀ call ∈ calls, SaveCall.Named call) → ∀ s, fill ops Store.empty calls = some s →
    ∀ keys, IsKeys s keys →
      (getProcessKeys keys (prevKey agentNumber counter name)).Nodup ∧
      ∀ key, key ∈ getProcessKeys keys (prevKey agentNumber counter name) ↔
        StoredFor calls agentNumber counter name key

/-- No byte of the name has a meaning in a pattern. -/
def Plain (name : ByteStr) : Prop := ∀ b ∈ name, ¬Special b

instance (name : ByteStr) : Decidable (Plain name) :=
  inferInstanceAs (Decidable (∀ b ∈ name, ¬_))

/-! ## The keys in use -/

section
variable {s s' : Store HashValue} {ops : DoubleOps} {call : SaveCall} {calls : List SaveCall}
  {key c c' p p' : ByteStr} {n : Int} {keys : ByteStr → List ByteStr}

theorem getProcessKeys_eq {prevkey : ByteStr} :
    getProcessKeys keys prevkey = keys (prevkey ++ ascii ":*") := by
  have happend (xs ys : List ByteStr) :
      ys.foldl (fun keys data => keys ++ [data]) xs = xs ++ ys := by
    induction ys generalizing xs with
    | nil => simp
    | cons y ys ih => rw [List.foldl_cons, ih, List.append_assoc, List.singleton_append]
  rw [getProcessKeys, happend, List.nil_append]

theorem unused_pushEach {keyOf : α → ByteStr} {values : α → List ByteStr} {info : List α} {b : Bool}
    (h : (pushEach keyOf values info).run s = some (b, s')) :
    ¬s'.Unused key ↔ ¬s.Unused key ∨ ∃ x ∈ info, values x ≠ [] ∧ keyOf x = key := by
  obtain ⟨_, hrun, hhash, hset⟩ := pushEach_run keyOf values info s
  rw [hrun] at h
  cases h
  have hpushed : (∃ x ∈ info, values x ≠ [] ∧ keyOf x = key) ↔
      ¬∀ x ∈ info.filter (keyOf · = key), values x = [] := by
    simp only [List.mem_filter, decide_eq_true_eq, not_forall, exists_prop]
    exact exists_congr fun x => by tauto
  unfold Store.Unused
  rw [hhash, hset, pushEach_list hrun, hpushed]
  simp only [List.append_eq_nil_iff, List.reverse_eq_nil_iff, List.flatMap_eq_nil_iff]
  tauto

theorem SaveCall.exists_run : ∃ r, (call.program ops).run s = some r := by
  cases call with
  | processInfo m agentID info =>
    obtain ⟨_, hrun, -⟩ := pushEach_run (processInfoKey m agentID) (processInfoValues ops m) info s
    exact ⟨_, hrun⟩
  | machineInfo m agentID info =>
    obtain ⟨_, hrun, -⟩ := pushEach_run (machineInfoKey m agentID) (machineInfoValues ops) info s
    exact ⟨_, hrun⟩

/-- A call uses its keys, and no others. -/
theorem SaveCall.unused_run {r : Bool × Store HashValue} (h : (call.program ops).run s = some r) :
    ¬r.2.Unused key ↔ ¬s.Unused key ∨ key ∈ call.keys := by
  cases call with
  | processInfo m agentID info =>
    refine (unused_pushEach h).trans (or_congr_right ?_)
    simp [SaveCall.keys, processInfoValues, and_assoc]
  | machineInfo m agentID info =>
    refine (unused_pushEach h).trans (or_congr_right ?_)
    simp [SaveCall.keys, machineInfoValues, and_assoc]

theorem unused_fill (h : fill ops s calls = some s') :
    ¬s'.Unused key ↔ ¬s.Unused key ∨ ∃ call ∈ calls, key ∈ call.keys := by
  induction calls generalizing s with
  | nil =>
    cases h
    simp
  | cons call calls ih =>
    obtain ⟨r, hrun, hfill⟩ := Option.bind_eq_some_iff.mp h
    rw [ih hfill, SaveCall.unused_run hrun, List.exists_mem_cons_iff, or_assoc]

theorem exists_fill : ∃ s', fill ops s calls = some s' := by
  induction calls generalizing s with
  | nil => exact ⟨s, rfl⟩
  | cons call calls ih =>
    obtain ⟨r, hrun⟩ := @SaveCall.exists_run s ops call
    obtain ⟨s', hs'⟩ := @ih r.2
    exact ⟨s', Option.bind_eq_some_iff.mpr ⟨r, hrun, hs'⟩⟩

/-- After the calls the keys in use are theirs. -/
theorem used_iff (h : fill ops Store.empty calls = some s) :
    ¬s.Unused key ↔ ∃ call ∈ calls, key ∈ call.keys := by
  rw [unused_fill h, or_iff_right]
  exact not_not.mpr ⟨rfl, rfl, rfl⟩

/-- The answers that there are. -/
theorem exists_isKeys (h : fill ops Store.empty calls = some s) : ∃ keys, IsKeys s keys := by
  refine ⟨fun pattern => (calls.flatMap SaveCall.keys).dedup.filter (glob pattern), fun pattern =>
    ⟨(List.nodup_dedup _).filter _, fun key => ?_⟩⟩
  rw [List.mem_filter, List.mem_dedup, List.mem_flatMap, used_iff h]

/-! ## The parts of a key -/

theorem prevKey_eq : prevKey n c p = decimal n ++ colon :: (c ++ colon :: p) := by
  simp [prevKey, List.intercalate, ascii, colon]

theorem processLogKey_eq {pi : Agent.ProcessInfos} : processLogKey n c pi =
    decimal n ++ colon :: (c ++ colon :: (pi.processName ++ colon :: decimal pi.processID.toInt)) := by
  have hcolon : ascii ":" = [colon] := rfl
  simp [processLogKey, agentKey, hcolon]

theorem machineLogKey_eq :
    machineLogKey n c = decimal n ++ colon :: (c ++ colon :: ascii "Total") := by
  have htotal : ascii ":Total" = colon :: ascii "Total" := rfl
  rw [machineLogKey, agentKey, htotal]

theorem plain_decimal : Plain (decimal n) := by
  intro b hb hspecial
  have hlt := lt_of_mem_decimal hb
  have hle := of_mem_decimal hb
  rcases hspecial with rfl | rfl | rfl | rfl <;>
    simp only [starByte, anyByte, openByte, escapeByte, UInt8.toNat_ofNat] at hlt hle <;> omega

theorem not_special_colon : ¬Special colon := by decide

theorem pattern_eq : prevKey n c p ++ ascii ":*" =
    decimal n ++ [colon] ++ (c ++ colon :: (p ++ [colon])) ++ [starByte] := by
  have hstar : ascii ":*" = [colon, starByte] := rfl
  rw [prevKey_eq, hstar]
  simp

/-- With plain names, the pattern is a beginning of the key. -/
theorem glob_pattern_iff (hc : Plain c) (hp : Plain p) : glob (prevKey n c p ++ ascii ":*") key = true ↔
    ∃ r, key = decimal n ++ colon :: (c ++ colon :: (p ++ colon :: r)) := by
  have hplain : ∀ b ∈ decimal n ++ [colon] ++ (c ++ colon :: (p ++ [colon])), ¬Special b := by
    simp only [List.mem_append, List.mem_cons, List.not_mem_nil, or_false]
    rintro b ((hb | rfl) | hb | rfl | hb | rfl)
    · exact plain_decimal b hb
    · exact not_special_colon
    · exact hc b hb
    · exact not_special_colon
    · exact hp b hb
    · exact not_special_colon
  rw [pattern_eq, glob_prefix hplain]
  constructor
  · rintro ⟨r, rfl⟩
    exact ⟨r, by simp⟩
  · rintro ⟨r, rfl⟩
    exact ⟨r, by simp⟩

/-- Such a beginning determines the parts of a key of a process. -/
theorem processLogKey_begins_iff {pi : Agent.ProcessInfos} {n' : Int} (hc : colon ∉ c) (hp : colon ∉ p)
    (hc' : colon ∉ c') (hp' : colon ∉ pi.processName) :
    (∃ r, processLogKey n' c' pi = decimal n ++ colon :: (c ++ colon :: (p ++ colon :: r))) ↔
      n' = n ∧ c' = c ∧ pi.processName = p := by
  simp only [processLogKey_eq, decimal_colon_inj, append_sep_inj hc' hc, append_sep_inj hp' hp]
  constructor
  · rintro ⟨r, hn, hcounter, hname, -⟩
    exact ⟨hn, hcounter, hname⟩
  · rintro ⟨hn, hcounter, hname⟩
    exact ⟨_, hn, hcounter, hname, rfl⟩

/-- No key of a machine begins so. -/
theorem machineLogKey_not_begins {n' : Int} (hc : colon ∉ c) (hc' : colon ∉ c') (r : ByteStr) :
    machineLogKey n' c' ≠ decimal n ++ colon :: (c ++ colon :: (p ++ colon :: r)) := by
  rw [machineLogKey_eq, ne_eq, decimal_colon_inj, append_sep_inj hc' hc]
  rintro ⟨-, -, htotal⟩
  have hmem : colon ∈ ascii "Total" := htotal ▸ List.mem_append_right p List.mem_cons_self
  exact absurd hmem (by decide)

theorem findsExactly_of_plain (hc : colon ∉ c) (hp : LegalName p) (hcplain : Plain c)
    (hpplain : Plain p) : FindsExactly ops n c p := by
  intro calls hcalls s hfill keys hkeys
  rw [getProcessKeys_eq]
  refine ⟨(hkeys _).1, fun key => ?_⟩
  rw [(hkeys _).2, used_iff hfill, glob_pattern_iff hcplain hpplain]
  constructor
  · rintro ⟨⟨call, hcall, hkey⟩, r, hr⟩
    cases call with
    | processInfo m agentID info =>
      simp only [SaveCall.keys, List.mem_map, List.mem_filter, decide_eq_true_eq] at hkey
      obtain ⟨pi, ⟨hpi, hlogs⟩, rfl⟩ := hkey
      obtain ⟨hcounter, hname⟩ := hcalls _ hcall pi hpi
      obtain ⟨rfl, rfl, rfl⟩ := (processLogKey_begins_iff hc hp.colon_notMem hcounter
        hname.colon_notMem).mp ⟨r, hr⟩
      exact ⟨m, info, hcall, pi, hpi, rfl, rfl, hlogs, rfl⟩
    | machineInfo m agentID info =>
      simp only [SaveCall.keys, List.mem_map, List.mem_filter, decide_eq_true_eq] at hkey
      obtain ⟨mi, ⟨hmi, -⟩, rfl⟩ := hkey
      exact absurd hr (machineLogKey_not_begins hc (hcalls _ hcall mi hmi) r)
  · rintro ⟨m, info, hcall, pi, hpi, rfl, rfl, hlogs, rfl⟩
    refine ⟨⟨_, hcall, ?_⟩, ?_⟩
    · simp only [SaveCall.keys, List.mem_map, List.mem_filter, decide_eq_true_eq]
      exact ⟨pi, ⟨hpi, hlogs⟩, rfl⟩
    · exact (processLogKey_begins_iff hc hp.colon_notMem hc hp.colon_notMem).mpr ⟨rfl, rfl, rfl⟩

/-! ## One log -/

/-- A packet with a log of the process with the identifier 1. -/
def oneLog (n : Int) (c p : ByteStr) : SaveCall :=
  .processInfo (fun _ => some c) n [⟨[], p, 1, [⟨0, 0⟩]⟩]

def oneKey (n : Int) (c p : ByteStr) : ByteStr :=
  decimal n ++ [colon] ++ (c ++ colon :: (p ++ [colon])) ++ ascii "1"

theorem named_oneLog (hc : colon ∉ c) (hp : LegalName p) :
    ∀ call ∈ [oneLog n c p], SaveCall.Named call := by
  rw [List.forall_mem_singleton]
  intro pi hpi
  cases List.mem_singleton.mp hpi
  exact ⟨hc, hp⟩

theorem keys_oneLog : (oneLog n c p).keys = [oneKey n c p] := by
  have hkey : processInfoKey (fun _ => some c) n ⟨[], p, 1, [⟨0, 0⟩]⟩ = oneKey n c p := by
    have hone : decimal 1 = ascii "1" := rfl
    unfold processInfoKey
    rw [processLogKey_eq]
    simp [counterNameToNewName, oneKey, hone]
  exact congrArg (fun key => [key]) hkey

theorem storedFor_oneLog_iff :
    StoredFor [oneLog n c' p'] n c p (oneKey n c' p') ↔ c' = c ∧ p' = p := by
  constructor
  · rintro ⟨m, info, hcall, pi, hpi, hcounter, hname, -⟩
    cases List.mem_singleton.mp hcall
    cases List.mem_singleton.mp hpi
    exact ⟨hcounter, hname⟩
  · rintro ⟨rfl, rfl⟩
    refine ⟨_, _, List.mem_singleton_self _, _, List.mem_singleton_self _, rfl, rfl, by simp, ?_⟩
    exact (List.singleton_inj.mp keys_oneLog).symm

/-- Where keys are found exactly, the pattern matches the key of one log just if it is of the
process. -/
theorem FindsExactly.glob_oneKey_iff (h : FindsExactly ops n c p) (hc' : colon ∉ c')
    (hp' : LegalName p') :
    glob (prevKey n c p ++ ascii ":*") (oneKey n c' p') = true ↔ c' = c ∧ p' = p := by
  obtain ⟨s, hfill⟩ := @exists_fill Store.empty ops [oneLog n c' p']
  obtain ⟨keys, hkeys⟩ := exists_isKeys hfill
  have hused : ¬s.Unused (oneKey n c' p') := by
    rw [used_iff hfill]
    exact ⟨_, List.mem_singleton_self _, by rw [keys_oneLog]; exact List.mem_singleton_self _⟩
  have hexact := (h _ (named_oneLog hc' hp') s hfill keys hkeys).2 (oneKey n c' p')
  rw [getProcessKeys_eq, (hkeys _).2, and_iff_right hused] at hexact
  exact hexact.trans storedFor_oneLog_iff

theorem insertIdx_append_left {xs ys : ByteStr} {i : Nat} {x : UInt8} (h : i ≤ xs.length) :
    (xs ++ ys).insertIdx i x = xs.insertIdx i x ++ ys := by
  induction i generalizing xs with
  | zero => rfl
  | succ i ih =>
    cases xs with
    | nil => simp at h
    | cons y xs =>
      rw [List.cons_append, List.insertIdx_succ_cons, List.insertIdx_succ_cons,
        ih (Nat.le_of_succ_le_succ h), List.cons_append]

theorem insertIdx_append_right {xs ys : ByteStr} {i : Nat} {x : UInt8} :
    (xs ++ ys).insertIdx (xs.length + i) x = xs ++ ys.insertIdx i x := by
  induction xs with
  | nil => rw [List.length_nil, Nat.zero_add, List.nil_append, List.nil_append]
  | cons y xs ih =>
    rw [List.length_cons, Nat.succ_add, List.cons_append, List.insertIdx_succ_cons, ih,
      List.cons_append]

/-- A byte put into the key of one log, after the number of the agent and before the identifier, is
in the name of the counter or in that of the process. -/
theorem insertIdx_oneKey {x : UInt8} {i : Nat} (hle : (decimal n ++ [colon]).length ≤ i)
    (hlt : i < (decimal n ++ [colon] ++ (c ++ colon :: (p ++ [colon]))).length) :
    (∃ j ≤ c.length, (oneKey n c p).insertIdx i x = oneKey n (c.insertIdx j x) p) ∨
      ∃ j ≤ p.length, (oneKey n c p).insertIdx i x = oneKey n c (p.insertIdx j x) := by
  obtain ⟨j, rfl⟩ := Nat.exists_eq_add_of_le hle
  have hparts : oneKey n c p =
      (decimal n ++ [colon]) ++ (c ++ colon :: (p ++ colon :: ascii "1")) := by
    simp [oneKey]
  rw [hparts, insertIdx_append_right]
  by_cases hj : j ≤ c.length
  · refine .inl ⟨j, hj, ?_⟩
    rw [insertIdx_append_left hj]
    simp [oneKey]
  · obtain ⟨k, rfl⟩ := Nat.exists_eq_add_of_lt (Nat.lt_of_not_le hj)
    simp only [List.length_append, List.length_cons, List.length_nil] at hlt
    refine .inr ⟨k, by omega, ?_⟩
    rw [Nat.add_assoc, insertIdx_append_right, List.insertIdx_succ_cons,
      insertIdx_append_left (by omega)]
    simp [oneKey]

/-- One more byte makes it the key of another process, or for another counter. -/
theorem FindsExactly.not_glob_insertIdx (h : FindsExactly ops n c p) (hc : colon ∉ c)
    (hp : LegalName p) {x : UInt8} (hx : LegalName [x]) {i : Nat}
    (hle : (decimal n ++ [colon]).length ≤ i)
    (hlt : i < (decimal n ++ [colon] ++ (c ++ colon :: (p ++ [colon]))).length) :
    ¬glob (prevKey n c p ++ ascii ":*") ((oneKey n c p).insertIdx i x) = true := by
  intro hglob
  rcases insertIdx_oneKey hle hlt with ⟨j, hj, hkey⟩ | ⟨j, hj, hkey⟩
  · have hcolon : colon ∉ c.insertIdx j x := by
      rw [List.mem_insertIdx hj, not_or]
      exact ⟨fun heq => hx.colon_notMem (heq ▸ List.mem_singleton_self x), hc⟩
    rw [hkey, h.glob_oneKey_iff hcolon hp] at hglob
    have hlen := congrArg List.length hglob.1
    rw [List.length_insertIdx_of_le_length hj] at hlen
    omega
  · have hlegal : LegalName (p.insertIdx j x) := by
      intro b hb
      rcases (List.mem_insertIdx hj).mp hb with rfl | hb
      · exact hx b (List.mem_singleton_self b)
      · exact hp b hb
    rw [hkey, h.glob_oneKey_iff hc hlegal] at hglob
    have hlen := congrArg List.length hglob.2
    rw [List.length_insertIdx_of_le_length hj] at hlen
    omega

/-- Another byte for each `?` makes it a key for another counter. -/
theorem oneKey_fillAny {x : UInt8} (hp : LegalName p) :
    decimal n ++ [colon] ++ fillAny x (c ++ colon :: (p ++ [colon])) ++ ascii "1" =
      oneKey n (fillAny x c) p := by
  have hcolon : (if colon = anyByte then x else colon) = colon := if_neg (by decide)
  have hlast : fillAny x [colon] = [colon] := congrArg (fun b => [b]) hcolon
  rw [oneKey, fillAny, List.map_append, List.map_cons, List.map_append, hcolon, ← fillAny, ← fillAny,
    ← fillAny, fillAny_eq_self hp.anyByte_notMem, hlast]

theorem FindsExactly.anyByte_notMem (h : FindsExactly ops n c p) (hc : colon ∉ c) (hp : LegalName p)
    {x : UInt8} (hx : LegalName [x])
    (hglob : glob (prevKey n c p ++ ascii ":*") (oneKey n (fillAny x c) p) = true) :
    anyByte ∉ c := by
  have hcolon : colon ∉ fillAny x c := by
    intro hmem
    rcases mem_fillAny hmem with heq | ⟨hmem, -⟩
    · exact hx.colon_notMem (heq ▸ List.mem_singleton_self x)
    · exact hc hmem
  rw [h.glob_oneKey_iff hcolon hp] at hglob
  intro hmem
  rw [← hglob.1] at hmem
  rcases mem_fillAny hmem with heq | ⟨-, hne⟩
  · exact hx.anyByte_notMem (heq ▸ List.mem_singleton_self x)
  · exact hne rfl

theorem plain_of_findsExactly (hc : colon ∉ c) (hp : LegalName p) (h : FindsExactly ops n c p) :
    Plain c ∧ Plain p := by
  have hself := (h.glob_oneKey_iff hc hp).mpr ⟨rfl, rfl⟩
  rw [pattern_eq] at hself
  have hlead : ∀ b ∈ decimal n ++ [colon], ¬Special b := by
    intro b hb
    rcases List.mem_append.mp hb with hb | hb
    · exact plain_decimal b hb
    · rw [List.mem_singleton.mp hb]
      exact not_special_colon
  have hlength : (oneKey n c p).length =
      (decimal n ++ [colon] ++ (c ++ colon :: (p ++ [colon]))).length + 1 := by
    rw [oneKey, List.length_append]
    rfl
  -- the letter `x` may be in any name
  have hx : LegalName [120] := by
    rw [LegalName, List.forall_mem_singleton]
    decide
  rcases glob_concat_star_cases hlead hlength hself 120 with
    ⟨i, hle, hlt, hglob⟩ | ⟨hspecial, hglob⟩
  · rw [← pattern_eq] at hglob
    exact absurd hglob (h.not_glob_insertIdx hc hp hx hle hlt)
  · have hfilled := hglob (ascii "1")
    rw [oneKey_fillAny hp, ← pattern_eq] at hfilled
    have hcany := h.anyByte_notMem hc hp hx hfilled
    constructor
    · intro b hb hb'
      exact hcany (hspecial b (List.mem_append_left _ hb) hb' ▸ hb)
    · intro b hb hb'
      exact hp.anyByte_notMem (hspecial b (by simp [hb]) hb' ▸ hb)

end

/-- For counters without a colon in their names and processes with names of files, the keys are found
exactly when no byte of the names has a meaning in a pattern. -/
theorem findsExactly_iff (ops : DoubleOps) (n : Int) (c p : ByteStr) (hc : colon ∉ c)
    (hp : LegalName p) : FindsExactly ops n c p ↔ Plain c ∧ Plain p :=
  ⟨plain_of_findsExactly hc hp, fun ⟨hcplain, hpplain⟩ => findsExactly_of_plain hc hp hcplain hpplain⟩

def zeroOps : DoubleOps := ⟨fun _ => ascii "0.000000", fun _ => 0⟩

theorem findsExactly_iff_notepad : FindsExactly zeroOps 0 (ascii "CPUTime") (ascii "notepad") ∧
    (FindsExactly zeroOps 0 (ascii "CPUTime") (ascii "notepad") ↔
      Plain (ascii "CPUTime") ∧ Plain (ascii "notepad")) := by
  have hiff := findsExactly_iff zeroOps 0 (ascii "CPUTime") (ascii "notepad") (by decide)
    (by decide +kernel)
  exact ⟨hiff.mpr (by decide +kernel), hiff⟩

/-- The brackets of a name are a class in the pattern. -/
theorem not_findsExactly_setup :
    StoredFor [oneLog 0 (ascii "CPUTime") (ascii "setup[1]")] 0 (ascii "CPUTime") (ascii "setup[1]")
      (ascii "0:CPUTime:setup[1]:1") ∧
    glob (ascii "0:CPUTime:setup[1]:*") (ascii "0:CPUTime:setup[1]:1") = false ∧
    glob (ascii "0:CPUTime:setup[1]:*") (ascii "0:CPUTime:setup1:1") = true ∧
    ¬FindsExactly zeroOps 0 (ascii "CPUTime") (ascii "setup[1]") := by
  have hstored : StoredFor [oneLog 0 (ascii "CPUTime") (ascii "setup[1]")] 0 (ascii "CPUTime")
      (ascii "setup[1]") (oneKey 0 (ascii "CPUTime") (ascii "setup[1]")) :=
    storedFor_oneLog_iff.mpr ⟨rfl, rfl⟩
  refine ⟨hstored, by decide, by decide, fun h => ?_⟩
  have hglob := (h.glob_oneKey_iff (by decide) (by decide +kernel)).mpr ⟨rfl, rfl⟩
  exact absurd hglob (by decide)

end RedisJob

end PSM
