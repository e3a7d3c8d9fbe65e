import Mathlib
import PSM.Lib.ByteStr
import PSM.Lib.Prog

/-! A Redis server, as far as hashes, sets and lists go.

Each command is atomic and has a reply; a program may also get an error instead. The three kinds of
keys are kept apart: a key is used with one kind only. The order in which a set is listed is not
specified, so it is part of the state. -/

namespace Redis
open ByteStr

/-- A set, in the order in which it would be listed. -/
structure MemberSet where
  members : List ByteStr
  nodup : members.Nodup

namespace MemberSet

def empty : MemberSet := ⟨[], List.nodup_nil⟩

instance : Membership ByteStr MemberSet := ⟨fun s x => x ∈ s.members⟩

theorem mem_def {s : MemberSet} {x : ByteStr} : x ∈ s ↔ x ∈ s.members := .rfl

instance (s : MemberSet) (x : ByteStr) : Decidable (x ∈ s) := decidable_of_iff _ mem_def.symm

def add (s : MemberSet) (x : ByteStr) : MemberSet :=
  if h : x ∈ s.members then s
  else ⟨s.members ++ [x], List.nodup_append.mpr ⟨s.nodup, List.nodup_singleton x, by
    rintro a ha b hb rfl
    exact h (List.mem_singleton.mp hb ▸ ha)⟩⟩

def remove (s : MemberSet) (x : ByteStr) : MemberSet :=
  ⟨s.members.filter (· ≠ x), s.nodup.filter _⟩

/-- The same set, listed in another order. -/
def SameAs (s t : MemberSet) : Prop := s.members.Perm t.members

variable {s t : MemberSet} {x y : ByteStr}

@[simp] theorem notMem_empty : x ∉ empty := List.not_mem_nil

@[simp] theorem mem_add : y ∈ s.add x ↔ y = x ∨ y ∈ s := by
  unfold add
  split
  · rename_i h
    exact ⟨.inr, fun hy => hy.elim (fun e => e ▸ h) id⟩
  · simp [mem_def, or_comm]

@[simp] theorem mem_remove : y ∈ s.remove x ↔ y ∈ s ∧ y ≠ x := by
  simp [mem_def, remove]

theorem mem_foldl_add {xs : List ByteStr} : y ∈ xs.foldl add s ↔ y ∈ s ∨ y ∈ xs := by
  induction xs generalizing s with
  | nil => simp
  | cons x xs ih => rw [List.foldl_cons, ih, mem_add, List.mem_cons, or_comm (a := y = x), or_assoc]

theorem SameAs.mem_iff (h : s.SameAs t) : x ∈ s ↔ x ∈ t := List.Perm.mem_iff h

end MemberSet

/-- The commands. `V` is the type of the values of hashes. -/
inductive Command (V : Type) where
  | hmget (key field : ByteStr)
  | hmset (key field : ByteStr) (value : V)
  | hlen (key : ByteStr)
  | smembers (key : ByteStr)
  | sadd (key member : ByteStr)
  | srem (key member : ByteStr)
  | lpush (key value : ByteStr)
  | del (key : ByteStr)
  | multi
  | exec

inductive Reply (V : Type) where
  | error
  | ok
  | int (n : Nat)
  | value (v : Option V)
  | members (xs : List ByteStr)

namespace Reply

variable {V : Type}

def isOk : Reply V → Bool
  | .error => false
  | _ => true

/-- A reply of another kind reads as the default. -/
def toInt : Reply V → Int
  | .int n => n
  | _ => 0

def toArray : Reply V → List ByteStr
  | .members xs => xs
  | _ => []

end Reply

structure Store (V : Type) where
  hash : ByteStr → AList fun _ : ByteStr => V
  set : ByteStr → MemberSet
  list : ByteStr → List ByteStr

variable {V : Type}

def Store.empty : Store V := ⟨fun _ => ∅, fun _ => .empty, fun _ => []⟩

theorem Store.eq_iff {s s' : Store V} :
    s = s' ↔ s.hash = s'.hash ∧ s.set = s'.set ∧ s.list = s'.list := by
  cases s
  cases s'
  rw [mk.injEq]

/-- Nothing is stored under the key. -/
def Store.Unused (s : Store V) (key : ByteStr) : Prop :=
  (s.hash key).keys = [] ∧ (s.set key).members = [] ∧ s.list key = []

instance (s : Store V) (key : ByteStr) : Decidable (s.Unused key) :=
  inferInstanceAs (Decidable (_ ∧ _))

/-- A command and its reply. Between `MULTI` and `EXEC` the commands take effect at once here, which
no one can tell as long as no other command comes between. -/
def exec : Command V → Store V → Reply V × Store V
  | .hmget key field, s => (.value ((s.hash key).lookup field), s)
  | .hmset key field value, s =>
    (.ok, { s with hash := Function.update s.hash key ((s.hash key).insert field value) })
  | .hlen key, s => (.int (s.hash key).keys.length, s)
  | .smembers key, s => (.members (s.set key).members, s)
  | .sadd key member, s =>
    if member ∈ s.set key then (.int 0, s)
    else (.int 1, { s with set := Function.update s.set key ((s.set key).add member) })
  | .srem key member, s =>
    if member ∈ s.set key then
      (.int 1, { s with set := Function.update s.set key ((s.set key).remove member) })
    else (.int 0, s)
  | .lpush key value, s =>
    (.int ((s.list key).length + 1),
      { s with list := Function.update s.list key (value :: s.list key) })
  | .del key, s =>
    (.int (if s.Unused key then 0 else 1), {
      hash := Function.update s.hash key ∅
      set := Function.update s.set key .empty
      list := Function.update s.list key [] })
  | .multi, s => (.ok, s)
  | .exec, s => (.ok, s)

/-- Programs that talk to the server. -/
abbrev Client (V α : Type) := Prog (Command V) (Reply V) α

/-- The program on its own, from a state of the server. -/
def Client.run (p : Client V α) (s : Store V) : Option (α × Store V) := Prog.run exec p s

/-- `LRANGE`: both ends are included, and a negative index counts from the end of the list. -/
def lrange (xs : List ByteStr) (start stop : Int) : List ByteStr :=
  let start := max 0 (if start < 0 then xs.length + start else start)
  let stop := if stop < 0 then xs.length + stop else stop
  (xs.drop start.toNat).take (stop + 1 - start).toNat

/-- From the head of the list there is a prefix, which is long enough if the list is. -/
theorem lrange_zero (xs : List ByteStr) (stop : Int) :
    ∃ n : Nat, lrange xs 0 stop = xs.take n ∧ stop < n := by
  refine ⟨_, rfl, ?_⟩
  simp only [Int.lt_irrefl, if_false, max_self]
  split <;> omega

theorem lrange_of_nonneg {xs : List ByteStr} {stop : Int} (h : 0 ≤ stop) :
    lrange xs 0 stop = xs.take (stop + 1).toNat := by
  simp [lrange, Int.not_lt.mpr h]

/-! ## Transactions -/

/-- A connection: between `MULTI` and `EXEC` the commands are queued. -/
structure Conn (V : Type) where
  store : Store V
  queue : Option (List (Command V))

def execAll (cs : List (Command V)) (s : Store V) : Store V :=
  cs.foldl (fun s c => (exec c s).2) s

/-- A command on a connection. A queued command is answered with a status, and `EXEC` with an array,
of which no more is kept here than that it is no error. -/
def Conn.exec : Command V → Conn V → Reply V × Conn V
  | .multi, ⟨s, none⟩ => (.ok, ⟨s, some []⟩)
  | .multi, conn => (.error, conn)
  | .exec, ⟨s, some cs⟩ => (.ok, ⟨execAll cs s, none⟩)
  | .exec, conn => (.error, conn)
  | c, ⟨s, some cs⟩ => (.ok, ⟨s, some (cs ++ [c])⟩)
  | c, ⟨s, none⟩ => ((Redis.exec c s).1, ⟨(Redis.exec c s).2, none⟩)

/-- Neither `MULTI` nor `EXEC`. -/
def Command.Plain : Command V → Prop
  | multi => False
  | exec => False
  | _ => True

section
variable {c : Command V} {s : Store V} {cs : List (Command V)}

theorem Conn.exec_plain (hc : c.Plain) :
    Conn.exec c ⟨s, none⟩ = ((Redis.exec c s).1, ⟨(Redis.exec c s).2, none⟩) := by
  cases c <;> first | rfl | cases hc

theorem Conn.exec_queued (hc : c.Plain) :
    Conn.exec c ⟨s, some cs⟩ = (.ok, ⟨s, some (cs ++ [c])⟩) := by
  cases c <;> first | rfl | cases hc

theorem execAll_concat : execAll (cs ++ [c]) s = (exec c (execAll cs s)).2 := by
  simp [execAll]

end

/-- A connection on which some commands are answered with an error. The commands are counted from 0,
and `aborted` says that a command of the transaction has failed. -/
structure FaultyConn (V : Type) where
  conn : Conn V
  sent : Nat
  aborted : Bool

namespace FaultyConn

/-- A command that fails has no effect, but an `EXEC` that fails, or that comes after a command of
the transaction has failed, drops the transaction. -/
def exec (fails : Nat → Bool) : Command V → FaultyConn V → Reply V × FaultyConn V
  | .exec, t =>
    if fails t.sent || t.aborted then (.error, ⟨{ t.conn with queue := none }, t.sent + 1, false⟩)
    else ((Conn.exec .exec t.conn).1, ⟨(Conn.exec .exec t.conn).2, t.sent + 1, false⟩)
  | c, t =>
    if fails t.sent then (.error, ⟨t.conn, t.sent + 1, t.aborted || t.conn.queue.isSome⟩)
    else ((Conn.exec c t.conn).1, ⟨(Conn.exec c t.conn).2, t.sent + 1, t.aborted⟩)

/-- No command has been sent, and there is no transaction. -/
def start (s : Store V) : FaultyConn V := ⟨⟨s, none⟩, 0, false⟩

section
variable {fails : Nat → Bool} {c : Command V} {s : Store V} {cs : List (Command V)} {n : Nat}

theorem exec_multi (hn : fails n = false) : exec fails .multi ⟨⟨s, none⟩, n, false⟩ =
    (.ok, ⟨⟨s, some []⟩, n + 1, false⟩) := by
  simp [exec, hn, Conn.exec]

theorem exec_queued (hc : c.Plain) (hn : fails n = false) :
    exec fails c ⟨⟨s, some cs⟩, n, false⟩ = (.ok, ⟨⟨s, some (cs ++ [c])⟩, n + 1, false⟩) := by
  cases c <;> first | exact False.elim hc | simp [exec, hn, Conn.exec]

/-- A command outside a transaction. -/
theorem exec_alone (hc : c.Plain) (n : Nat) (aborted : Bool) :
    exec fails c ⟨⟨s, none⟩, n, aborted⟩ = if fails n then (.error, ⟨⟨s, none⟩, n + 1, aborted⟩)
      else ((Redis.exec c s).1, ⟨⟨(Redis.exec c s).2, none⟩, n + 1, aborted⟩) := by
  cases c <;> first | exact False.elim hc | by_cases hn : fails n <;> simp [exec, hn, Conn.exec]

theorem exec_fails {t : FaultyConn V} (hc : c ≠ .exec) (ht : fails t.sent) : exec fails c t =
    (.error, ⟨t.conn, t.sent + 1, t.aborted || t.conn.queue.isSome⟩) := by
  cases c <;> first | exact absurd rfl hc | simp [exec, ht]

theorem exec_exec : exec fails .exec ⟨⟨s, some cs⟩, n, false⟩ = if fails n
    then (.error, ⟨⟨s, none⟩, n + 1, false⟩) else (.ok, ⟨⟨execAll cs s, none⟩, n + 1, false⟩) := by
  by_cases hn : fails n
  · simp [exec, hn]
  · simp [exec, hn, Conn.exec]

end

end FaultyConn

/-! ## Sets -/

/-- One set replaced. -/
def Store.modifySet (s : Store V) (key : ByteStr) (f : MemberSet → MemberSet) : Store V :=
  { s with set := Function.update s.set key (f (s.set key)) }

section
variable {s : Store V} {key key' x : ByteStr} {f : MemberSet → MemberSet}

@[simp] theorem Store.modifySet_hash : (s.modifySet key f).hash = s.hash := rfl

@[simp] theorem Store.modifySet_list : (s.modifySet key f).list = s.list := rfl

@[simp] theorem Store.modifySet_set_self : (s.modifySet key f).set key = f (s.set key) :=
  Function.update_self ..

theorem Store.modifySet_set_of_ne (h : key' ≠ key) : (s.modifySet key f).set key' = s.set key' :=
  Function.update_of_ne h ..

theorem Store.modifySet_eq_self (h : f (s.set key) = s.set key) : s.modifySet key f = s := by
  simp only [modifySet, h, Function.update_eq_self]

theorem MemberSet.add_of_mem {t : MemberSet} (h : x ∈ t) : t.add x = t := dif_pos h

theorem MemberSet.remove_of_notMem {t : MemberSet} (h : x ∉ t) : t.remove x = t := by
  have : t.members.filter (· ≠ x) = t.members :=
    List.filter_eq_self.mpr fun y hy => by simpa using ne_of_mem_of_not_mem hy h
  simp only [remove, this]

theorem exec_sadd : exec (.sadd key x) s =
    (.int (if x ∈ s.set key then 0 else 1), s.modifySet key (·.add x)) := by
  by_cases h : x ∈ s.set key
  · rw [Store.modifySet_eq_self (f := (·.add x)) (MemberSet.add_of_mem h)]
    simp only [exec, h, if_true]
  · simp only [exec, h, if_false, Store.modifySet]

theorem exec_srem : exec (.srem key x) s =
    (.int (if x ∈ s.set key then 1 else 0), s.modifySet key (·.remove x)) := by
  by_cases h : x ∈ s.set key
  · simp only [exec, h, if_true, Store.modifySet]
  · rw [Store.modifySet_eq_self (f := (·.remove x)) (MemberSet.remove_of_notMem h)]
    simp only [exec, h, if_false]

end

/-! ## Keys -/

/-- The stores are the same under every key but those of `P`. -/
structure Store.SameBut (P : ByteStr → Prop) (s s' : Store V) : Prop where
  hash : ∀ key, ¬P key → s'.hash key = s.hash key
  set : ∀ key, ¬P key → s'.set key = s.set key
  list : ∀ key, ¬P key → s'.list key = s.list key

/-- The key of a command. -/
def Command.key? : Command V → Option ByteStr
  | hmget key _ => some key
  | hmset key _ _ => some key
  | hlen key => some key
  | smembers key => some key
  | sadd key _ => some key
  | srem key _ => some key
  | lpush key _ => some key
  | del key => some key
  | multi => none
  | exec => none

section
variable {P Q : ByteStr → Prop} {s s' s'' : Store V}

theorem Store.SameBut.refl (s : Store V) : SameBut P s s :=
  ⟨fun _ _ => rfl, fun _ _ => rfl, fun _ _ => rfl⟩

theorem Store.SameBut.trans (h : SameBut P s s') (h' : SameBut P s' s'') : SameBut P s s'' where
  hash key hkey := (h'.hash key hkey).trans (h.hash key hkey)
  set key hkey := (h'.set key hkey).trans (h.set key hkey)
  list key hkey := (h'.list key hkey).trans (h.list key hkey)

theorem Store.SameBut.mono (h : SameBut P s s') (hPQ : ∀ key, P key → Q key) :
    SameBut Q s s' where
  hash key hkey := h.hash key (mt (hPQ key) hkey)
  set key hkey := h.set key (mt (hPQ key) hkey)
  list key hkey := h.list key (mt (hPQ key) hkey)

theorem Store.SameBut.modifySet {key : ByteStr} {f : MemberSet → MemberSet} (h : P key) :
    SameBut P s (s.modifySet key f) :=
  ⟨fun _ _ => rfl, fun _ hkey => Store.modifySet_set_of_ne fun e => hkey (e ▸ h), fun _ _ => rfl⟩

/-- A command changes what is under its own key. -/
theorem exec_sameBut (c : Command V) (s : Store V) :
    Store.SameBut (fun key => c.key? = some key) s (exec c s).2 := by
  have hne : ∀ {key key' : ByteStr}, ¬some key = some key' → key' ≠ key :=
    fun h e => h (congrArg some e.symm)
  cases c with
  | hmget | hlen | smembers | multi | exec => exact .refl s
  | hmset key field value =>
    exact ⟨fun key' h => Function.update_of_ne (hne h) .., fun _ _ => rfl, fun _ _ => rfl⟩
  | sadd key member =>
    rw [exec_sadd]
    exact .modifySet (P := (some key = some ·)) (f := (·.add member)) rfl
  | srem key member =>
    rw [exec_srem]
    exact .modifySet (P := (some key = some ·)) (f := (·.remove member)) rfl
  | lpush key value =>
    exact ⟨fun _ _ => rfl, fun _ _ => rfl, fun key' h => Function.update_of_ne (hne h) ..⟩
  | del key =>
    exact ⟨fun key' h => Function.update_of_ne (hne h) ..,
      fun key' h => Function.update_of_ne (hne h) .., fun key' h => Function.update_of_ne (hne h) ..⟩

/-- A program whose commands have keys of `P` changes nothing else. -/
theorem Client.sameBut {p : Client V α} {a : α} (hp : p.Calls fun c => ∀ key ∈ c.key?, P key)
    (h : p.run s = some (a, s')) : Store.SameBut P s s' := by
  refine hp.run Store.SameBut.refl (fun {c s s'} hc hrest => ?_) h
  exact ((exec_sameBut c s).mono fun key hkey => hc key hkey).trans hrest

end

end Redis
