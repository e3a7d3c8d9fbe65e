import PSM.Lib.ByteStr
import PSM.Lib.MapM

/-! The wire format of protocol buffers (version 2): varints, fields, and messages as lists of
fields.

A message type is given by its fields and by how it is read back from fields
(`MessageType`); `MessageType.parse_serialize` is the round trip through bytes. -/

namespace ProtoWire
open ByteStr

/-! ## Varints -/

/-- Seven bits to a byte, low bits first, in at most `k` bytes. -/
def putVarint : Nat → Nat → ByteStr
  | 0, _ => []
  | k + 1, n =>
    if n < 128 then [n.toUInt8] else (n % 128 + 128).toUInt8 :: putVarint k (n / 128)

def getVarint : Nat → ByteStr → Option (Nat × ByteStr)
  | 0, _ => none
  | _ + 1, [] => none
  | k + 1, b :: bs =>
    if b.toNat < 128 then some (b.toNat, bs)
    else (getVarint k bs).map fun (n, rest) => (b.toNat - 128 + 128 * n, rest)

/-- A varint takes at most ten bytes; what they hold beyond 64 bits is dropped. -/
def maxVarintBytes : Nat := 10

def encodeVarint (n : Nat) : ByteStr := putVarint maxVarintBytes n

def decodeVarint (bs : ByteStr) : Option (Nat × ByteStr) :=
  (getVarint maxVarintBytes bs).map fun (n, rest) => (n % 2 ^ 64, rest)

theorem length_putVarint_le (k n : Nat) : (putVarint k n).length ≤ k := by
  induction k generalizing n with
  | zero => exact Nat.le_refl 0
  | succ k ih =>
    rw [putVarint]
    split
    · simp
    · exact Nat.succ_le_succ (ih _)

theorem getVarint_putVarint {k n : Nat} (h : n < 128 ^ (k + 1)) (rest : ByteStr) :
    getVarint (k + 1) (putVarint (k + 1) n ++ rest) = some (n, rest) := by
  induction k generalizing n with
  | zero =>
    have hb : n.toUInt8.toNat = n := by simp [Nat.toUInt8]; omega
    have hn : n < 128 := by simpa using h
    simp [putVarint, getVarint, hb, hn]
  | succ k ih =>
    rw [putVarint]
    split
    · rename_i hn
      have hb : n.toUInt8.toNat = n := by simp [Nat.toUInt8]; omega
      simp [getVarint, hb, hn]
    · rename_i hn
      have hb : (n % 128 + 128).toUInt8.toNat = n % 128 + 128 := by simp [Nat.toUInt8]; omega
      have hdiv : n / 128 < 128 ^ (k + 1) := by
        rw [Nat.div_lt_iff_lt_mul (by decide)]
        rwa [Nat.pow_succ] at h
      rw [List.cons_append, getVarint, if_neg (by omega), ih hdiv, hb]
      simp only [Option.map_some, Option.some.injEq, Prod.mk.injEq, and_true]
      omega

theorem decodeVarint_encodeVarint {n : Nat} (h : n < 2 ^ 64) (rest : ByteStr) :
    decodeVarint (encodeVarint n ++ rest) = some (n, rest) := by
  have hlt : n < 128 ^ maxVarintBytes := Nat.lt_of_lt_of_le h (by decide)
  rw [decodeVarint, encodeVarint, maxVarintBytes, getVarint_putVarint hlt]
  simp only [Option.map_some, Nat.mod_eq_of_lt h]

theorem encodeVarint_ne_nil (n : Nat) : encodeVarint n ≠ [] := by
  unfold encodeVarint maxVarintBytes putVarint
  split <;> simp

/-! ## Fixed-size numbers -/

def putLe : Nat → Nat → ByteStr
  | 0, _ => []
  | k + 1, n => n.toUInt8 :: putLe k (n / 256)

def getLe : Nat → ByteStr → Option (Nat × ByteStr)
  | 0, bs => some (0, bs)
  | _ + 1, [] => none
  | k + 1, b :: bs => (getLe k bs).map fun (n, rest) => (b.toNat + 256 * n, rest)

theorem getLe_putLe (k n : Nat) (rest : ByteStr) :
    getLe k (putLe k n ++ rest) = some (n % 256 ^ k, rest) := by
  induction k generalizing n with
  | zero => simp [getLe, putLe, Nat.mod_one]
  | succ k ih =>
    rw [putLe, List.cons_append, getLe, ih]
    have hb : n.toUInt8.toNat = n % 256 := by simp [Nat.toUInt8]
    simp only [Option.map_some, hb, Nat.pow_succ', Nat.mod_mul]

/-! ## Fields -/

/-- A value with its wire type. -/
inductive Value where
  | varint (n : Nat)
  | fixed64 (bits : BitVec 64)
  | bytes (bs : ByteStr)
  | fixed32 (bits : BitVec 32)

structure Field where
  number : Nat
  value : Value

namespace Value

def wireType : Value → Nat
  | .varint _ => 0
  | .fixed64 _ => 1
  | .bytes _ => 2
  | .fixed32 _ => 5

def encode : Value → ByteStr
  | .varint n => encodeVarint n
  | .fixed64 bits => putLe 8 bits.toNat
  | .bytes bs => encodeVarint bs.length ++ bs
  | .fixed32 bits => putLe 4 bits.toNat

/-- The value has the size that the wire format allows. -/
def Valid : Value → Prop
  | .varint n => n < 2 ^ 64
  | .bytes bs => bs.length < 2 ^ 32
  | _ => True

end Value

def decodeValue (wireType : Nat) (bs : ByteStr) : Option (Value × ByteStr) :=
  match wireType with
  | 0 => (decodeVarint bs).map fun (n, rest) => (.varint n, rest)
  | 1 => (getLe 8 bs).map fun (n, rest) => (.fixed64 (BitVec.ofNat 64 n), rest)
  | 2 => (decodeVarint bs).bind fun (n, rest) =>
    if n ≤ rest.length then some (.bytes (rest.take n), rest.drop n) else none
  | 5 => (getLe 4 bs).map fun (n, rest) => (.fixed32 (BitVec.ofNat 32 n), rest)
  | _ => none

theorem decodeValue_encode {v : Value} (h : v.Valid) (rest : ByteStr) :
    decodeValue v.wireType (v.encode ++ rest) = some (v, rest) := by
  cases v with
  | varint n => simp [decodeValue, Value.wireType, Value.encode, decodeVarint_encodeVarint h]
  | fixed64 bits =>
    have hlt : bits.toNat % 256 ^ 8 = bits.toNat := Nat.mod_eq_of_lt bits.isLt
    simp only [decodeValue, Value.wireType, Value.encode, getLe_putLe, hlt, Option.map_some,
      BitVec.ofNat_toNat, BitVec.setWidth_eq]
  | bytes bs =>
    have hlt : bs.length < 2 ^ 64 := Nat.lt_of_lt_of_le h (by decide)
    simp [decodeValue, Value.wireType, Value.encode, decodeVarint_encodeVarint hlt]
  | fixed32 bits =>
    have hlt : bits.toNat % 256 ^ 4 = bits.toNat := Nat.mod_eq_of_lt bits.isLt
    simp only [decodeValue, Value.wireType, Value.encode, getLe_putLe, hlt, Option.map_some,
      BitVec.ofNat_toNat, BitVec.setWidth_eq]

namespace Field

/-- Field numbers have 29 bits, and 0 is none. -/
def Valid (f : Field) : Prop := 0 < f.number ∧ f.number < 2 ^ 29 ∧ f.value.Valid

/-- `Valid`, but for the length of a byte string, which the size of the message bounds. -/
def InRange (f : Field) : Prop :=
  0 < f.number ∧ f.number < 2 ^ 29 ∧ ∀ n, f.value = .varint n → n < 2 ^ 64

theorem inRange_bytes {k : Nat} (hpos : 0 < k) (hlt : k < 2 ^ 29) (bs : ByteStr) :
    InRange ⟨k, .bytes bs⟩ := ⟨hpos, hlt, fun _ h => nomatch h⟩

theorem inRange_fixed64 {k : Nat} (hpos : 0 < k) (hlt : k < 2 ^ 29) (bits : BitVec 64) :
    InRange ⟨k, .fixed64 bits⟩ := ⟨hpos, hlt, fun _ h => nomatch h⟩

theorem inRange_varint {k n : Nat} (hpos : 0 < k) (hlt : k < 2 ^ 29) (h : n < 2 ^ 64) :
    InRange ⟨k, .varint n⟩ := ⟨hpos, hlt, fun _ hn => by cases hn; exact h⟩

def tag (f : Field) : Nat := f.number * 8 + f.value.wireType

def encode (f : Field) : ByteStr := encodeVarint f.tag ++ f.value.encode

end Field

def decodeField (bs : ByteStr) : Option (Field × ByteStr) :=
  (decodeVarint bs).bind fun (tag, rest) =>
    if tag / 8 = 0 then none
    else (decodeValue (tag % 8) rest).map fun (value, rest) => (⟨tag / 8, value⟩, rest)

theorem decodeField_encode {f : Field} (h : f.Valid) (rest : ByteStr) :
    decodeField (f.encode ++ rest) = some (f, rest) := by
  obtain ⟨hpos, hlt, hv⟩ := h
  have hw : f.value.wireType < 8 := by cases f.value <;> simp [Value.wireType]
  have htag : f.tag < 2 ^ 64 := by unfold Field.tag; omega
  have hnum : f.tag / 8 = f.number := by unfold Field.tag; omega
  have hwire : f.tag % 8 = f.value.wireType := by unfold Field.tag; omega
  rw [Field.encode, List.append_assoc, decodeField, decodeVarint_encodeVarint htag]
  simp only [Option.bind_some, hnum, hwire, decodeValue_encode hv, Option.map_some]
  rw [if_neg (by omega)]

/-! ## Lists of fields -/

def encodeFields (fs : List Field) : ByteStr := fs.flatMap Field.encode

/-- A field takes at least one byte, so that the length of the input is enough fuel. -/
def decodeFields : Nat → ByteStr → Option (List Field)
  | _, [] => some []
  | 0, _ => none
  | fuel + 1, bs =>
    (decodeField bs).bind fun (f, rest) => (decodeFields fuel rest).map (f :: ·)

theorem decodeFields_encodeFields {fs : List Field} (h : ∀ f ∈ fs, f.Valid) {fuel : Nat}
    (hfuel : fs.length ≤ fuel) : decodeFields fuel (encodeFields fs) = some fs := by
  induction fs generalizing fuel with
  | nil => cases fuel <;> rfl
  | cons f fs ih =>
    obtain ⟨fuel, rfl⟩ := Nat.exists_eq_add_of_le' (Nat.le_trans (Nat.succ_pos _) hfuel)
    have hdecode := decodeField_encode (h f (by simp)) (encodeFields fs)
    have hih := ih (fun g hg => h g (by simp [hg])) (Nat.le_of_succ_le_succ hfuel)
    have hne : f.encode ++ encodeFields fs ≠ [] := by simp [Field.encode, encodeVarint_ne_nil]
    rw [encodeFields, List.flatMap_cons]
    change decodeFields (fuel + 1) (f.encode ++ encodeFields fs) = _
    rw [decodeFields.eq_3 _ _ hne, hdecode]
    simp only [Option.bind_some, hih, Option.map_some]

theorem length_le_length_encodeFields (fs : List Field) :
    fs.length ≤ (encodeFields fs).length := by
  induction fs with
  | nil => simp
  | cons f fs ih =>
    have hpos : 0 < f.encode.length :=
      List.length_pos_iff.mpr (by simp [Field.encode, encodeVarint_ne_nil])
    simp only [encodeFields, List.flatMap_cons, List.length_append, List.length_cons] at ih ⊢
    omega

/-- A field is not longer than the message it is in. -/
theorem length_encode_le {fs : List Field} {f : Field} (h : f ∈ fs) :
    f.encode.length ≤ (encodeFields fs).length := by
  obtain ⟨l, r, rfl⟩ := List.append_of_mem h
  simp only [encodeFields, List.flatMap_append, List.flatMap_cons, List.length_append]
  omega

/-- A number and its tag are two varints. -/
theorem length_encode_varint_le (k n : Nat) : (Field.encode ⟨k, .varint n⟩).length ≤ 20 := by
  rw [Field.encode, List.length_append]
  exact Nat.add_le_add (length_putVarint_le maxVarintBytes _) (length_putVarint_le maxVarintBytes n)

theorem length_encode_fixed64_le (k : Nat) (x : BitVec 64) :
    (Field.encode ⟨k, .fixed64 x⟩).length ≤ 20 := by
  have htag := length_putVarint_le maxVarintBytes (Field.tag ⟨k, .fixed64 x⟩)
  rw [Field.encode, List.length_append]
  exact Nat.add_le_add htag (by decide : (8 : Nat) ≤ 10)

/-! ## Input that ends too early -/

theorem getVarint_take {k n m : Nat} (h : m < (putVarint k n).length) :
    getVarint k ((putVarint k n).take m) = none := by
  induction k generalizing n m with
  | zero => rfl
  | succ k ih =>
    rw [putVarint] at h ⊢
    cases m with
    | zero => rfl
    | succ m =>
      split at h
      · simp at h
      · rename_i hn
        have hb : (n % 128 + 128).toUInt8.toNat = n % 128 + 128 := by simp [Nat.toUInt8]; omega
        rw [if_neg hn, List.take_succ_cons, getVarint, if_neg (by omega),
          ih (Nat.lt_of_succ_lt_succ h)]
        rfl

theorem decodeVarint_take {n m : Nat} (h : m < (encodeVarint n).length) :
    decodeVarint ((encodeVarint n).take m) = none := by
  rw [decodeVarint, encodeVarint, getVarint_take h]
  rfl

theorem getLe_of_short {k : Nat} {bs : ByteStr} (h : bs.length < k) : getLe k bs = none := by
  induction k generalizing bs with
  | zero => cases h
  | succ k ih =>
    cases bs with
    | nil => rfl
    | cons b bs =>
      rw [getLe, ih (Nat.lt_of_succ_lt_succ h)]
      rfl

theorem length_putLe (k n : Nat) : (putLe k n).length = k := by
  induction k generalizing n with
  | zero => rfl
  | succ k ih => rw [putLe, List.length_cons, ih]

/-- Of two parts the input has the first and some of the second, or some of the first alone. -/
theorem take_append_cases (xs ys : ByteStr) (m : Nat) :
    (m < xs.length ∧ (xs ++ ys).take m = xs.take m) ∨
      ∃ k, m = xs.length + k ∧ (xs ++ ys).take m = xs ++ ys.take k := by
  rcases Nat.lt_or_ge m xs.length with h | h
  · exact .inl ⟨h, List.take_append_of_le_length (Nat.le_of_lt h)⟩
  · obtain ⟨k, rfl⟩ := Nat.exists_eq_add_of_le h
    exact .inr ⟨k, rfl, List.take_length_add_append k⟩

theorem decodeValue_take {v : Value} (hv : v.Valid) {m : Nat} (h : m < v.encode.length) :
    decodeValue v.wireType (v.encode.take m) = none := by
  cases v with
  | varint n =>
    rw [Value.wireType, decodeValue, Value.encode, decodeVarint_take h]
    rfl
  | fixed64 bits =>
    rw [Value.encode, length_putLe] at h
    rw [Value.wireType, decodeValue, getLe_of_short (Nat.lt_of_le_of_lt (List.length_take_le ..) h)]
    rfl
  | fixed32 bits =>
    rw [Value.encode, length_putLe] at h
    rw [Value.wireType, decodeValue, getLe_of_short (Nat.lt_of_le_of_lt (List.length_take_le ..) h)]
    rfl
  | bytes bs =>
    have hlt : bs.length < 2 ^ 64 := Nat.lt_of_lt_of_le hv (by decide)
    rw [Value.wireType, decodeValue, Value.encode]
    obtain ⟨hcut, htake⟩ | ⟨k, rfl, htake⟩ := take_append_cases (encodeVarint bs.length) _ m
    · rw [htake, decodeVarint_take hcut]
      rfl
    · have hk : k < bs.length := by simpa [Value.encode] using h
      have hshort : ¬bs.length ≤ (bs.take k).length := by simpa using hk
      rw [htake, decodeVarint_encodeVarint hlt]
      exact if_neg hshort

theorem decodeField_take {f : Field} (h : f.Valid) {m : Nat} (hm : m < f.encode.length) :
    decodeField (f.encode.take m) = none := by
  obtain ⟨hpos, hlt, hv⟩ := h
  have hw : f.value.wireType < 8 := by cases f.value <;> simp [Value.wireType]
  have htag : f.tag < 2 ^ 64 := by unfold Field.tag; omega
  have hwire : f.tag % 8 = f.value.wireType := by unfold Field.tag; omega
  rw [Field.encode] at hm ⊢
  obtain ⟨hcut, htake⟩ | ⟨k, rfl, htake⟩ := take_append_cases (encodeVarint f.tag) _ m
  · rw [htake, decodeField, decodeVarint_take hcut]
    rfl
  · have hk : k < f.value.encode.length := by simpa using hm
    simp only [htake, decodeField, decodeVarint_encodeVarint htag, Option.bind_some, hwire,
      decodeValue_take hv hk, Option.map_none, ite_self]

/-- Fields that are cut inside one of them do not read. -/
theorem decodeFields_take {fs : List Field} (h : ∀ f ∈ fs, f.Valid) {m : Nat}
    (hcut : ∀ k, (encodeFields fs).take m ≠ encodeFields (fs.take k)) (fuel : Nat) :
    decodeFields fuel ((encodeFields fs).take m) = none := by
  induction fs generalizing fuel m with
  | nil => exact absurd List.take_nil (hcut 0)
  | cons f fs ih =>
    have hne : (encodeFields (f :: fs)).take m ≠ [] := hcut 0
    cases fuel with
    | zero => exact decodeFields.eq_2 _ hne
    | succ fuel =>
      rw [decodeFields.eq_3 _ _ hne]
      rw [encodeFields, List.flatMap_cons]
      obtain ⟨hm, htake⟩ | ⟨k, rfl, htake⟩ := take_append_cases f.encode _ m
      · rw [htake, decodeField_take (h f List.mem_cons_self) hm]
        rfl
      · have hrest : ∀ j, (encodeFields fs).take k ≠ encodeFields (fs.take j) := by
          intro j hj
          refine hcut (j + 1) ?_
          rw [encodeFields, List.flatMap_cons, htake, List.take_succ_cons, encodeFields,
            List.flatMap_cons]
          exact congrArg (f.encode ++ ·) hj
        rw [htake, decodeField_encode (h f List.mem_cons_self)]
        exact congrArg (Option.map (f :: ·))
          (ih (fun g hg => h g (List.mem_cons_of_mem _ hg)) hrest fuel)

/-! ## Reading fields back -/

/-- The values of the fields with a number, in order. -/
def valuesAt (k : Nat) (fs : List Field) : List Value :=
  fs.filterMap fun f => if f.number = k then some f.value else none

section simp
variable {k n : Nat} {v : Value} {fs gs : List Field}

@[simp] theorem valuesAt_nil : valuesAt k [] = [] := rfl

@[simp] theorem valuesAt_cons :
    valuesAt k (⟨n, v⟩ :: fs) = if n = k then v :: valuesAt k fs else valuesAt k fs := by
  simp only [valuesAt, List.filterMap_cons]
  split_ifs <;> rfl

@[simp] theorem valuesAt_append : valuesAt k (fs ++ gs) = valuesAt k fs ++ valuesAt k gs :=
  List.filterMap_append ..

@[simp] theorem valuesAt_map {α : Type u} {g : α → Value} {xs : List α} :
    valuesAt k (xs.map fun x => ⟨n, g x⟩) = if n = k then xs.map g else [] := by
  induction xs with
  | nil => simp
  | cons x xs ih => simp only [List.map_cons, valuesAt_cons, ih]; split_ifs <;> rfl

end simp

namespace Value

def bytes? : Value → Option ByteStr
  | .bytes bs => some bs
  | _ => none

def varint? : Value → Option Nat
  | .varint n => some n
  | _ => none

def fixed64? : Value → Option (BitVec 64)
  | .fixed64 bits => some bits
  | _ => none

end Value

/-- A packed list of varints. -/
def decodePacked : Nat → ByteStr → Option (List Nat)
  | _, [] => some []
  | 0, _ => none
  | fuel + 1, bs => (decodeVarint bs).bind fun (n, rest) => (decodePacked fuel rest).map (n :: ·)

/-- The varints of a field of a repeated type: one, or a packed list of them. -/
def Value.varints : Value → Option (List Nat)
  | .varint n => some [n]
  | .bytes bs => decodePacked bs.length bs
  | _ => some []

/-- A field that may be repeated: all its byte strings. -/
def repeatedBytes (k : Nat) (fs : List Field) : List ByteStr :=
  (valuesAt k fs).filterMap Value.bytes?

def repeatedVarint (k : Nat) (fs : List Field) : Option (List Nat) :=
  ((valuesAt k fs).mapM Value.varints).map List.flatten

/-- A required field: its last occurrence counts. -/
def requiredBytes (k : Nat) (fs : List Field) : Option ByteStr :=
  ((valuesAt k fs).filterMap Value.bytes?).getLast?

def requiredVarint (k : Nat) (fs : List Field) : Option Nat :=
  ((valuesAt k fs).filterMap Value.varint?).getLast?

def requiredFixed64 (k : Nat) (fs : List Field) : Option (BitVec 64) :=
  ((valuesAt k fs).filterMap Value.fixed64?).getLast?

/-- An enumeration: a number that stands for none of its values does not count as an occurrence. -/
def requiredEnum (ofNumber? : Nat → Option α) (k : Nat) (fs : List Field) : Option α :=
  (((valuesAt k fs).filterMap Value.varint?).filterMap ofNumber?).getLast?

theorem repeatedVarint_eq {α : Type} {k : Nat} {fs : List Field} {g : α → Nat} {xs : List α}
    (h : valuesAt k fs = xs.map fun x => .varint (g x)) :
    repeatedVarint k fs = some (xs.map g) := by
  have hone : (xs.map fun x => Value.varint (g x)).mapM Value.varints =
      some (xs.map fun x => [g x]) := mapM_map_eq_some fun _ _ => rfl
  rw [repeatedVarint, h, hone, Option.map_some, ← List.flatMap_def, ← List.map_eq_flatMap]

/-! ## Messages -/

/-- A message type: its fields, and how a message is read from fields. The fields it writes are in
the range of the format, apart from the lengths, which are bounded by the size of the message. -/
structure MessageType (α : Type u) where
  toFields : α → List Field
  ofFields : List Field → Option α
  inRange : ∀ a, ∀ f ∈ toFields a, f.InRange
  ofFields_toFields : ∀ a, (encodeFields (toFields a)).length < 2 ^ 32 →
    ofFields (toFields a) = some a

namespace MessageType

variable {α : Type u} (M : MessageType α)

/-- `SerializeToArray` into an array that is large enough. -/
def serialize (a : α) : ByteStr := encodeFields (M.toFields a)

/-- `ParseFromArray`. -/
def parse (bs : ByteStr) : Option α := (decodeFields bs.length bs).bind M.ofFields

/-- `ByteSize`. -/
def byteSize (a : α) : Nat := (M.serialize a).length

/-- The fields of a message that is not longer than the format allows. -/
theorem valid_toFields {a : α} (h : M.byteSize a < 2 ^ 32) : ∀ f ∈ M.toFields a, f.Valid := by
  intro f hf
  obtain ⟨hpos, hlt, hvarint⟩ := M.inRange a f hf
  have hlen : f.encode.length < 2 ^ 32 := Nat.lt_of_le_of_lt (length_encode_le hf) h
  refine ⟨hpos, hlt, ?_⟩
  obtain ⟨k, v⟩ := f
  cases v with
  | varint n => exact hvarint n rfl
  | bytes bs =>
    simp only [Field.encode, Value.encode, List.length_append] at hlen
    exact show bs.length < 2 ^ 32 by omega
  | fixed64 | fixed32 => trivial

/-- Such a message is read as its fields, whatever type it is read with. -/
theorem parse_serialize_of {β : Type v} (N : MessageType β) {a : α} (h : M.byteSize a < 2 ^ 32) :
    N.parse (M.serialize a) = N.ofFields (M.toFields a) := by
  rw [parse, serialize, decodeFields_encodeFields (M.valid_toFields h)
    (length_le_length_encodeFields _), Option.bind_some]

theorem parse_serialize {a : α} (h : M.byteSize a < 2 ^ 32) :
    M.parse (M.serialize a) = some a :=
  (M.parse_serialize_of M h).trans (M.ofFields_toFields a h)

/-- The fields of a repeated message. -/
def repeatedFields (k : Nat) (xs : List α) : List Field :=
  xs.map fun x => ⟨k, .bytes (M.serialize x)⟩

theorem inRange_repeatedFields {k : Nat} (hpos : 0 < k) (hlt : k < 2 ^ 29) {xs : List α} {f : Field}
    (hf : f ∈ M.repeatedFields k xs) : f.InRange := by
  obtain ⟨x, -, rfl⟩ := List.mem_map.mp hf
  exact Field.inRange_bytes hpos hlt _

/-- A field that may be repeated and whose values are messages. -/
def repeatedMessage (k : Nat) (fs : List Field) : Option (List α) :=
  (repeatedBytes k fs).mapM M.parse

variable {M}

theorem valuesAt_repeatedFields {k n : Nat} {xs : List α} :
    valuesAt k (M.repeatedFields n xs) =
      if n = k then xs.map fun x => .bytes (M.serialize x) else [] := valuesAt_map

theorem mem_repeatedFields {k : Nat} {x : α} {xs : List α} (hx : x ∈ xs) :
    ⟨k, .bytes (M.serialize x)⟩ ∈ M.repeatedFields k xs := List.mem_map.mpr ⟨x, hx, rfl⟩

/-- Nested messages are read back when the message around them is not too long. -/
theorem repeatedMessage_eq {k : Nat} {xs : List α} {fs : List Field}
    (hfields : M.repeatedFields k xs ⊆ fs) (hsize : (encodeFields fs).length < 2 ^ 32)
    (hvalues : valuesAt k fs = xs.map fun x => .bytes (M.serialize x)) :
    M.repeatedMessage k fs = some xs := by
  have hbytes : repeatedBytes k fs = xs.map M.serialize := by
    rw [repeatedBytes, hvalues, List.filterMap_map]
    simp [Function.comp_def, Value.bytes?]
  have hparse : ∀ x ∈ xs, M.parse (M.serialize x) = some x := by
    intro x hx
    have hle := length_encode_le (hfields (mem_repeatedFields hx))
    simp only [Field.encode, Value.encode, List.length_append] at hle
    exact M.parse_serialize (by unfold byteSize; omega)
  rw [repeatedMessage, hbytes, mapM_map_eq_some hparse, List.map_id']

end MessageType

end ProtoWire
