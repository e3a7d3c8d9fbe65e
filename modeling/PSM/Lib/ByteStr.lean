import Mathlib

/-! Byte strings: literals, decimal numbers, separators, little-endian numbers and fixed-size
buffers. -/

/-- A string of bytes, with no terminator and no encoding. -/
abbrev ByteStr := List UInt8

instance : LawfulBEq ByteStr := inferInstanceAs (LawfulBEq (List UInt8))

namespace ByteStr

/-- The bytes of an ASCII literal. -/
def ascii (s : String) : ByteStr := s.toList.map fun c => c.toNat.toUInt8

/-- The decimal text of an integer, with a minus sign when it is negative. -/
def decimal (n : Int) : ByteStr := ascii n.repr

/-! ## Decimal numbers and separators -/

/-- The characters of a decimal number. -/
def IsDecimalChar (c : Char) : Prop := c.isDigit ∨ c = '-'

theorem isDecimalChar_of_mem_repr {n : Int} {c : Char} (h : c ∈ n.repr.toList) :
    IsDecimalChar c := by
  cases n with
  | ofNat n =>
    rw [Int.repr, Nat.toList_repr] at h
    exact .inl (Nat.isDigit_of_mem_toDigits (by decide) (by decide) h)
  | negSucc n =>
    rw [Int.repr, String.toList_append, List.mem_append] at h
    rcases h with h | h
    · exact .inr (by simpa using h)
    · rw [Nat.toList_repr] at h
      exact .inl (Nat.isDigit_of_mem_toDigits (by decide) (by decide) h)

theorem isDecimalChar_lt {c : Char} (h : IsDecimalChar c) : c.toNat < 58 := by
  rcases h with h | rfl
  · simp only [Char.isDigit, Bool.and_eq_true, decide_eq_true_eq] at h
    have := h.2
    simp only [Char.toNat, UInt32.le_iff_toNat_le] at *
    exact Nat.lt_succ_of_le this
  · decide

theorem lt_of_mem_decimal {n : Int} {b : UInt8} (h : b ∈ decimal n) : b.toNat < 58 := by
  obtain ⟨c, hc, rfl⟩ := List.mem_map.mp h
  have := isDecimalChar_lt (isDecimalChar_of_mem_repr hc)
  simp only [Nat.toUInt8, UInt8.toNat_ofNat']
  omega

/-- A byte of a decimal number is a digit or a minus sign. -/
theorem of_mem_decimal {n : Int} {b : UInt8} (h : b ∈ decimal n) : 48 ≤ b.toNat ∨ b.toNat = 45 := by
  obtain ⟨c, hc, rfl⟩ := List.mem_map.mp h
  have hlt := isDecimalChar_lt (isDecimalChar_of_mem_repr hc)
  rcases isDecimalChar_of_mem_repr hc with hdigit | rfl
  · simp only [Char.isDigit, Bool.and_eq_true, decide_eq_true_eq] at hdigit
    have hle : 48 ≤ c.toNat := hdigit.1
    simp only [Nat.toUInt8, UInt8.toNat_ofNat']
    omega
  · exact .inr rfl

theorem decimal_injective : Function.Injective decimal := by
  intro m n h
  have hinj : ∀ x ∈ m.repr.toList, ∀ y ∈ n.repr.toList,
      x.toNat.toUInt8 = y.toNat.toUInt8 → x = y := by
    intro x hx y hy hxy
    have hx := isDecimalChar_lt (isDecimalChar_of_mem_repr hx)
    have hy := isDecimalChar_lt (isDecimalChar_of_mem_repr hy)
    have := congrArg UInt8.toNat hxy
    simp only [Nat.toUInt8, UInt8.toNat_ofNat'] at this
    exact Char.toNat_inj.mp (by omega)
  have key : ∀ {xs ys : List Char}, (∀ x ∈ xs, ∀ y ∈ ys,
      x.toNat.toUInt8 = y.toNat.toUInt8 → x = y) →
      xs.map (fun c => c.toNat.toUInt8) = ys.map (fun c => c.toNat.toUInt8) → xs = ys := by
    intro xs
    induction xs with
    | nil => intro ys _ h; cases ys <;> simp_all
    | cons x xs ih =>
      intro ys hinj h
      cases ys with
      | nil => simp at h
      | cons y ys =>
        simp only [List.map_cons, List.cons.injEq] at h
        rw [hinj x (by simp) y (by simp) h.1,
          ih (fun x hx y hy => hinj x (by simp [hx]) y (by simp [hy])) h.2]
  exact Int.repr_inj.mp (String.toList_inj.mp (key hinj h))

/-- The byte `:` separates a decimal number from what follows it. -/
def colon : UInt8 := 58

theorem colon_notMem_decimal (n : Int) : colon ∉ decimal n := fun h => by
  have := lt_of_mem_decimal h
  exact absurd this (by decide)

/-- Cutting at the first separator is injective. -/
theorem append_sep_inj {sep : UInt8} {a b x y : ByteStr} (ha : sep ∉ a) (hb : sep ∉ b) :
    a ++ sep :: x = b ++ sep :: y ↔ a = b ∧ x = y := by
  refine ⟨fun h => ?_, fun ⟨h1, h2⟩ => by rw [h1, h2]⟩
  induction a generalizing b with
  | nil =>
    cases b with
    | nil => exact ⟨rfl, (List.cons.inj h).2⟩
    | cons c b => exact absurd (List.cons.inj h).1 fun e => hb (by simp [e])
  | cons c a ih =>
    cases b with
    | nil => exact absurd (List.cons.inj h).1 fun e => ha (by simp [e])
    | cons d b =>
      obtain ⟨rfl, htail⟩ := List.cons.inj h
      have hab := ih (fun hm => ha (List.mem_cons_of_mem _ hm))
        (fun hm => hb (List.mem_cons_of_mem _ hm)) htail
      exact ⟨by rw [hab.1], hab.2⟩

/-- A decimal number and a text after it, separated by a colon, determine each other. -/
theorem decimal_colon_inj {m n : Int} {x y : ByteStr} :
    decimal m ++ colon :: x = decimal n ++ colon :: y ↔ m = n ∧ x = y := by
  rw [append_sep_inj (colon_notMem_decimal m) (colon_notMem_decimal n), decimal_injective.eq_iff]

/-! ## Sixteen-bit numbers -/

/-- The two bytes of a sixteen-bit number, low byte first. -/
def le16 (n : Nat) : ByteStr := [n.toUInt8, (n / 256).toUInt8]

/-- The unsigned number in the first two bytes. -/
def readLe16 (bs : ByteStr) : Nat := (bs.getD 0 0).toNat + 256 * (bs.getD 1 0).toNat

/-- The signed reading of the low sixteen bits: C's conversion to `short`. -/
def toShort (n : Nat) : Int := if n % 65536 < 32768 then n % 65536 else (n % 65536 : Nat) - 65536

@[simp] theorem length_le16 (n : Nat) : (le16 n).length = 2 := rfl

theorem readLe16_le16_append {n : Nat} (h : n < 65536) (bs : ByteStr) :
    readLe16 (le16 n ++ bs) = n := by
  simp only [readLe16, le16, List.cons_append, List.nil_append, List.getD_cons_zero,
    List.getD_cons_succ, Nat.toUInt8, UInt8.toNat_ofNat']
  omega

theorem readLe16_append {bs : ByteStr} (h : 2 ≤ bs.length) (cs : ByteStr) :
    readLe16 (bs ++ cs) = readLe16 bs := by
  match bs, h with
  | a :: b :: bs, _ => rfl

theorem readLe16_take {bs : ByteStr} {n : Nat} (h : 2 ≤ n) :
    readLe16 (bs.take n) = readLe16 bs := by
  obtain ⟨n, rfl⟩ := Nat.exists_eq_add_of_le' h
  match bs with
  | [] => rfl
  | [a] => rfl
  | a :: b :: bs => rfl

theorem toShort_eq_self {n : Nat} (h : n < 32768) : toShort n = n := by
  have : n % 65536 = n := Nat.mod_eq_of_lt (by omega)
  simp only [toShort, this, h, if_true]
  omega

end ByteStr

/-! ## Buffers -/

/-- A memory area of `n` bytes. -/
structure Buffer (n : Nat) where
  bytes : ByteStr
  length_eq : bytes.length = n

namespace Buffer

variable {n : Nat}

/-- The area after `ZeroMemory` or `memset` with 0. -/
def zero (n : Nat) : Buffer n := ⟨List.replicate n 0, List.length_replicate⟩

/-- Overwrite from `off` on. There is no result when a byte falls outside the area. -/
def write (b : Buffer n) (off : Nat) (data : ByteStr) : Option (Buffer n) :=
  if h : off + data.length ≤ n then
    some ⟨b.bytes.take off ++ data ++ b.bytes.drop (off + data.length), by
      simp [b.length_eq]; omega⟩
  else none

theorem write_eq_none_iff {b : Buffer n} {off : Nat} {data : ByteStr} :
    b.write off data = none ↔ n < off + data.length := by
  unfold write
  split <;> simp <;> omega

/-- Writing right after a prefix extends the prefix. -/
theorem take_write {b b' : Buffer n} {off : Nat} {data : ByteStr}
    (h : b.write off data = some b') :
    b'.bytes.take (off + data.length) = b.bytes.take off ++ data := by
  unfold write at h
  split at h
  · rename_i hle
    cases h
    have hoff : (b.bytes.take off).length = off := by simp [b.length_eq]; omega
    rw [List.take_append_of_le_length (by simp [hoff])]
    exact List.take_of_length_le (by simp [hoff])
  · cases h

end Buffer
