import Mathlib.Data.List.Infix
import Mathlib.Data.List.InsertIdx
import PSM.Lib.ByteStr

/-! Glob patterns, as Redis matches keys with them.

A pattern is a text in which `*`, `?`, `[` and the backslash have a meaning. It is read into atoms,
and each atom matches one byte, except that a star matches any text. A class of bytes that is not
closed goes on to the end of the pattern. -/

namespace Glob
open ByteStr

inductive Atom where
  | lit (b : UInt8)
  | any
  | star
  | cls (negated : Bool) (ranges : List (UInt8 × UInt8))
  deriving DecidableEq

/-! ## Reading a pattern -/

/-- The bytes with a meaning: `*`, `?`, `[` and the backslash. -/
def starByte : UInt8 := 42
def anyByte : UInt8 := 63
def openByte : UInt8 := 91
def escapeByte : UInt8 := 92

/-- The bytes with a meaning in a class: `]`, `-` and, at its start, `^`. -/
def closeByte : UInt8 := 93
def rangeByte : UInt8 := 45
def notByte : UInt8 := 94

def Special (b : UInt8) : Prop :=
  b = starByte ∨ b = anyByte ∨ b = openByte ∨ b = escapeByte

instance (b : UInt8) : Decidable (Special b) := inferInstanceAs (Decidable (_ ∨ _))

/-- The ranges of a class, whose bounds may be in either order, and what comes after the class. -/
def readClass : ByteStr → List (UInt8 × UInt8) × ByteStr
  | [] => ([], [])
  | [b] => if b = closeByte then ([], []) else ([(b, b)], [])
  | [b, b'] =>
    if b = closeByte then ([], [b'])
    else if b = escapeByte then ([(b', b')], [])
    else ((b, b) :: (readClass [b']).1, (readClass [b']).2)
  | b :: b' :: b'' :: s =>
    if b = closeByte then ([], b' :: b'' :: s)
    else if b = escapeByte then ((b', b') :: (readClass (b'' :: s)).1, (readClass (b'' :: s)).2)
    else if b' = rangeByte then ((min b b'', max b b'') :: (readClass s).1, (readClass s).2)
    else ((b, b) :: (readClass (b' :: b'' :: s)).1, (readClass (b' :: b'' :: s)).2)

/-- The atom that starts with the byte `b`, and what comes after it. -/
def readAtom (b : UInt8) (s : ByteStr) : Atom × ByteStr :=
  if b = starByte then (.star, s)
  else if b = anyByte then (.any, s)
  else if b = openByte then
    if s.head? = some notByte then (.cls true (readClass s.tail).1, (readClass s.tail).2)
    else (.cls false (readClass s).1, (readClass s).2)
  else if b = escapeByte then
    match s with
    | [] => (.lit b, [])
    | b' :: s => (.lit b', s)
  else (.lit b, s)

/-- The atoms of a pattern, of which there are at most `n`. -/
def readAtoms : Nat → ByteStr → List Atom
  | n + 1, b :: s => (readAtom b s).1 :: readAtoms n (readAtom b s).2
  | _, _ => []

def read (s : ByteStr) : List Atom := readAtoms s.length s

/-! ## Matching -/

def Atom.accepts : Atom → UInt8 → Bool
  | .lit b, x => b = x
  | .any, _ => true
  | .star, _ => false
  | .cls negated ranges, x => (ranges.any fun r => r.1 ≤ x ∧ x ≤ r.2) != negated

def matchAtoms : List Atom → ByteStr → Bool
  | [], s => s.isEmpty
  | .star :: as, s => s.tails.any (matchAtoms as)
  | _ :: _, [] => false
  | a :: as, x :: s => a.accepts x && matchAtoms as s

/-- The pattern matches the text. -/
def glob (pattern s : ByteStr) : Bool := matchAtoms (read pattern) s

/-! ## What is read -/

/-- The atom of a byte that stands for itself, or for a text or a byte. -/
def single (b : UInt8) : Atom :=
  if b = starByte then .star else if b = anyByte then .any else .lit b

section
variable {b x : UInt8} {s t u v : ByteStr} {as bs : List Atom} {n : Nat}

theorem length_readClass_lt (hs : s ≠ []) : (readClass s).2.length < s.length := by
  fun_induction readClass s with
  | case1 => exact absurd rfl hs
  | case2 | case3 | case4 | case5 | case7 => simp
  | case6 _ _ _ _ ih => exact Nat.lt_succ_of_lt (ih (List.cons_ne_nil _ _))
  | case8 _ _ _ _ ih => exact Nat.lt_succ_of_lt (Nat.lt_succ_of_lt (ih (List.cons_ne_nil _ _)))
  | case9 _ _ s _ _ ih =>
    cases s with
    | nil => simp [readClass]
    | cons c s =>
      have := ih (List.cons_ne_nil c s)
      simp only [List.length_cons] at *
      omega
  | case10 _ _ _ _ _ _ _ ih => exact Nat.lt_succ_of_lt (ih (List.cons_ne_nil _ _))

theorem length_readClass_le : (readClass s).2.length ≤ s.length := by
  cases s with
  | nil => simp [readClass]
  | cons b s => exact Nat.le_of_lt (length_readClass_lt (List.cons_ne_nil b s))

theorem readAtom_single (hopen : b ≠ openByte) (hescape : b ≠ escapeByte) :
    readAtom b s = (single b, s) := by
  unfold readAtom single
  rw [if_neg hopen, if_neg hescape]
  split
  · rfl
  · split <;> rfl

/-- A class or an escaped byte takes more than one byte of the pattern. -/
theorem length_readAtom_lt (h : b = openByte ∨ b = escapeByte) (hs : s ≠ []) :
    (readAtom b s).2.length < s.length := by
  obtain ⟨c, s, rfl⟩ := List.exists_cons_of_ne_nil hs
  rcases h with rfl | rfl
  · unfold readAtom
    rw [if_neg (by decide), if_neg (by decide), if_pos rfl]
    split
    · exact Nat.lt_succ_of_le length_readClass_le
    · exact length_readClass_lt hs
  · unfold readAtom
    rw [if_neg (by decide), if_neg (by decide), if_neg (by decide), if_pos rfl]
    simp

theorem length_readAtom_le : (readAtom b s).2.length ≤ s.length := by
  by_cases h : b = openByte ∨ b = escapeByte
  · cases s with
    | nil =>
      rcases h with rfl | rfl <;> decide
    | cons c s => exact Nat.le_of_lt (length_readAtom_lt h (List.cons_ne_nil c s))
  · rw [not_or] at h
    rw [readAtom_single h.1 h.2]

theorem readAtoms_eq_read (h : s.length ≤ n) : readAtoms n s = read s := by
  induction n using Nat.strong_induction_on generalizing s with
  | _ n ih =>
    cases s with
    | nil => cases n <;> rfl
    | cons b s =>
      cases n with
      | zero => simp at h
      | succ n =>
        have hrest := @length_readAtom_le b s
        rw [List.length_cons] at h
        rw [read, List.length_cons, readAtoms, readAtoms, ih n n.lt_succ_self (by omega),
          ← ih s.length (by omega) hrest]

theorem read_cons : read (b :: s) = (readAtom b s).1 :: read (readAtom b s).2 := by
  rw [← readAtoms_eq_read length_readAtom_le]
  rfl

theorem length_readAtoms_le : (readAtoms n s).length ≤ n := by
  induction n generalizing s with
  | zero => simp [readAtoms]
  | succ n ih =>
    cases s with
    | nil => simp [readAtoms]
    | cons b s => exact Nat.succ_le_succ ih

theorem length_read_le : (read s).length ≤ s.length := length_readAtoms_le

/-- Bytes with no meaning are read as themselves. -/
theorem read_append (h : ∀ b ∈ t, ¬Special b) : read (t ++ s) = t.map .lit ++ read s := by
  induction t with
  | nil => rfl
  | cons b t ih =>
    obtain ⟨hb, ht⟩ := List.forall_mem_cons.mp h
    simp only [Special, not_or] at hb
    obtain ⟨hstar, hany, hopen, hescape⟩ := hb
    have hsingle : single b = .lit b := by rw [single, if_neg hstar, if_neg hany]
    rw [List.cons_append, read_cons, readAtom_single hopen hescape, hsingle, ih ht]
    rfl

/-- A pattern before a star that has an atom for each byte has no classes and escapes nothing. -/
theorem read_concat_star (h : (read (t ++ [starByte])).length = t.length + 1) :
    (∀ b ∈ t, b ≠ openByte ∧ b ≠ escapeByte) ∧
      read (t ++ [starByte]) = (t ++ [starByte]).map single := by
  induction t with
  | nil => exact ⟨fun b hb => absurd hb List.not_mem_nil, rfl⟩
  | cons b t ih =>
    have hne : t ++ [starByte] ≠ [] := by simp
    rw [List.cons_append, read_cons, List.length_cons, List.length_cons, Nat.add_right_cancel_iff]
      at h
    have hle := @length_read_le (readAtom b (t ++ [starByte])).2
    by_cases hb : b = openByte ∨ b = escapeByte
    · have hlt := length_readAtom_lt hb hne
      rw [List.length_append, List.length_singleton] at hlt
      omega
    · rw [not_or] at hb
      rw [readAtom_single hb.1 hb.2] at h
      obtain ⟨ht, hread⟩ := ih h
      refine ⟨List.forall_mem_cons.mpr ⟨hb, ht⟩, ?_⟩
      rw [List.cons_append, read_cons, readAtom_single hb.1 hb.2, hread, List.map_cons]

/-! ## What is matched -/

theorem matchAtoms_star : matchAtoms (.star :: as) s = true ↔ ∃ r, r <:+ s ∧ matchAtoms as r = true := by
  simp [matchAtoms, List.any_eq_true]

theorem matchAtoms_nil {a : Atom} (ha : a ≠ .star) : matchAtoms (a :: as) [] = false := by
  cases a <;> first | rfl | exact absurd rfl ha

theorem matchAtoms_cons {a : Atom} (ha : a ≠ .star) :
    matchAtoms (a :: as) (x :: s) = (a.accepts x && matchAtoms as s) := by
  cases a <;> first | rfl | exact absurd rfl ha

theorem length_of_matchAtoms (hstar : Atom.star ∉ as) (h : matchAtoms as s = true) :
    s.length = as.length := by
  induction as generalizing s with
  | nil => simpa [matchAtoms] using h
  | cons a as ih =>
    obtain ⟨ha, has⟩ := List.ne_and_not_mem_of_not_mem_cons hstar
    cases s with
    | nil =>
      rw [matchAtoms_nil (Ne.symm ha)] at h
      cases h
    | cons x s =>
      rw [matchAtoms_cons (Ne.symm ha), Bool.and_eq_true] at h
      exact congrArg (· + 1) (ih has h.2)

/-- A star matches one more byte. -/
theorem matchAtoms_insert (hstar : Atom.star ∉ as)
    (h : matchAtoms (as ++ .star :: bs) s = true) (x : UInt8) :
    matchAtoms (as ++ .star :: bs) (s.insertIdx as.length x) = true := by
  induction as generalizing s with
  | nil =>
    obtain ⟨r, hr, hmatch⟩ := matchAtoms_star.mp h
    exact matchAtoms_star.mpr ⟨r, hr.trans (List.suffix_cons x s), hmatch⟩
  | cons a as ih =>
    obtain ⟨ha, has⟩ := List.ne_and_not_mem_of_not_mem_cons hstar
    rw [List.cons_append] at h ⊢
    cases s with
    | nil =>
      rw [matchAtoms_nil (Ne.symm ha)] at h
      cases h
    | cons y s =>
      rw [matchAtoms_cons (Ne.symm ha), Bool.and_eq_true] at h
      rw [List.length_cons, List.insertIdx_succ_cons, matchAtoms_cons (Ne.symm ha), h.1,
        ih has h.2]
      rfl

theorem matchAtoms_lit_append :
    matchAtoms (t.map .lit ++ as) s = true ↔ ∃ r, s = t ++ r ∧ matchAtoms as r = true := by
  induction t generalizing s with
  | nil => simp
  | cons b t ih =>
    rw [List.map_cons, List.cons_append]
    cases s with
    | nil => simp [matchAtoms_nil]
    | cons x s =>
      rw [matchAtoms_cons (by simp), Bool.and_eq_true, ih]
      simp only [Atom.accepts, decide_eq_true_eq, List.cons_append, List.cons.injEq]
      constructor
      · rintro ⟨rfl, r, rfl, hr⟩
        exact ⟨r, ⟨rfl, rfl⟩, hr⟩
      · rintro ⟨r, ⟨rfl, rfl⟩, hr⟩
        exact ⟨rfl, r, rfl, hr⟩

/-- The text in which the byte `x` takes the place of each `?`. -/
def fillAny (x : UInt8) (t : ByteStr) : ByteStr := t.map fun b => if b = anyByte then x else b

theorem fillAny_eq_self (h : anyByte ∉ t) : fillAny x t = t := by
  rw [fillAny, List.map_congr_left (g := id), List.map_id]
  intro b hb
  exact if_neg (ne_of_mem_of_not_mem hb h)

theorem mem_fillAny (h : b ∈ fillAny x t) : b = x ∨ b ∈ t ∧ b ≠ anyByte := by
  obtain ⟨b', hb', rfl⟩ := List.mem_map.mp h
  by_cases hany : b' = anyByte
  · exact .inl (if_pos hany)
  · rw [if_neg hany]
    exact .inr ⟨hb', hany⟩

theorem matchAtoms_fillAny (hstar : starByte ∉ t) (h : matchAtoms as s = true) :
    matchAtoms (t.map single ++ as) (fillAny x t ++ s) = true := by
  induction t with
  | nil => exact h
  | cons b t ih =>
    obtain ⟨hb, ht⟩ := List.ne_and_not_mem_of_not_mem_cons hstar
    have hfill : fillAny x (b :: t) = (if b = anyByte then x else b) :: fillAny x t := rfl
    rw [hfill, List.map_cons, List.cons_append, List.cons_append, single, if_neg (Ne.symm hb)]
    split
    · exact ih ht
    · rw [matchAtoms_cons (by simp), ih ht]
      simp [Atom.accepts]

/-! ## Patterns that end in a star -/

/-- With no other byte that has a meaning, they match the texts that they begin. -/
theorem glob_prefix (h : ∀ b ∈ t, ¬Special b) : glob (t ++ [starByte]) s = true ↔ t <+: s := by
  have hread : read (t ++ [starByte]) = t.map .lit ++ [.star] := read_append h
  rw [glob, hread, matchAtoms_lit_append]
  constructor
  · rintro ⟨r, rfl, -⟩
    exact List.prefix_append t r
  · rintro ⟨r, rfl⟩
    exact ⟨r, rfl, matchAtoms_star.mpr ⟨[], List.nil_suffix, rfl⟩⟩

/-- Where each byte before the star has an atom of its own, only `?` and `*` have a meaning. -/
theorem eq_anyByte_of_special (hfull : (read (v ++ [starByte])).length = v.length + 1)
    (hstar : starByte ∉ v) (hb : b ∈ v) (hspecial : Special b) : b = anyByte := by
  have hne := (read_concat_star hfull).1 b hb
  rcases hspecial with rfl | hany | hopen | hescape
  · exact absurd hb hstar
  · exact hany
  · exact absurd hopen hne.1
  · exact absurd hescape hne.2

theorem glob_fillAny (hu : ∀ b ∈ u, ¬Special b)
    (hfull : (read (v ++ [starByte])).length = v.length + 1) (hstar : starByte ∉ v) (x : UInt8)
    (r : ByteStr) : glob (u ++ v ++ [starByte]) (u ++ fillAny x v ++ r) = true := by
  have hsingle := (read_concat_star hfull).2
  rw [glob, List.append_assoc, read_append hu, hsingle, List.map_append, List.append_assoc,
    matchAtoms_lit_append]
  refine ⟨_, rfl, matchAtoms_fillAny hstar ?_⟩
  exact matchAtoms_star.mpr ⟨[], List.nil_suffix, rfl⟩

/-- If no star comes before the last byte, each byte has an atom of its own. -/
theorem full_of_first_star (hsplit : read (v ++ [starByte]) = as ++ .star :: bs)
    (has : Atom.star ∉ as) (hi : v.length ≤ as.length) :
    (read (v ++ [starByte])).length = v.length + 1 ∧ starByte ∉ v := by
  have hle := @length_read_le (v ++ [starByte])
  have hlength := congrArg List.length hsplit
  rw [List.length_append, List.length_cons] at hlength
  rw [List.length_append, List.length_singleton] at hle
  have hfull : (read (v ++ [starByte])).length = v.length + 1 := by omega
  refine ⟨hfull, fun hmem => has ?_⟩
  have hparts : v.map single ++ [single starByte] = as ++ .star :: bs := by
    rw [← hsplit, (read_concat_star hfull).2, List.map_append, List.map_singleton]
  obtain ⟨rfl, -⟩ := List.append_inj hparts (by rw [List.length_map]; omega)
  exact List.mem_map.mpr ⟨starByte, hmem, rfl⟩

/-- If such a pattern matches a text of its length, then it also matches texts that are longer by one
byte, somewhere after the plain part `u`, or each `?` in it matches any byte and no other byte has a
meaning. -/
theorem glob_concat_star_cases (hu : ∀ b ∈ u, ¬Special b)
    (hlength : s.length = (u ++ v).length + 1) (h : glob (u ++ v ++ [starByte]) s = true)
    (x : UInt8) :
    (∃ i, u.length ≤ i ∧ i < (u ++ v).length ∧
      glob (u ++ v ++ [starByte]) (s.insertIdx i x) = true) ∨
    (∀ b ∈ v, Special b → b = anyByte) ∧
      ∀ r, glob (u ++ v ++ [starByte]) (u ++ fillAny x v ++ r) = true := by
  have hread : read (u ++ v ++ [starByte]) = u.map .lit ++ read (v ++ [starByte]) := by
    rw [List.append_assoc, read_append hu]
  rw [glob, hread] at h
  by_cases hstar : Atom.star ∈ read (v ++ [starByte])
  · obtain ⟨as, bs, hsplit, has⟩ := List.eq_append_cons_of_mem hstar
    by_cases hi : as.length < v.length
    · -- the first star is in `v`, and takes the byte
      have hlead : Atom.star ∉ u.map Atom.lit ++ as := by simp [has]
      rw [hsplit, ← List.append_assoc] at h
      refine .inl ⟨(u.map Atom.lit ++ as).length, by simp, by simpa using hi, ?_⟩
      rw [glob, hread, hsplit, ← List.append_assoc]
      exact matchAtoms_insert hlead h x
    · obtain ⟨hfull, hvstar⟩ := full_of_first_star hsplit has (Nat.le_of_not_lt hi)
      exact .inr ⟨fun b hb => eq_anyByte_of_special hfull hvstar hb, glob_fillAny hu hfull hvstar x⟩
  · -- without a star, the text would have a byte for each atom
    have hall : Atom.star ∉ u.map Atom.lit ++ read (v ++ [starByte]) := by simp [hstar]
    have hfull : (read (v ++ [starByte])).length = v.length + 1 := by
      have hatoms := length_of_matchAtoms hall h
      rw [List.length_append, List.length_map] at hatoms
      rw [List.length_append] at hlength
      omega
    have hmem : Atom.star ∈ read (v ++ [starByte]) := by
      rw [(read_concat_star hfull).2]
      simp [single]
    exact absurd hmem hstar

end

end Glob
