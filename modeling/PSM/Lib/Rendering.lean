import PSM.Lib.ByteStr

/-! What a template renders of a Python value, and what a browser makes of it in an attribute.

`PyValue.repr` is the literal of a value, as Python 2 writes it. A template engine escapes it for a
page, and the browser gets it back from the value of an attribute (`Html.attrValue_escape`). -/

inductive PyValue where
  | str (s : ByteStr)
  | list (xs : List PyValue)
  | dict (items : List (ByteStr × PyValue))

namespace PyValue
open ByteStr

/-- A single quote, unless the string has single quotes and no double one. -/
def reprQuote (s : ByteStr) : UInt8 := if 39 ∈ s ∧ 34 ∉ s then 34 else 39

def hexDigit (n : UInt8) : UInt8 := if n < 10 then 48 + n else 87 + n

def reprChar (quote c : UInt8) : ByteStr :=
  if c = quote ∨ c = 92 then [92, c]
  else if c = 9 then ascii "\\t"
  else if c = 10 then ascii "\\n"
  else if c = 13 then ascii "\\r"
  else if c < 32 ∨ 127 ≤ c then ascii "\\x" ++ [hexDigit (c / 16), hexDigit (c % 16)]
  else [c]

def reprStr (s : ByteStr) : ByteStr :=
  let quote := reprQuote s
  quote :: s.flatMap (reprChar quote) ++ [quote]

mutual

/-- `repr` of Python 2. -/
def repr : PyValue → ByteStr
  | .str s => reprStr s
  | .list xs => 91 :: reprElements xs ++ [93]
  | .dict items => 123 :: reprItems items ++ [125]

def reprElements : List PyValue → ByteStr
  | [] => []
  | [x] => x.repr
  | x :: y :: xs => x.repr ++ 44 :: 32 :: reprElements (y :: xs)

def reprItems : List (ByteStr × PyValue) → ByteStr
  | [] => []
  | [m] => reprStr m.1 ++ 58 :: 32 :: m.2.repr
  | m :: m' :: ms => reprStr m.1 ++ 58 :: 32 :: m.2.repr ++ 44 :: 32 :: reprItems (m' :: ms)

end

/-- The strings of the value, and the keys in it. -/
inductive All (P : ByteStr → Prop) : PyValue → Prop where
  | str {s : ByteStr} (h : P s) : All P (.str s)
  | list {xs : List PyValue} (h : ∀ x ∈ xs, All P x) : All P (.list xs)
  | dict {items : List (ByteStr × PyValue)} (hkeys : ∀ m ∈ items, P m.1)
      (h : ∀ m ∈ items, All P m.2) : All P (.dict items)

section
variable {quote c : UInt8} {s : ByteStr}

theorem reprChar_marked (h : c = quote ∨ c = 92) : reprChar quote c = [92, c] := if_pos h

theorem reprChar_plain (h : ¬(c = quote ∨ c = 92)) (hc : 32 ≤ c ∧ c ≤ 126) :
    reprChar quote c = [c] := by
  obtain ⟨hlow, hhigh⟩ := hc
  rw [reprChar, if_neg h, if_neg (by rintro rfl; exact absurd hlow (by decide)),
    if_neg (by rintro rfl; exact absurd hlow (by decide)),
    if_neg (by rintro rfl; exact absurd hlow (by decide)), if_neg]
  rw [not_or, UInt8.not_lt, UInt8.not_le]
  exact ⟨hlow, UInt8.lt_of_le_of_lt hhigh (by decide)⟩

theorem reprQuote_of_notMem (h : 39 ∉ s) : reprQuote s = 39 := if_neg fun hs => h hs.1

end

end PyValue

/-! ## Pages -/

namespace Html
open ByteStr

def escapeChar (c : UInt8) : ByteStr :=
  if c = 38 then ascii "&amp;"
  else if c = 60 then ascii "&lt;"
  else if c = 62 then ascii "&gt;"
  else if c = 34 then ascii "&quot;"
  else if c = 39 then ascii "&#39;"
  else [c]

/-- `escape` of Django: the replacements of the characters, one after the other and that of `&`
first. -/
def escape (s : ByteStr) : ByteStr := s.flatMap escapeChar

/-- The references to characters, behind their `&`. These are the ones that `escape` writes. -/
def references : List (ByteStr × UInt8) :=
  [(ascii "amp;", 38), (ascii "lt;", 60), (ascii "gt;", 62), (ascii "quot;", 34),
    (ascii "#39;", 39)]

/-- The rest of a reference is skipped. -/
def unescapeFrom : Nat → ByteStr → ByteStr
  | _, [] => []
  | skip + 1, _ :: s => unescapeFrom skip s
  | 0, c :: s =>
    if c = 38 then
      match references.find? fun r => r.1.isPrefixOf s with
      | some r => r.2 :: unescapeFrom r.1.length s
      | none => c :: unescapeFrom 0 s
    else c :: unescapeFrom 0 s

def unescape (s : ByteStr) : ByteStr := unescapeFrom 0 s

/-- The value of an attribute, from behind its opening quote on. -/
def attrValue (s : ByteStr) : ByteStr := unescape (s.takeWhile (· ≠ 34))

theorem unescape_escapeChar (c : UInt8) (s : ByteStr) :
    unescape (escapeChar c ++ s) = c :: unescape s := by
  unfold escapeChar
  split_ifs with hamp hlt hgt hquot hapos
  · rw [hamp]; rfl
  · rw [hlt]; rfl
  · rw [hgt]; rfl
  · rw [hquot]; rfl
  · rw [hapos]; rfl
  · rw [List.singleton_append, unescape, unescapeFrom, if_neg hamp, unescape]

theorem unescape_escape (s : ByteStr) : unescape (escape s) = s := by
  induction s with
  | nil => rfl
  | cons c s ih =>
    have hcons : escape (c :: s) = escapeChar c ++ escape s := List.flatMap_cons
    rw [hcons, unescape_escapeChar, ih]

theorem quote_notMem_escape (s : ByteStr) : 34 ∉ escape s := by
  intro h
  obtain ⟨c, -, hc⟩ := List.mem_flatMap.mp h
  unfold escapeChar at hc
  repeat' split at hc
  all_goals first
    | exact absurd hc (by decide)
    | exact absurd (List.mem_singleton.mp hc).symm ‹_›

/-- The value of the attribute is the text that has been escaped. -/
theorem attrValue_escape (s rest : ByteStr) : attrValue (escape s ++ 34 :: rest) = s := by
  have hvalue : (escape s ++ 34 :: rest).takeWhile (· ≠ 34) = escape s := by
    rw [List.takeWhile_append_of_pos, List.takeWhile_cons_of_neg (by decide), List.append_nil]
    intro c hc
    refine decide_eq_true ?_
    rintro rfl
    exact quote_notMem_escape s hc
  rw [attrValue, hvalue, unescape_escape]

end Html
