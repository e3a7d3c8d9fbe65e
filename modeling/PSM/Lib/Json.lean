import Mathlib.Data.List.Basic

/-! JSON texts, as JavaScript reads them.

An automaton splits a text into tokens, and another one, with a stack of the arrays and objects
that are open, makes a value of these. The tokens of a value are read as this value
(`parse_tokens`). What is in the strings of a value has been read from the text, as it is or as an
escape (`all_of_parseText`). -/

namespace Json

/-- A text of UTF-16 code units. -/
abbrev Text := List UInt16

def text (s : String) : Text := s.toList.map fun c => c.toNat.toUInt16

inductive Value where
  | null
  | bool (b : Bool)
  | num (s : Text)
  | str (s : Text)
  | arr (xs : List Value)
  | obj (ms : List (Text × Value))

inductive Token where
  | beginArray
  | endArray
  | beginObject
  | endObject
  | colon
  | comma
  | null
  | bool (b : Bool)
  | num (s : Text)
  | str (s : Text)

/-! ## Characters -/

def quote : UInt16 := 34
def backslash : UInt16 := 92

def isWhite (c : UInt16) : Bool := c = 32 || c = 9 || c = 10 || c = 13

def isDigit (c : UInt16) : Bool := 48 ≤ c && c ≤ 57

def isLetter (c : UInt16) : Bool := 97 ≤ c && c ≤ 122

/-- The characters of a number: digits, the signs, the point and the two letters. -/
def isNumberChar (c : UInt16) : Bool :=
  isDigit c || c = 43 || c = 45 || c = 46 || c = 69 || c = 101

def punctuation? (c : UInt16) : Option Token :=
  if c = 91 then some .beginArray
  else if c = 93 then some .endArray
  else if c = 123 then some .beginObject
  else if c = 125 then some .endObject
  else if c = 58 then some .colon
  else if c = 44 then some .comma
  else none

/-- What stands after a backslash, apart from the letter `u`. -/
def escaped? (c : UInt16) : Option UInt16 :=
  if c = quote ∨ c = backslash ∨ c = 47 then some c
  else if c = 98 then some 8
  else if c = 102 then some 12
  else if c = 110 then some 10
  else if c = 114 then some 13
  else if c = 116 then some 9
  else none

def hexDigit? (c : UInt16) : Option UInt16 :=
  if isDigit c then some (c - 48)
  else if 97 ≤ c ∧ c ≤ 102 then some (c - 87)
  else if 65 ≤ c ∧ c ≤ 70 then some (c - 55)
  else none

/-! ## Tokens -/

/-- A digit at least, and nothing but digits. -/
def isDigits (s : Text) : Bool := !s.isEmpty && s.all isDigit

/-- The digits before the point, of which the first is no 0 unless it is the only one. -/
def isInteger (s : Text) : Bool := isDigits s && (s.head? != some 48 || s.length == 1)

/-- The exponent after its letter, with or without a sign. -/
def isExponent : Text → Bool
  | [] => false
  | c :: s => if c = 43 ∨ c = 45 then isDigits s else isDigits (c :: s)

def isNumber (s : Text) : Bool :=
  let s := if s.head? = some 45 then s.tail else s
  let mantissa := s.takeWhile fun c => c ≠ 69 ∧ c ≠ 101
  let rest := s.dropWhile fun c => c ≠ 69 ∧ c ≠ 101
  let integer := mantissa.takeWhile (· ≠ 46)
  let fraction := mantissa.dropWhile (· ≠ 46)
  isInteger integer && (fraction.isEmpty || isDigits fraction.tail) &&
    (rest.isEmpty || isExponent rest.tail)

inductive LexState where
  | outside
  | word (s : Text)
  | number (s : Text)
  | string (s : Text)
  /-- After a backslash. -/
  | escape (s : Text)
  /-- After `\u`, with the number of digits that are missing. -/
  | unicode (s : Text) (missing : Nat) (code : UInt16)

def wordToken (s : Text) : Option Token :=
  if s = text "null" then some .null
  else if s = text "true" then some (.bool true)
  else if s = text "false" then some (.bool false)
  else none

def numberToken (s : Text) : Option Token := if isNumber s then some (.num s) else none

/-- A character outside a token. -/
def start (c : UInt16) : Option (List Token × LexState) :=
  if isWhite c then some ([], .outside)
  else if c = quote then some ([], .string [])
  else if isDigit c ∨ c = 45 then some ([], .number [c])
  else if isLetter c then some ([], .word [c])
  else (punctuation? c).map fun t => ([t], .outside)

/-- The tokens that end at a character, and the state after it. -/
def LexState.step : LexState → UInt16 → Option (List Token × LexState)
  | outside, c => start c
  | word s, c =>
    if isLetter c then some ([], word (s ++ [c]))
    else do
      let t ← wordToken s
      let (ts, st) ← start c
      some (t :: ts, st)
  | number s, c =>
    if isNumberChar c then some ([], number (s ++ [c]))
    else do
      let t ← numberToken s
      let (ts, st) ← start c
      some (t :: ts, st)
  | string s, c =>
    if c = quote then some ([.str s], outside)
    else if c = backslash then some ([], escape s)
    else if c < 32 then none
    else some ([], string (s ++ [c]))
  | escape s, c =>
    if c = 117 then some ([], unicode s 3 0)
    else (escaped? c).map fun x => ([], string (s ++ [x]))
  | unicode s missing code, c => do
    let digit ← hexDigit? c
    let code := 16 * code + digit
    match missing with
    | 0 => some ([], string (s ++ [code]))
    | missing + 1 => some ([], unicode s missing code)

/-- At the end of the text. -/
def LexState.finish : LexState → Option (List Token)
  | outside => some []
  | word s => (wordToken s).map fun t => [t]
  | number s => (numberToken s).map fun t => [t]
  | _ => none

def lexFrom : LexState → Text → Option (List Token)
  | st, [] => st.finish
  | st, c :: s => (st.step c).bind fun (ts, st) => (lexFrom st s).map (ts ++ ·)

def lex (s : Text) : Option (List Token) := lexFrom .outside s

/-! ## Values -/

/-- An array or an object that is open, with what has been read of it. -/
inductive Frame where
  | arr (xs : List Value)
  | obj (ms : List (Text × Value)) (key : Text)

/-- What must come next. -/
inductive State where
  | value (stack : List Frame)
  | valueOrEnd (stack : List Frame)
  | keyOrEnd (stack : List Frame)
  | key (ms : List (Text × Value)) (stack : List Frame)
  | colon (ms : List (Text × Value)) (key : Text) (stack : List Frame)
  /-- A value has been read. -/
  | after (v : Value) (stack : List Frame)

def startValue (stack : List Frame) : Token → Option State
  | .null => some (.after .null stack)
  | .bool b => some (.after (.bool b) stack)
  | .num s => some (.after (.num s) stack)
  | .str s => some (.after (.str s) stack)
  | .beginArray => some (.valueOrEnd stack)
  | .beginObject => some (.keyOrEnd stack)
  | _ => none

def State.step : State → Token → Option State
  | value stack, t => startValue stack t
  | valueOrEnd stack, .endArray => some (after (.arr []) stack)
  | valueOrEnd stack, t => startValue (.arr [] :: stack) t
  | keyOrEnd stack, .endObject => some (after (.obj []) stack)
  | keyOrEnd stack, .str k => some (colon [] k stack)
  | key ms stack, .str k => some (colon ms k stack)
  | colon ms k stack, .colon => some (value (.obj ms k :: stack))
  | after v (.arr xs :: stack), .comma => some (value (.arr (xs ++ [v]) :: stack))
  | after v (.arr xs :: stack), .endArray => some (after (.arr (xs ++ [v])) stack)
  | after v (.obj ms k :: stack), .comma => some (key (ms ++ [(k, v)]) stack)
  | after v (.obj ms k :: stack), .endObject => some (after (.obj (ms ++ [(k, v)])) stack)
  | _, _ => none

def State.run : State → List Token → Option State
  | st, [] => some st
  | st, t :: ts => (st.step t).bind fun st => run st ts

/-- The value, when there is nothing left that is open. -/
def State.value? : State → Option Value
  | after v [] => some v
  | _ => none

def parse (ts : List Token) : Option Value := ((State.value []).run ts).bind State.value?

/-- `JSON.parse`. -/
def parseText (s : Text) : Option Value := (lex s).bind parse

/-- A member of an object: of several with one name the last counts. -/
def Value.member? (key : Text) : Value → Option Value
  | obj ms => (ms.reverse.find? fun m => m.1 = key).map Prod.snd
  | _ => none

/-! ## The tokens of a value -/

mutual

def Value.tokens : Value → List Token
  | .null => [.null]
  | .bool b => [.bool b]
  | .num s => [.num s]
  | .str s => [.str s]
  | .arr xs => .beginArray :: elements xs ++ [.endArray]
  | .obj ms => .beginObject :: members ms ++ [.endObject]

/-- With commas in between. -/
def Value.elements : List Value → List Token
  | [] => []
  | [x] => x.tokens
  | x :: y :: xs => x.tokens ++ .comma :: Value.elements (y :: xs)

def Value.members : List (Text × Value) → List Token
  | [] => []
  | [m] => .str m.1 :: .colon :: m.2.tokens
  | m :: m' :: ms => .str m.1 :: .colon :: m.2.tokens ++ .comma :: Value.members (m' :: ms)

end

section
variable {stack : List Frame} {ts ts' : List Token} {st st' : State}

theorem State.run_append : st.run (ts ++ ts') = (st.run ts).bind fun st => st.run ts' := by
  induction ts generalizing st with
  | nil => rfl
  | cons t ts ih =>
    rw [List.cons_append, State.run, State.run]
    cases st.step t with
    | none => rfl
    | some st => exact ih

theorem State.run_cons {t : Token} : st.run (t :: ts) = (st.step t).bind fun st => st.run ts := rfl

/-- A value does not begin with the end of an array. -/
theorem run_valueOrEnd (v : Value) : (State.valueOrEnd stack).run (v.tokens ++ ts) =
    (State.value (.arr [] :: stack)).run (v.tokens ++ ts) := by
  cases v <;> simp only [Value.tokens, List.cons_append] <;> rfl

theorem elements_cons (x : Value) (xs : List Value) :
    ∃ ts, Value.elements (x :: xs) = x.tokens ++ ts := by
  cases xs with
  | nil => exact ⟨[], by rw [Value.elements, List.append_nil]⟩
  | cons y ys => exact ⟨_, by rw [Value.elements]⟩

theorem run_keyOrEnd (m : Text × Value) (ms : List (Text × Value)) :
    (State.keyOrEnd stack).run (Value.members (m :: ms) ++ ts) =
      (State.key [] stack).run (Value.members (m :: ms) ++ ts) := by
  cases ms <;> rw [Value.members] <;> rfl

mutual

/-- The tokens of a value are read as the value. -/
theorem run_tokens : ∀ (v : Value) (stack : List Frame),
    (State.value stack).run v.tokens = some (.after v stack)
  | .null, stack => by rw [Value.tokens]; rfl
  | .bool b, stack => by rw [Value.tokens]; rfl
  | .num s, stack => by rw [Value.tokens]; rfl
  | .str s, stack => by rw [Value.tokens]; rfl
  | .arr [], stack => by rw [Value.tokens, Value.elements]; rfl
  | .arr (x :: xs), stack => by
    obtain ⟨ts, hts⟩ := elements_cons x xs
    have helements := run_elements (x :: xs) (List.cons_ne_nil x xs) [] stack
    rw [Value.tokens, List.cons_append]
    change (State.valueOrEnd stack).run (Value.elements (x :: xs) ++ [.endArray]) = _
    rw [hts, List.append_assoc] at helements ⊢
    rw [run_valueOrEnd, helements, List.nil_append]
  | .obj [], stack => by rw [Value.tokens, Value.members]; rfl
  | .obj (m :: ms), stack => by
    rw [Value.tokens, List.cons_append]
    change (State.keyOrEnd stack).run (Value.members (m :: ms) ++ [.endObject]) = _
    rw [run_keyOrEnd, run_members (m :: ms) (List.cons_ne_nil m ms) [] stack, List.nil_append]

theorem run_elements : ∀ (xs : List Value), xs ≠ [] → ∀ (ys : List Value) (stack : List Frame),
    (State.value (.arr ys :: stack)).run (Value.elements xs ++ [.endArray]) =
      some (.after (.arr (ys ++ xs)) stack)
  | [], h, _, _ => absurd rfl h
  | [x], _, ys, stack => by
    rw [Value.elements, State.run_append, run_tokens x]
    rfl
  | x :: x' :: xs, _, ys, stack => by
    rw [Value.elements, List.append_assoc, State.run_append, run_tokens x, Option.bind_some]
    change (State.value (.arr (ys ++ [x]) :: stack)).run
      (Value.elements (x' :: xs) ++ [.endArray]) = _
    rw [run_elements (x' :: xs) (List.cons_ne_nil x' xs), List.append_assoc, List.singleton_append]

theorem run_members : ∀ (ms : List (Text × Value)), ms ≠ [] →
    ∀ (done : List (Text × Value)) (stack : List Frame),
    (State.key done stack).run (Value.members ms ++ [.endObject]) =
      some (.after (.obj (done ++ ms)) stack)
  | [], h, _, _ => absurd rfl h
  | [(k, v)], _, done, stack => by
    rw [Value.members]
    change (State.value (.obj done k :: stack)).run (v.tokens ++ [.endObject]) = _
    rw [State.run_append, run_tokens v]
    rfl
  | (k, v) :: m :: ms, _, done, stack => by
    rw [Value.members]
    change (State.value (.obj done k :: stack)).run
      (v.tokens ++ .comma :: Value.members (m :: ms) ++ [.endObject]) = _
    rw [List.append_assoc, State.run_append, run_tokens v, Option.bind_some]
    change (State.key (done ++ [(k, v)]) stack).run (Value.members (m :: ms) ++ [.endObject]) = _
    rw [run_members (m :: ms) (List.cons_ne_nil m ms), List.append_assoc, List.singleton_append]

end

theorem parse_tokens (v : Value) : parse v.tokens = some v := by
  rw [parse, run_tokens]
  rfl

end

/-! ## Splitting a text -/

/-- A character in a string, as it is written in a text. -/
def escapeUnit (c : UInt16) : Text := if c = quote ∨ c = backslash then [backslash, c] else [c]

/-- A string in a text. -/
def quoted (s : Text) : Text := quote :: s.flatMap escapeUnit ++ [quote]

section
variable {st st' : LexState} {c : UInt16} {s acc : Text} {t : Token} {ts : List Token}

theorem lexFrom_cons_of_step (h : st.step c = some (ts, st')) (s : Text) :
    lexFrom st (c :: s) = (lexFrom st' s).map (ts ++ ·) := by
  rw [lexFrom, h, Option.bind_some]

theorem lexFrom_cons_of_quiet (h : st.step c = some ([], st')) (s : Text) :
    lexFrom st (c :: s) = lexFrom st' s := by
  rw [lexFrom_cons_of_step h]
  exact Option.map_id_apply

/-- A part of a text that has the tokens, whatever comes after it. -/
def LexesTo (s : Text) (ts : List Token) : Prop :=
  ∀ rest, lexFrom .outside (s ++ rest) = (lexFrom .outside rest).map (ts ++ ·)

theorem LexesTo.nil : LexesTo [] [] := fun _ => Option.map_id_apply.symm

theorem LexesTo.append {s' : Text} {ts' : List Token} (h : LexesTo s ts) (h' : LexesTo s' ts') :
    LexesTo (s ++ s') (ts ++ ts') := by
  intro rest
  rw [List.append_assoc, h, h', Option.map_map]
  congr 1
  funext us
  exact (List.append_assoc ts ts' us).symm

theorem LexesTo.punctuation (h : start c = some ([t], .outside)) : LexesTo [c] [t] := by
  intro rest
  have hstep : LexState.outside.step c = some ([t], .outside) := h
  exact lexFrom_cons_of_step hstep rest

theorem LexesTo.space : LexesTo [32] [] := by
  intro rest
  have hstep : LexState.outside.step 32 = some ([], .outside) := rfl
  exact lexFrom_cons_of_step hstep rest

theorem LexesTo.lex (h : LexesTo s ts) : lex s = some ts := by
  have hrest := h []
  rw [List.append_nil] at hrest
  rw [Json.lex, hrest]
  change some (ts ++ []) = some ts
  rw [List.append_nil]

theorem lexFrom_escapeUnit (hc : 32 ≤ c) (acc rest : Text) :
    lexFrom (.string acc) (escapeUnit c ++ rest) = lexFrom (.string (acc ++ [c])) rest := by
  unfold escapeUnit
  split
  · rename_i hmark
    have hbackslash : (LexState.string acc).step backslash = some ([], .escape acc) := rfl
    have hescaped : (LexState.escape acc).step c = some ([], .string (acc ++ [c])) := by
      rcases hmark with rfl | rfl <;> rfl
    rw [List.cons_append, lexFrom_cons_of_quiet hbackslash, List.singleton_append,
      lexFrom_cons_of_quiet hescaped]
  · rename_i hmark
    rw [not_or] at hmark
    have hplain : (LexState.string acc).step c = some ([], .string (acc ++ [c])) := by
      rw [LexState.step, if_neg hmark.1, if_neg hmark.2, if_neg (UInt16.not_lt.mpr hc)]
    rw [List.singleton_append, lexFrom_cons_of_quiet hplain]

/-- A quoted string is one token. -/
theorem LexesTo.quoted (hs : ∀ c ∈ s, 32 ≤ c) : LexesTo (quoted s) [.str s] := by
  intro rest
  have hbody : ∀ acc, lexFrom (.string acc) (s.flatMap escapeUnit ++ quote :: rest) =
      (lexFrom .outside rest).map (.str (acc ++ s) :: ·) := by
    induction s with
    | nil =>
      intro acc
      have hend : (LexState.string acc).step quote = some ([.str acc], .outside) := rfl
      rw [List.flatMap_nil, List.nil_append, lexFrom_cons_of_step hend, List.append_nil]
      rfl
    | cons c s ih =>
      intro acc
      rw [List.forall_mem_cons] at hs
      rw [List.flatMap_cons, List.append_assoc, lexFrom_escapeUnit hs.1, ih hs.2,
        List.append_assoc, List.singleton_append]
  have hbegin : LexState.outside.step quote = some ([], .string []) := rfl
  rw [Json.quoted, List.append_assoc, List.cons_append, List.singleton_append,
    lexFrom_cons_of_quiet hbegin, hbody]
  rfl

/-! ## What strings are made of -/

/-- A text of which every backslash stands before a character of `E`, from the start on. -/
inductive Units (E : UInt16 → Prop) : Text → Prop where
  | nil : Units E []
  | char {c : UInt16} {s : Text} (hc : c ≠ backslash) (hs : Units E s) : Units E (c :: s)
  | escape {e : UInt16} {s : Text} (he : E e) (hs : Units E s) : Units E (backslash :: e :: s)

variable {E : UInt16 → Prop} {Q : UInt16 → Prop} {s' : Text}

theorem Units.append (h : Units E s) (h' : Units E s') : Units E (s ++ s') := by
  induction h with
  | nil => exact h'
  | char hc _ ih => exact .char hc ih
  | escape he _ ih => exact .escape he ih

theorem Units.flatMap {α : Type} {f : α → Text} {xs : List α} (h : ∀ x ∈ xs, Units E (f x)) :
    Units E (xs.flatMap f) := by
  induction xs with
  | nil => exact .nil
  | cons x xs ih =>
    rw [List.forall_mem_cons] at h
    rw [List.flatMap_cons]
    exact h.1.append (ih h.2)

theorem Units.tail (h : Units E (c :: s)) (hc : c ≠ backslash) : Units E s := by
  cases h with
  | char _ hs => exact hs
  | escape => exact absurd rfl hc

/-- What is left of the text is to be read in the state, and the string that is being read is made
of characters of `Q`. -/
def LexState.Aligned (E Q : UInt16 → Prop) : LexState → Text → Prop
  | string s, rest => (∀ c ∈ s, Q c) ∧ Units E rest
  | escape s, rest => (∀ c ∈ s, Q c) ∧ ∃ e rest', rest = e :: rest' ∧ E e ∧ Units E rest'
  | unicode .., _ => False
  | _, rest => Units E rest

/-- The strings among the tokens are made of characters of `Q`. -/
def StringsOf (Q : UInt16 → Prop) (ts : List Token) : Prop :=
  ∀ s, Token.str s ∈ ts → ∀ c ∈ s, Q c

theorem stringsOf_nil : StringsOf Q [] := fun _ h => absurd h List.not_mem_nil

theorem StringsOf.cons (h : ∀ s, t = .str s → ∀ c ∈ s, Q c) (hts : StringsOf Q ts) :
    StringsOf Q (t :: ts) := by
  intro s hs
  rcases List.mem_cons.mp hs with heq | hs
  · exact h s heq.symm
  · exact hts s hs

theorem StringsOf.cons_of_ne (h : ∀ s, t ≠ .str s) (hts : StringsOf Q ts) : StringsOf Q (t :: ts) :=
  hts.cons fun s he => absurd he (h s)

theorem punctuation?_ne_str (h : punctuation? c = some t) : ∀ s, t ≠ .str s := by
  rintro s rfl
  unfold punctuation? at h
  repeat' split at h
  all_goals cases h

theorem wordToken_ne_str (h : wordToken s = some t) : ∀ s, t ≠ .str s := by
  rintro s rfl
  unfold wordToken at h
  repeat' split at h
  all_goals cases h

theorem numberToken_ne_str (h : numberToken s = some t) : ∀ s, t ≠ .str s := by
  rintro s rfl
  unfold numberToken at h
  split at h <;> cases h

theorem start_spec (h : start c = some (ts, st)) (hs : Units E (c :: s)) :
    st.Aligned E Q s ∧ StringsOf Q ts := by
  have hc : c ≠ backslash := by
    rintro rfl
    cases h
  have hs := hs.tail hc
  unfold start at h
  split at h
  · cases h
    exact ⟨hs, stringsOf_nil⟩
  split at h
  · cases h
    exact ⟨⟨fun c hc => absurd hc List.not_mem_nil, hs⟩, stringsOf_nil⟩
  split at h
  · cases h
    exact ⟨hs, stringsOf_nil⟩
  split at h
  · cases h
    exact ⟨hs, stringsOf_nil⟩
  · obtain ⟨t, ht, heq⟩ := Option.map_eq_some_iff.mp h
    cases heq
    exact ⟨hs, stringsOf_nil.cons_of_ne (punctuation?_ne_str ht)⟩

/-- A token that ends where the next character starts something. -/
theorem endToken_spec {ended : Option Token} (hne : ∀ t, ended = some t → ∀ s, t ≠ .str s)
    (h : (ended.bind fun t => (start c).bind fun next => some (t :: next.1, next.2)) =
      some (ts, st))
    (hs : Units E (c :: s)) : st.Aligned E Q s ∧ StringsOf Q ts := by
  obtain ⟨t, ht, h⟩ := Option.bind_eq_some_iff.mp h
  obtain ⟨next, hstart, heq⟩ := Option.bind_eq_some_iff.mp h
  cases heq
  obtain ⟨haligned, hstrings⟩ := start_spec hstart hs
  exact ⟨haligned, hstrings.cons_of_ne (hne t ht)⟩

theorem LexState.string_aligned {acc : Text} (hQ : c ≠ quote → Q c)
    (h : (string acc).step c = some (ts, st')) (hst : (string acc).Aligned E Q (c :: s)) :
    st'.Aligned E Q s ∧ StringsOf Q ts := by
  obtain ⟨hacc, hunits⟩ := hst
  rw [LexState.step] at h
  split at h
  · rename_i hquote
    cases h
    refine ⟨Units.tail hunits (hquote ▸ by decide), stringsOf_nil.cons ?_⟩
    rintro s ⟨⟩
    exact hacc
  split at h
  · rename_i hbackslash
    subst hbackslash
    cases h
    refine ⟨⟨hacc, ?_⟩, stringsOf_nil⟩
    cases hunits with
    | char hc => exact absurd rfl hc
    | escape he hs => exact ⟨_, _, rfl, he, hs⟩
  split at h
  · cases h
  · rename_i hquote hbackslash _
    cases h
    have hnext : ∀ x ∈ acc ++ [c], Q x :=
      List.forall_mem_append.mpr ⟨hacc, List.forall_mem_singleton.mpr (hQ hquote)⟩
    exact ⟨⟨hnext, hunits.tail hbackslash⟩, stringsOf_nil⟩

theorem LexState.escape_aligned {acc : Text}
    (hE : ∀ e, E e → e ≠ 117 ∧ ∀ x, escaped? e = some x → Q x)
    (h : (escape acc).step c = some (ts, st')) (hst : (escape acc).Aligned E Q (c :: s)) :
    st'.Aligned E Q s ∧ StringsOf Q ts := by
  obtain ⟨hacc, e, rest, heq, he, hrest⟩ := hst
  obtain ⟨rfl, rfl⟩ := List.cons.inj heq
  obtain ⟨hu, hescaped⟩ := hE c he
  rw [LexState.step, if_neg hu] at h
  obtain ⟨x, hx, heq⟩ := Option.map_eq_some_iff.mp h
  cases heq
  have hnext : ∀ y ∈ acc ++ [x], Q y :=
    List.forall_mem_append.mpr ⟨hacc, List.forall_mem_singleton.mpr (hescaped x hx)⟩
  exact ⟨⟨hnext, hrest⟩, stringsOf_nil⟩

/-- A step, when the escapes are of characters that give characters of `Q`. -/
theorem LexState.step_aligned (hE : ∀ e, E e → e ≠ 117 ∧ ∀ x, escaped? e = some x → Q x)
    (hQ : c ≠ quote → Q c) (h : st.step c = some (ts, st')) (hst : st.Aligned E Q (c :: s)) :
    st'.Aligned E Q s ∧ StringsOf Q ts := by
  cases st with
  | outside => exact start_spec h hst
  | word w =>
    rw [LexState.step] at h
    split at h
    · rename_i hletter
      cases h
      have hc : c ≠ backslash := by
        rintro rfl
        cases hletter
      exact ⟨Units.tail hst hc, stringsOf_nil⟩
    · exact endToken_spec (fun _ => wordToken_ne_str) h hst
  | number w =>
    rw [LexState.step] at h
    split at h
    · rename_i hnumber
      cases h
      have hc : c ≠ backslash := by
        rintro rfl
        cases hnumber
      exact ⟨Units.tail hst hc, stringsOf_nil⟩
    · exact endToken_spec (fun _ => numberToken_ne_str) h hst
  | string acc => exact string_aligned hQ h hst
  | escape acc => exact escape_aligned hE h hst
  | unicode => exact absurd hst id

theorem StringsOf.append {ts' : List Token} (h : StringsOf Q ts) (h' : StringsOf Q ts') :
    StringsOf Q (ts ++ ts') := by
  intro s hs
  rcases List.mem_append.mp hs with hs | hs
  · exact h s hs
  · exact h' s hs

theorem stringsOf_lexFrom (hE : ∀ e, E e → e ≠ 117 ∧ ∀ x, escaped? e = some x → Q x)
    (hQ : ∀ c ∈ s, c ≠ quote → Q c) (hst : st.Aligned E Q s) (h : lexFrom st s = some ts) :
    StringsOf Q ts := by
  induction s generalizing st ts with
  | nil =>
    cases st with
    | outside =>
      cases h
      exact stringsOf_nil
    | word w =>
      obtain ⟨t, ht, rfl⟩ := Option.map_eq_some_iff.mp h
      exact stringsOf_nil.cons_of_ne (wordToken_ne_str ht)
    | number w =>
      obtain ⟨t, ht, rfl⟩ := Option.map_eq_some_iff.mp h
      exact stringsOf_nil.cons_of_ne (numberToken_ne_str ht)
    | _ => cases h
  | cons c s ih =>
    rw [List.forall_mem_cons] at hQ
    obtain ⟨⟨ts₁, st'⟩, hstep, h⟩ := Option.bind_eq_some_iff.mp h
    obtain ⟨ts₂, hrest, rfl⟩ := Option.map_eq_some_iff.mp h
    obtain ⟨haligned, hstrings⟩ := LexState.step_aligned hE hQ.1 hstep hst
    exact hstrings.append (ih hQ.2 haligned hrest)

end

/-! ## The strings of a value -/

/-- The strings of the value, and the names of members in it. -/
inductive Value.All (P : Text → Prop) : Value → Prop where
  | null : All P .null
  | bool (b : Bool) : All P (.bool b)
  | num (s : Text) : All P (.num s)
  | str {s : Text} (h : P s) : All P (.str s)
  | arr {xs : List Value} (h : ∀ x ∈ xs, All P x) : All P (.arr xs)
  | obj {ms : List (Text × Value)} (hkeys : ∀ m ∈ ms, P m.1) (h : ∀ m ∈ ms, All P m.2) :
    All P (.obj ms)

/-- The same for members. -/
def AllMembers (P : Text → Prop) (ms : List (Text × Value)) : Prop :=
  ∀ m ∈ ms, P m.1 ∧ m.2.All P

def Frame.All (P : Text → Prop) : Frame → Prop
  | arr xs => ∀ x ∈ xs, x.All P
  | obj ms key => P key ∧ AllMembers P ms

def State.All (P : Text → Prop) : State → Prop
  | value stack => ∀ f ∈ stack, f.All P
  | valueOrEnd stack => ∀ f ∈ stack, f.All P
  | keyOrEnd stack => ∀ f ∈ stack, f.All P
  | key ms stack => AllMembers P ms ∧ ∀ f ∈ stack, f.All P
  | colon ms k stack => (P k ∧ AllMembers P ms) ∧ ∀ f ∈ stack, f.All P
  | after v stack => v.All P ∧ ∀ f ∈ stack, f.All P

section
variable {P : Text → Prop} {v : Value} {ms : List (Text × Value)} {stack : List Frame}
  {st st' : State} {t : Token} {ts : List Token} {s key : Text}

theorem AllMembers.concat (h : AllMembers P ms) (hkey : P key) (hv : v.All P) :
    AllMembers P (ms ++ [(key, v)]) :=
  List.forall_mem_append.mpr ⟨h, List.forall_mem_singleton.mpr ⟨hkey, hv⟩⟩

theorem AllMembers.obj (h : AllMembers P ms) : (Value.obj ms).All P :=
  .obj (fun m hm => (h m hm).1) fun m hm => (h m hm).2

theorem Value.All.member {w : Value} (hv : v.All P) (h : v.member? key = some w) : w.All P := by
  cases hv with
  | obj hkeys hms =>
    obtain ⟨m, hm, rfl⟩ := Option.map_eq_some_iff.mp h
    exact hms m (List.mem_reverse.mp (List.mem_of_find?_eq_some hm))
  | _ => cases h

theorem startValue_all (ht : ∀ s, t = .str s → P s) (hstack : ∀ f ∈ stack, f.All P)
    (h : startValue stack t = some st) : st.All P := by
  cases t with
  | null => cases h; exact ⟨.null, hstack⟩
  | bool b => cases h; exact ⟨.bool b, hstack⟩
  | num s => cases h; exact ⟨.num s, hstack⟩
  | str s => cases h; exact ⟨.str (ht s rfl), hstack⟩
  | beginArray => cases h; exact hstack
  | beginObject => cases h; exact hstack
  | _ => cases h

/-- A value has been read inside of an array or an object. -/
theorem State.All.step_after {f : Frame} (hv : v.All P) (hf : f.All P)
    (hstack : ∀ f ∈ stack, f.All P) (h : (after v (f :: stack)).step t = some st') :
    st'.All P := by
  cases f with
  | arr xs =>
    have hxs : ∀ x ∈ xs ++ [v], x.All P :=
      List.forall_mem_append.mpr ⟨hf, List.forall_mem_singleton.mpr hv⟩
    cases t with
    | comma =>
      cases h
      exact List.forall_mem_cons.mpr ⟨hxs, hstack⟩
    | endArray =>
      cases h
      exact ⟨.arr hxs, hstack⟩
    | _ => cases h
  | obj ms k =>
    have hms : AllMembers P (ms ++ [(k, v)]) := hf.2.concat hf.1 hv
    cases t with
    | comma =>
      cases h
      exact ⟨hms, hstack⟩
    | endObject =>
      cases h
      exact ⟨hms.obj, hstack⟩
    | _ => cases h

theorem State.All.step (hst : st.All P) (ht : ∀ s, t = .str s → P s)
    (h : st.step t = some st') : st'.All P := by
  have hnil : ∀ x ∈ ([] : List Value), x.All P := fun x hx => absurd hx List.not_mem_nil
  have hnone : AllMembers P [] := fun m hm => absurd hm List.not_mem_nil
  cases st with
  | value stack => exact startValue_all ht hst h
  | valueOrEnd stack =>
    have hopen : ∀ f ∈ .arr [] :: stack, f.All P := List.forall_mem_cons.mpr ⟨hnil, hst⟩
    cases t with
    | endArray =>
      cases h
      exact ⟨.arr hnil, hst⟩
    | _ => exact startValue_all ht hopen h
  | keyOrEnd stack =>
    cases t with
    | endObject =>
      cases h
      exact ⟨hnone.obj, hst⟩
    | str k =>
      cases h
      exact ⟨⟨ht k rfl, hnone⟩, hst⟩
    | _ => cases h
  | key ms stack =>
    cases t with
    | str k =>
      cases h
      exact ⟨⟨ht k rfl, hst.1⟩, hst.2⟩
    | _ => cases h
  | colon ms k stack =>
    cases t with
    | colon =>
      cases h
      exact List.forall_mem_cons.mpr hst
    | _ => cases h
  | after v stack =>
    obtain ⟨hv, hstack⟩ := hst
    cases stack with
    | nil => cases t <;> cases h
    | cons f stack =>
      rw [List.forall_mem_cons] at hstack
      exact step_after hv hstack.1 hstack.2 h

theorem State.All.run (hst : st.All P) (hts : ∀ s, Token.str s ∈ ts → P s)
    (h : st.run ts = some st') : st'.All P := by
  induction ts generalizing st with
  | nil =>
    cases h
    exact hst
  | cons t ts ih =>
    obtain ⟨st₁, hstep, hrun⟩ := Option.bind_eq_some_iff.mp h
    have ht : ∀ s, t = .str s → P s := fun s he => hts s (he ▸ List.mem_cons_self)
    exact ih (hst.step ht hstep) (fun s hs => hts s (List.mem_cons_of_mem t hs)) hrun

/-- The strings of the value are among the tokens. -/
theorem all_of_parse (hts : ∀ s, Token.str s ∈ ts → P s) (h : parse ts = some v) : v.All P := by
  obtain ⟨st, hrun, hvalue⟩ := Option.bind_eq_some_iff.mp h
  have hstart : (State.value []).All P := fun f hf => absurd hf List.not_mem_nil
  have hst : st.All P := hstart.run hts hrun
  unfold State.value? at hvalue
  split at hvalue
  · cases hvalue
    exact hst.1
  · cases hvalue

/-- The strings of the value are made of characters of `Q`, if those of the text are apart from the
quotes, and what the escapes stand for. -/
theorem all_of_parseText {E Q : UInt16 → Prop}
    (hE : ∀ e, E e → e ≠ 117 ∧ ∀ x, escaped? e = some x → Q x)
    (hQ : ∀ c ∈ s, c ≠ quote → Q c) (hs : Units E s) (h : parseText s = some v) :
    v.All fun s => ∀ c ∈ s, Q c := by
  obtain ⟨ts, hlex, hparse⟩ := Option.bind_eq_some_iff.mp h
  have haligned : LexState.outside.Aligned E Q s := hs
  have hstrings : StringsOf Q ts := stringsOf_lexFrom hE hQ haligned hlex
  exact all_of_parse hstrings hparse

end

end Json
