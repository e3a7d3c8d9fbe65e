import PSM.Lib.ByteStr
import PSM.Lib.NestedReader

/-! The parser of Redis replies (`RedisParser`).

`parse` gets the bytes of one read from the connection, which may end anywhere, and goes on where
the last call has stopped: in the middle of a line, of a bulk string or of arrays in arrays. The
arrays that are not complete are on two stacks, the outermost at the top, and `parseArray` takes
them off again before it goes on with the innermost one.

`reader` is the same parser without the stacks of the calls, byte by byte, and `parse_eq_read` says
that they agree on every input. `long` has 32 bits. -/

namespace PSM
open ByteStr

/-- `RedisValue`. Only byte arrays can be errors. -/
inductive RedisValue where
  | null
  | int (i : Int)
  | string (buf : ByteStr) (error : Bool)
  | array (values : List RedisValue)

namespace RedisValue

def isOk : RedisValue → Bool
  | string _ error => !error
  | _ => true

def isNull : RedisValue → Bool
  | null => true
  | _ => false

def toInt : RedisValue → Int
  | int i => i
  | _ => 0

def toByteArray : RedisValue → ByteStr
  | string buf _ => buf
  | _ => []

def toArray : RedisValue → List RedisValue
  | array values => values
  | _ => []

end RedisValue

/-! ## The code -/

def isDigit (c : UInt8) : Bool := 48 ≤ c ∧ c ≤ 57

/-- `isChar(c) && !isControl(c)` for a signed `char`. -/
def isPrintable (c : UInt8) : Bool := 32 ≤ c ∧ c ≤ 126

def digitsValue (n : Nat) : ByteStr → Nat
  | [] => n
  | c :: s => if isDigit c then digitsValue (10 * n + (c.toNat - 48)) s else n

/-- `strtol` with base 10, for a text of digits and minus signs. -/
def strtol (s : ByteStr) : Int :=
  let value : Int := match s with
    | [] => 0
    | c :: s' => if c = 45 then -digitsValue 0 s' else digitsValue 0 s
  max (-2 ^ 31) (min value (2 ^ 31 - 1))

inductive ParseResult where
  | completed
  | incompleted
  | error
  deriving DecidableEq

inductive ParserState where
  | start
  | string
  | stringLF
  | errorString
  | errorLF
  | integer
  | integerLF
  | bulkSize
  | bulkSizeLF
  | bulk
  | bulkCR
  | bulkLF
  | arraySize
  | arraySizeLF
  deriving DecidableEq

/-- The tops of the stacks are the heads of the lists. -/
structure RedisParser where
  state : ParserState
  bulkSize : Int
  buf : ByteStr
  arrayStack : List Int
  valueStack : List RedisValue

namespace RedisParser

def init : RedisParser := ⟨.start, 0, [], [], []⟩

/-- What the loop of `parseChunk` does after a character: it goes on at an index, returns, or
returns what `parseArray` makes of the bytes from an index on. -/
inductive Next where
  | next (p : RedisParser) (i : Nat)
  | ret (p : RedisParser) (first : Nat) (second : ParseResult)
  | array (p : RedisParser) (i : Nat)

def fail (p : RedisParser) (i : Nat) : Next := .ret { p with state := .start } (i + 1) .error

def complete (p : RedisParser) (i : Nat) (value : RedisValue) : Next :=
  .ret { p with state := .start, valueStack := value :: p.valueStack } (i + 1) .completed

/-- The states `String` and `ErrorString`. -/
def parseText (p : RedisParser) (lf : ParserState) (i : Nat) (c : UInt8) : Next :=
  if c = 13 then .next { p with state := lf } (i + 1)
  else if isPrintable c then .next { p with buf := p.buf ++ [c] } (i + 1)
  else p.fail i

/-- The states `BulkSize`, `ArraySize` and `Integer`. -/
def parseNumber (p : RedisParser) (lf : ParserState) (i : Nat) (c : UInt8) : Next :=
  if c = 13 then
    if p.buf = [] then p.fail i else .next { p with state := lf } (i + 1)
  else if isDigit c ∨ c = 45 then .next { p with buf := p.buf ++ [c] } (i + 1)
  else p.fail i

/-- The `switch` of `parseChunk`, at the character `c` with the index `i`. -/
def parseChar (p : RedisParser) (ptr : ByteStr) (i : Nat) (c : UInt8) : Next :=
  match p.state with
  | .start =>
    let p := { p with buf := [] }
    if c = 43 then .next { p with state := .string } (i + 1)
    else if c = 45 then .next { p with state := .errorString } (i + 1)
    else if c = 58 then .next { p with state := .integer } (i + 1)
    else if c = 36 then .next { p with state := .bulkSize, bulkSize := 0 } (i + 1)
    else if c = 42 then .next { p with state := .arraySize } (i + 1)
    else p.fail i
  | .string => p.parseText .stringLF i c
  | .errorString => p.parseText .errorLF i c
  | .bulkSize => p.parseNumber .bulkSizeLF i c
  | .stringLF => if c = 10 then p.complete i (.string p.buf false) else p.fail i
  | .errorLF => if c = 10 then p.complete i (.string p.buf true) else p.fail i
  | .bulkSizeLF =>
    if c = 10 then
      let bulkSize := strtol p.buf
      let p := { p with bulkSize := bulkSize, buf := [] }
      if bulkSize = -1 then p.complete i .null
      else if bulkSize = 0 then .next { p with state := .bulkCR } (i + 1)
      else if bulkSize < 0 then p.fail i
      else
        let available : Int := ptr.length - i - 1
        let canRead := min bulkSize available
        let p := if canRead > 0 then
          { p with buf := (ptr.drop (i + 1)).take canRead.toNat } else p
        let i := i + canRead.toNat
        if bulkSize > available then
          .ret { p with bulkSize := bulkSize - canRead, state := .bulk } (i + 1) .incompleted
        else .next { p with state := .bulkCR } (i + 1)
    else p.fail i
  | .bulk =>
    let available : Int := ptr.length - i
    let canRead := min available p.bulkSize
    -- The end of what is inserted is not counted from `i`.
    let p := { p with
      buf := p.buf ++ (ptr.take canRead.toNat).drop i
      bulkSize := p.bulkSize - canRead }
    let i := i + canRead.toNat - 1
    if p.bulkSize > 0 then .ret p (i + 1) .incompleted
    else
      let p := { p with state := .bulkCR }
      if ptr.length = i + 1 then .ret p (i + 1) .incompleted else .next p (i + 1)
  | .bulkCR => if c = 13 then .next { p with state := .bulkLF } (i + 1) else p.fail i
  | .bulkLF => if c = 10 then p.complete i (.string p.buf false) else p.fail i
  | .arraySize => p.parseNumber .arraySizeLF i c
  | .arraySizeLF =>
    if c = 10 then
      let arraySize := strtol p.buf
      let p := { p with buf := [] }
      if arraySize = -1 ∨ arraySize = 0 then p.complete i (.array [])
      else if arraySize < 0 then p.fail i
      else
        let p := { p with
          arrayStack := arraySize :: p.arrayStack
          valueStack := .array [] :: p.valueStack
          state := .start }
        if i + 1 ≠ ptr.length then .array p (i + 1) else .ret p (i + 1) .incompleted
    else p.fail i
  | .integer => p.parseNumber .integerLF i c
  | .integerLF =>
    if c = 10 then
      let value := strtol p.buf
      let p := { p with buf := [] }
      p.complete i (.int value)
    else p.fail i

mutual

/-- The functions call each other, so there is a bound on the number of calls. There is no result
either when the top of an empty stack is read. -/
def parseWithin : Nat → RedisParser → ByteStr → Option ((Nat × ParseResult) × RedisParser)
  | 0, _, _ => none
  | fuel + 1, p, ptr =>
    if p.arrayStack ≠ [] then parseArray fuel p ptr else parseChunk fuel p ptr 0

def parseArray : Nat → RedisParser → ByteStr → Option ((Nat × ParseResult) × RedisParser)
  | 0, _, _ => none
  | fuel + 1, p, ptr =>
    match p.arrayStack, p.valueStack with
    | arraySize :: arrayStack, value :: valueStack =>
      let arrayValue := value.toArray
      let p := { p with arrayStack := arrayStack, valueStack := valueStack }
      if arrayStack ≠ [] then do
        let (pair, p) ← parseArray fuel p ptr
        if pair.2 ≠ .completed then
          some (pair, { p with
            valueStack := .array arrayValue :: p.valueStack
            arrayStack := arraySize :: p.arrayStack })
        else
          match p.valueStack with
          | value :: valueStack =>
            parseElements fuel { p with valueStack := valueStack } ptr pair.1 (arraySize - 1)
              (arrayValue ++ [value])
          | [] => none
      else parseElements fuel p ptr 0 arraySize arrayValue
    | _, _ => none

/-- `parseArray` after the inner array. -/
def parseElements : Nat → RedisParser → ByteStr → Nat → Int → List RedisValue →
    Option ((Nat × ParseResult) × RedisParser)
  | 0, _, _, _, _, _ => none
  | fuel + 1, p, ptr, i, arraySize, arrayValue =>
    if i = ptr.length then
      let p := { p with valueStack := .array arrayValue :: p.valueStack }
      if arraySize = 0 then some ((i, .completed), p)
      else some ((i, .incompleted), { p with arrayStack := arraySize :: p.arrayStack })
    else parseLoop fuel p ptr i arraySize 0 arrayValue

/-- The loop of `parseArray`. -/
def parseLoop : Nat → RedisParser → ByteStr → Nat → Int → Int → List RedisValue →
    Option ((Nat × ParseResult) × RedisParser)
  | 0, _, _, _, _, _, _ => none
  | fuel + 1, p, ptr, i, arraySize, x, arrayValue =>
    if x < arraySize then do
      let ((first, second), p) ← parseWithin fuel p (ptr.drop i)
      let i := i + first
      match second with
      | .error => some ((i, .error), p)
      | .incompleted =>
        some ((i, .incompleted), { p with
          valueStack := .array arrayValue :: p.valueStack
          arrayStack := (arraySize - x) :: p.arrayStack })
      | .completed =>
        match p.valueStack with
        | value :: valueStack =>
          parseLoop fuel { p with valueStack := valueStack } ptr i arraySize (x + 1)
            (arrayValue ++ [value])
        | [] => none
    else some ((i, .completed), { p with valueStack := .array arrayValue :: p.valueStack })

/-- The loop of `parseChunk` from the index `i` on. -/
def parseChunk : Nat → RedisParser → ByteStr → Nat → Option ((Nat × ParseResult) × RedisParser)
  | 0, _, _, _ => none
  | fuel + 1, p, ptr, i =>
    match ptr[i]? with
    | none => some ((i, .incompleted), p)
    | some c =>
      match p.parseChar ptr i c with
      | .next p i => parseChunk fuel p ptr i
      | .ret p first second => some ((first, second), p)
      | .array p i => do
        let ((first, second), p) ← parseArray fuel p (ptr.drop i)
        some ((first + i, second), p)

end

def parse (p : RedisParser) (ptr : ByteStr) : Option ((Nat × ParseResult) × RedisParser) :=
  parseWithin (5 * ptr.length + 4 * p.arrayStack.length + 2) p ptr

def result (p : RedisParser) : RedisValue × RedisParser :=
  match p.valueStack with
  | value :: valueStack => (value, { p with valueStack := valueStack })
  | [] => (.null, p)

/-! ## Byte by byte -/

/-- The kinds of lines that begin a reply. -/
inductive Line where
  | string
  | error
  | integer
  | bulkSize
  | arraySize

def Line.isNumber : Line → Bool
  | string => false
  | error => false
  | _ => true

def Line.allows (k : Line) (c : UInt8) : Bool :=
  if k.isNumber then isDigit c ∨ c = 45 else isPrintable c

def line? (c : UInt8) : Option Line :=
  if c = 43 then some .string
  else if c = 45 then some .error
  else if c = 58 then some .integer
  else if c = 36 then some .bulkSize
  else if c = 42 then some .arraySize
  else none

/-- Where the parser is in a reply that is no array. -/
inductive Scan where
  | start
  | line (k : Line) (buf : ByteStr)
  | lineLF (k : Line) (buf : ByteStr)
  /-- One byte is missing, and so many after it. -/
  | bulk (after : Nat) (buf : ByteStr)
  | bulkCR (buf : ByteStr)
  | bulkLF (buf : ByteStr)

/-- A size that has been announced: there is nothing, nothing in it, or so many after the first. -/
def announced (size : Int) (null empty : Scanned Scan RedisValue)
    (begins : Nat → Scanned Scan RedisValue) : Scanned Scan RedisValue :=
  if size = -1 then null
  else if size = 0 then empty
  else if size < 0 then .error
  else begins (size - 1).toNat

/-- What a line means, once it is complete. -/
def Line.ends (buf : ByteStr) : Line → Scanned Scan RedisValue
  | string => .value (.string buf false)
  | error => .value (.string buf true)
  | integer => .value (.int (strtol buf))
  | bulkSize =>
    announced (strtol buf) (.value .null) (.more (.bulkCR [])) fun after => .more (.bulk after [])
  | arraySize => announced (strtol buf) (.value (.array [])) (.value (.array [])) .list

def Scan.scan (c : UInt8) : Scan → Scanned Scan RedisValue
  | start => (line? c).elim .error fun k => .more (.line k [])
  | line k buf =>
    if c = 13 then if k.isNumber ∧ buf = [] then .error else .more (.lineLF k buf)
    else if k.allows c then .more (.line k (buf ++ [c]))
    else .error
  | lineLF k buf => if c = 10 then k.ends buf else .error
  | bulk 0 buf => .more (.bulkCR (buf ++ [c]))
  | bulk (after + 1) buf => .more (.bulk after (buf ++ [c]))
  | bulkCR buf => if c = 13 then .more (.bulkLF buf) else .error
  | bulkLF buf => if c = 10 then .value (.string buf false) else .error

def reader : NestedReader UInt8 Scan RedisValue := ⟨.start, fun s c => s.scan c, .array⟩

/-- Where the parser is, apart from the arrays. -/
def scan (p : RedisParser) : Scan :=
  match p.state with
  | .start => .start
  | .string => .line .string p.buf
  | .stringLF => .lineLF .string p.buf
  | .errorString => .line .error p.buf
  | .errorLF => .lineLF .error p.buf
  | .integer => .line .integer p.buf
  | .integerLF => .lineLF .integer p.buf
  | .bulkSize => .line .bulkSize p.buf
  | .bulkSizeLF => .lineLF .bulkSize p.buf
  | .bulk => .bulk (p.bulkSize - 1).toNat p.buf
  | .bulkCR => .bulkCR p.buf
  | .bulkLF => .bulkLF p.buf
  | .arraySize => .line .arraySize p.buf
  | .arraySizeLF => .lineLF .arraySize p.buf

abbrev ArrayFrame := NestedReader.Frame RedisValue

/-- The parser is at `s`, in the arrays of `outer`, of which the outermost is the first. -/
structure Represents (p : RedisParser) (s : Scan) (outer : List ArrayFrame) : Prop where
  scan : p.scan = s
  bulkSize_pos : p.state = .bulk → 0 < p.bulkSize
  arrayStack : p.arrayStack = outer.map fun f => (f.after + 1 : Int)
  valueStack : p.valueStack = outer.map fun f => .array f.values

/-- What `parse` returns is what is read. A value that has been read is alone on its stack. -/
inductive Parses (ptr : ByteStr) :
    NestedReader.Outcome Scan RedisValue × ByteStr → (Nat × ParseResult) × RedisParser → Prop where
  | completed {p : RedisParser} {v : RedisValue} {first : Nat}
    (hp : Represents { p with valueStack := [] } .start []) (hvalue : p.valueStack = [v])
    (hle : first ≤ ptr.length) :
    Parses ptr (.done v, ptr.drop first) ((first, .completed), p)
  | incompleted {p : RedisParser} {s : Scan} {outer : List ArrayFrame} (hp : p.Represents s outer) :
    Parses ptr (.more s outer.reverse, []) ((ptr.length, .incompleted), p)
  | error {p : RedisParser} {first : Nat} (hle : first ≤ ptr.length) :
    Parses ptr (.error, ptr.drop first) ((first, .error), p)

/-- What the loop of `parseChunk` does next is what is read from `i` on, outside of arrays. -/
inductive Reads (ptr : ByteStr) (i : Nat) :
    NestedReader.Outcome Scan RedisValue × ByteStr → Next → Prop where
  | next {p : RedisParser} {s : Scan} {j : Nat} (hp : p.Represents s []) (hstate : p.state ≠ .bulk)
    (hlt : i < j) (hle : j ≤ ptr.length) :
    Reads ptr i (reader.read s [] (ptr.drop j)) (.next p j)
  | ret {o : NestedReader.Outcome Scan RedisValue × ByteStr} {p : RedisParser} {first : Nat}
    {second : ParseResult} (h : Parses ptr o ((first, second), p)) :
    Reads ptr i o (.ret p first second)
  | array {p : RedisParser} {f : ArrayFrame} {j : Nat} (hp : p.Represents .start [f]) (hlt : i < j)
    (hle : j ≤ ptr.length) :
    Reads ptr i (reader.read .start [f] (ptr.drop j)) (.array p j)

/-! ## One character -/

section
variable {ptr : ByteStr} {i : Nat} {c : UInt8} {s s' : Scan} {v : RedisValue} {p p' : RedisParser}

theorem represents_nil (harray : p.arrayStack = []) (hvalue : p.valueStack = [])
    (hstate : p.state ≠ .bulk) : p.Represents p.scan [] :=
  ⟨rfl, fun h => absurd h hstate, harray, hvalue⟩

theorem read_cons {xs : ByteStr} : reader.read s [] (c :: xs) =
    reader.resume (reader.outcome [] (s.scan c)) xs :=
  NestedReader.read_cons

theorem read_char (hc : ptr.drop i = c :: ptr.drop (i + 1)) : reader.read s [] (ptr.drop i) =
    reader.resume (reader.outcome [] (s.scan c)) (ptr.drop (i + 1)) := by
  rw [hc, read_cons]

theorem read_more (hc : ptr.drop i = c :: ptr.drop (i + 1)) (h : s.scan c = .more s') :
    reader.read s [] (ptr.drop i) = reader.read s' [] (ptr.drop (i + 1)) := by
  rw [read_char hc, h]
  rfl

theorem read_value (hc : ptr.drop i = c :: ptr.drop (i + 1)) (h : s.scan c = .value v) :
    reader.read s [] (ptr.drop i) = (.done v, ptr.drop (i + 1)) := by
  rw [read_char hc, h]
  rfl

theorem read_list {after : Nat} (hc : ptr.drop i = c :: ptr.drop (i + 1))
    (h : s.scan c = .list after) : reader.read s [] (ptr.drop i) =
      reader.read .start [⟨after, []⟩] (ptr.drop (i + 1)) := by
  rw [read_char hc, h]
  rfl

theorem read_error (hc : ptr.drop i = c :: ptr.drop (i + 1)) (h : s.scan c = .error) :
    reader.read s [] (ptr.drop i) = (.error, ptr.drop (i + 1)) := by
  rw [read_char hc, h]
  rfl

theorem reads_incompleted (hp : p.Represents s []) :
    Reads ptr i (.more s [], []) (.ret p ptr.length .incompleted) :=
  .ret (.incompleted hp)

theorem reads_of_next {o : NestedReader.Outcome Scan RedisValue × ByteStr} {j : Nat}
    (harray : p.arrayStack = []) (hvalue : p.valueStack = []) (hstate : p.state ≠ .bulk)
    (hlt : i < j) (hle : j ≤ ptr.length) (ho : o = reader.read p.scan [] (ptr.drop j)) :
    Reads ptr i o (.next p j) :=
  ho ▸ .next (represents_nil harray hvalue hstate) hstate hlt hle

variable (hi : i < ptr.length) (hc : ptr.drop i = c :: ptr.drop (i + 1))
include hi hc

theorem reads_next (h : s.scan c = .more p'.scan) (harray : p'.arrayStack = [])
    (hvalue : p'.valueStack = []) (hstate : p'.state ≠ .bulk) :
    Reads ptr i (reader.read s [] (ptr.drop i)) (.next p' (i + 1)) :=
  reads_of_next harray hvalue hstate (Nat.lt_succ_self i) hi (read_more hc h)

theorem reads_complete (h : s.scan c = .value v) (harray : p.arrayStack = [])
    (hvalue : p.valueStack = []) :
    Reads ptr i (reader.read s [] (ptr.drop i)) (p.complete i v) := by
  rw [read_value hc h]
  exact .ret (.completed (represents_nil harray rfl (by simp)) (congrArg (v :: ·) hvalue) hi)

theorem reads_fail (h : s.scan c = .error) :
    Reads ptr i (reader.read s [] (ptr.drop i)) (p.fail i) := by
  rw [read_error hc h]
  exact .ret (.error hi)

theorem reads_parseText {state lf : ParserState} {k : Line} {bulkSize : Int} {buf : ByteStr}
    (hk : k.isNumber = false) (hstate : state ≠ .bulk) (hlf : lf ≠ .bulk)
    (hline : ∀ buf, scan ⟨state, bulkSize, buf, [], []⟩ = .line k buf)
    (hlineLF : ∀ buf, scan ⟨lf, bulkSize, buf, [], []⟩ = .lineLF k buf) :
    Reads ptr i (reader.read (scan ⟨state, bulkSize, buf, [], []⟩) [] (ptr.drop i))
      (parseText ⟨state, bulkSize, buf, [], []⟩ lf i c) := by
  rw [hline, parseText]
  split
  · next h13 =>
    refine reads_next hi hc ?_ rfl rfl hlf
    simp [Scan.scan, h13, hk, hlineLF]
  · next h13 =>
    split
    · next hprint =>
      refine reads_next hi hc ?_ rfl rfl hstate
      simp [Scan.scan, h13, Line.allows, hk, hprint, hline]
    · next hprint =>
      refine reads_fail hi hc ?_
      simp [Scan.scan, h13, Line.allows, hk, hprint]

theorem reads_parseNumber {state lf : ParserState} {k : Line} {bulkSize : Int} {buf : ByteStr}
    (hk : k.isNumber = true) (hstate : state ≠ .bulk) (hlf : lf ≠ .bulk)
    (hline : ∀ buf, scan ⟨state, bulkSize, buf, [], []⟩ = .line k buf)
    (hlineLF : ∀ buf, scan ⟨lf, bulkSize, buf, [], []⟩ = .lineLF k buf) :
    Reads ptr i (reader.read (scan ⟨state, bulkSize, buf, [], []⟩) [] (ptr.drop i))
      (parseNumber ⟨state, bulkSize, buf, [], []⟩ lf i c) := by
  rw [hline, parseNumber]
  split
  · next h13 =>
    split
    · next hbuf =>
      refine reads_fail hi hc ?_
      simp only [] at hbuf
      simp [Scan.scan, h13, hk, hbuf]
    · next hbuf =>
      refine reads_next hi hc ?_ rfl rfl hlf
      simp only [] at hbuf
      simp [Scan.scan, h13, hk, hlineLF, hbuf]
  · next h13 =>
    split
    · next hdigit =>
      refine reads_next hi hc ?_ rfl rfl hstate
      simp [Scan.scan, h13, Line.allows, hk, hdigit, hline]
    · next hdigit =>
      refine reads_fail hi hc ?_
      simp [Scan.scan, h13, Line.allows, hk, hdigit]

end

/-! ## Bulk strings -/

section
variable {ptr xs buf : ByteStr} {i after : Nat} {c : UInt8}

theorem read_bulk_le (h : xs.length ≤ after) : reader.read (.bulk after buf) [] xs =
    (.more (.bulk (after - xs.length) (buf ++ xs)) [], []) := by
  induction xs generalizing after buf with
  | nil => simp
  | cons c xs ih =>
    cases after with
    | zero => cases h
    | succ after =>
      rw [NestedReader.read_cons]
      refine (ih (Nat.le_of_succ_le_succ h)).trans ?_
      rw [List.length_cons, Nat.add_sub_add_right, List.append_assoc, List.singleton_append]

theorem read_bulk_lt (h : after < xs.length) : reader.read (.bulk after buf) [] xs =
    reader.read (.bulkCR (buf ++ xs.take (after + 1))) [] (xs.drop (after + 1)) := by
  induction xs generalizing after buf with
  | nil => cases h
  | cons c xs ih =>
    rw [NestedReader.read_cons]
    cases after with
    | zero => rfl
    | succ after =>
      refine (ih (Nat.lt_of_succ_lt_succ h)).trans ?_
      rw [List.take_succ_cons, List.drop_succ_cons, List.append_assoc, List.singleton_append]

variable (hi : i < ptr.length) (hc : ptr.drop i = c :: ptr.drop (i + 1))
include hi hc

theorem reads_bulkSizeLF {bulkSize : Int} : Reads ptr i
    (reader.read (scan ⟨.bulkSizeLF, bulkSize, buf, [], []⟩) [] (ptr.drop i))
    (parseChar ⟨.bulkSizeLF, bulkSize, buf, [], []⟩ ptr i c) := by
  have hscan : scan ⟨.bulkSizeLF, bulkSize, buf, [], []⟩ = .lineLF .bulkSize buf := rfl
  simp only [hscan, parseChar]
  split
  swap
  · next h10 => exact reads_fail hi hc (if_neg h10)
  next h10 =>
  have hends : Scan.scan c (.lineLF .bulkSize buf) = Line.bulkSize.ends buf := if_pos h10
  rw [Line.ends, announced] at hends
  split
  · next hnull => exact reads_complete hi hc (hends.trans (if_pos hnull)) rfl rfl
  next hnull =>
  rw [if_neg hnull] at hends
  split
  · next hzero => exact reads_next hi hc (hends.trans (if_pos hzero)) rfl rfl (by simp)
  next hzero =>
  rw [if_neg hzero] at hends
  split
  · next hneg => exact reads_fail hi hc (hends.trans (if_pos hneg))
  next hneg =>
  rw [read_more hc (hends.trans (if_neg hneg))]
  generalize strtol buf = size at *
  have hlen : (ptr.drop (i + 1)).length = ptr.length - i - 1 := by
    rw [List.length_drop, Nat.sub_add_eq]
  have hbuf : ∀ n : Int, (if n > 0 then
      (⟨.bulkSizeLF, size, (ptr.drop (i + 1)).take n.toNat, [], []⟩ : RedisParser)
      else ⟨.bulkSizeLF, size, [], [], []⟩) =
        ⟨.bulkSizeLF, size, (ptr.drop (i + 1)).take n.toNat, [], []⟩ := by
    intro n
    split
    · rfl
    · next hn => rw [Int.toNat_of_nonpos (by omega), List.take_zero]
  simp only [hbuf]
  split
  · next hlt =>
    -- All the bytes that are there belong to the string.
    have hcan : (min size (ptr.length - i - 1 : Int)).toNat = ptr.length - i - 1 := by omega
    rw [read_bulk_le (by omega), List.nil_append, hcan,
      show i + (ptr.length - i - 1) + 1 = ptr.length by omega]
    refine reads_incompleted ⟨?_, fun _ => ?_, rfl, rfl⟩
    · rw [scan, hlen, List.take_of_length_le (Nat.le_of_eq hlen)]
      simp only []
      congr 1
      omega
    · simp only []
      omega
  · next hlt =>
    have hcan : (min size (ptr.length - i - 1 : Int)).toNat = (size - 1).toNat + 1 := by omega
    rw [read_bulk_lt (by omega), List.nil_append, hcan, List.drop_drop, Nat.add_right_comm]
    exact reads_of_next rfl rfl (by simp) (by omega) (by omega) rfl

omit hi hc in
theorem reads_bulk {bulkSize : Int} (hpos : 0 < bulkSize) (hptr : ptr ≠ []) : Reads ptr 0
    (reader.read (scan ⟨.bulk, bulkSize, buf, [], []⟩) [] ptr)
    (parseChar ⟨.bulk, bulkSize, buf, [], []⟩ ptr 0 c) := by
  have hlen := List.length_pos_iff.mpr hptr
  have hscan : scan ⟨.bulk, bulkSize, buf, [], []⟩ = .bulk (bulkSize - 1).toNat buf := rfl
  simp only [hscan, parseChar, List.drop_zero, Nat.zero_add, Int.ofNat_zero, Int.sub_zero]
  split
  · next hlt =>
    -- All the bytes that are there belong to the string.
    have hcan : (min (ptr.length : Int) bulkSize).toNat = ptr.length := by omega
    rw [read_bulk_le (by omega), hcan, List.take_length, Nat.sub_add_cancel hlen]
    refine reads_incompleted ⟨?_, fun _ => hlt, rfl, rfl⟩
    rw [scan]
    simp only []
    congr 1
    omega
  · next hlt =>
    have hcan : (min (ptr.length : Int) bulkSize).toNat = (bulkSize - 1).toNat + 1 := by omega
    rw [read_bulk_lt (by omega), hcan, Nat.add_sub_cancel]
    split
    · next hend =>
      rw [← hend, List.drop_length, NestedReader.read_nil]
      exact reads_incompleted (represents_nil rfl rfl (by simp))
    · next hend =>
      exact reads_of_next rfl rfl (by simp) (by omega) (by omega) rfl

end

/-! ## The loop of `parseChunk` -/

section
variable {ptr buf : ByteStr} {i : Nat} {c : UInt8}

theorem reads_arraySizeLF (hi : i < ptr.length) (hc : ptr.drop i = c :: ptr.drop (i + 1))
    {bulkSize : Int} : Reads ptr i
      (reader.read (scan ⟨.arraySizeLF, bulkSize, buf, [], []⟩) [] (ptr.drop i))
      (parseChar ⟨.arraySizeLF, bulkSize, buf, [], []⟩ ptr i c) := by
  have hscan : scan ⟨.arraySizeLF, bulkSize, buf, [], []⟩ = .lineLF .arraySize buf := rfl
  simp only [hscan, parseChar]
  split
  swap
  · next h10 => exact reads_fail hi hc (if_neg h10)
  next h10 =>
  have hends : Scan.scan c (.lineLF .arraySize buf) = Line.arraySize.ends buf := if_pos h10
  rw [Line.ends, announced, ← ite_or] at hends
  split
  · next hnull => exact reads_complete hi hc (hends.trans (if_pos hnull)) rfl rfl
  next hnull =>
  rw [if_neg hnull] at hends
  split
  · next hneg => exact reads_fail hi hc (hends.trans (if_pos hneg))
  next hneg =>
  rw [read_list hc (hends.trans (if_neg hneg))]
  have hp : Represents ⟨.start, bulkSize, [], [strtol buf], [.array []]⟩ .start
      [⟨(strtol buf - 1).toNat, []⟩] := by
    refine ⟨rfl, (nomatch ·), ?_, rfl⟩
    simp only [List.map_cons, List.map_nil, List.cons.injEq, and_true]
    omega
  split
  · next hend => exact .array hp (Nat.lt_succ_self i) hi
  · next hend =>
    rw [Decidable.not_not.mp hend, List.drop_length, NestedReader.read_nil]
    exact .ret (.incompleted hp)

theorem parseChar_reads {p : RedisParser} {s : Scan} (hp : p.Represents s [])
    (hbulk : p.state = .bulk → i = 0) (hi : ptr[i]? = some c) :
    Reads ptr i (reader.read s [] (ptr.drop i)) (p.parseChar ptr i c) := by
  obtain ⟨hlt, rfl⟩ := List.getElem?_eq_some_iff.mp hi
  have hc := List.drop_eq_getElem_cons hlt
  obtain ⟨state, bulkSize, buf, arrayStack, valueStack⟩ := p
  obtain ⟨rfl, hpos, rfl, rfl⟩ := hp
  cases state with
  | start =>
    have hline : ∀ {k : Line}, line? ptr[i] = some k →
        Scan.scan ptr[i] .start = .more (.line k []) :=
      fun h => by simp only [Scan.scan, h, Option.elim]
    simp only [parseChar]
    split
    · next h => exact reads_next hlt hc (hline (by rw [h]; rfl)) rfl rfl (by simp)
    split
    · next h => exact reads_next hlt hc (hline (by rw [h]; rfl)) rfl rfl (by simp)
    split
    · next h => exact reads_next hlt hc (hline (by rw [h]; rfl)) rfl rfl (by simp)
    split
    · next h => exact reads_next hlt hc (hline (by rw [h]; rfl)) rfl rfl (by simp)
    split
    · next h => exact reads_next hlt hc (hline (by rw [h]; rfl)) rfl rfl (by simp)
    · refine reads_fail hlt hc ?_
      have hnone : line? ptr[i] = none := by simp only [line?, *, if_false]
      change (line? ptr[i]).elim _ _ = _
      rw [hnone]
      rfl
  | string => exact reads_parseText hlt hc rfl (by simp) (by simp) (fun _ => rfl) fun _ => rfl
  | errorString => exact reads_parseText hlt hc rfl (by simp) (by simp) (fun _ => rfl) fun _ => rfl
  | integer => exact reads_parseNumber hlt hc rfl (by simp) (by simp) (fun _ => rfl) fun _ => rfl
  | bulkSize => exact reads_parseNumber hlt hc rfl (by simp) (by simp) (fun _ => rfl) fun _ => rfl
  | arraySize => exact reads_parseNumber hlt hc rfl (by simp) (by simp) (fun _ => rfl) fun _ => rfl
  | bulkSizeLF => exact reads_bulkSizeLF hlt hc
  | arraySizeLF => exact reads_arraySizeLF hlt hc
  | bulk =>
    obtain rfl := hbulk rfl
    exact reads_bulk (hpos rfl) (List.ne_nil_of_length_pos hlt)
  | bulkCR =>
    simp only [parseChar]
    split
    · next h => exact reads_next hlt hc (if_pos h) rfl rfl (by simp)
    · next h => exact reads_fail hlt hc (if_neg h)
  | bulkLF =>
    simp only [parseChar]
    split
    · next h => exact reads_complete hlt hc (if_pos h) rfl rfl
    · next h => exact reads_fail hlt hc (if_neg h)
  | stringLF =>
    simp only [parseChar]
    split
    · next h => exact reads_complete hlt hc (if_pos h) rfl rfl
    · next h => exact reads_fail hlt hc (if_neg h)
  | errorLF =>
    simp only [parseChar]
    split
    · next h => exact reads_complete hlt hc (if_pos h) rfl rfl
    · next h => exact reads_fail hlt hc (if_neg h)
  | integerLF =>
    simp only [parseChar]
    split
    · next h => exact reads_complete hlt hc (if_pos h) rfl rfl
    · next h => exact reads_fail hlt hc (if_neg h)

end

/-! ## The calls -/

/-- What is read when `missing` values of a list are missing. -/
def pending (s : Scan) (values : List RedisValue) : Nat → NestedReader.Outcome Scan RedisValue
  | 0 => .done (.array values)
  | after + 1 => .more s [⟨after, values⟩]

theorem give_eq_pending (v : RedisValue) (f : ArrayFrame) :
    reader.give v [f] = pending .start (f.values ++ [v]) f.after := by
  obtain ⟨after, values⟩ := f
  cases after <;> rfl

section
variable {ptr : ByteStr} {p : RedisParser} {s : Scan}
  {o : NestedReader.Outcome Scan RedisValue × ByteStr}

theorem Represents.pop {f : ArrayFrame} {outer : List ArrayFrame}
    (hp : p.Represents s (f :: outer)) :
    Represents ⟨p.state, p.bulkSize, p.buf, outer.map fun f => (f.after + 1 : Int),
      outer.map fun f => .array f.values⟩ s outer :=
  ⟨hp.scan, hp.bulkSize_pos, rfl, rfl⟩

theorem Represents.push {f : ArrayFrame} {outer : List ArrayFrame} {n : Int}
    (hp : p.Represents s outer) (hn : n = f.after + 1) :
    Represents ⟨p.state, p.bulkSize, p.buf, n :: p.arrayStack, .array f.values :: p.valueStack⟩
      s (f :: outer) :=
  ⟨hp.scan, hp.bulkSize_pos, by rw [hn, hp.arrayStack]; rfl, by rw [hp.valueStack]; rfl⟩

theorem Parses.drop {i first : Nat} {second : ParseResult} (hi : i ≤ ptr.length)
    (h : Parses (ptr.drop i) o ((first, second), p)) : Parses ptr o ((i + first, second), p) := by
  have hlen : (ptr.drop i).length = ptr.length - i := List.length_drop
  cases h with
  | completed hp hvalue hle =>
    rw [List.drop_drop]
    exact .completed hp hvalue (by omega)
  | incompleted hp =>
    have hend : i + (ptr.drop i).length = ptr.length := by omega
    rw [hend]
    exact .incompleted hp
  | error hle =>
    rw [List.drop_drop]
    exact .error (by omega)

theorem Parses.ended {i : Nat} {values : List RedisValue} (hp : p.Represents s [])
    (hs : s = .start) (hi : i ≤ ptr.length) :
    Parses ptr (.done (.array values), ptr.drop i) ((i, .completed), { p with
      valueStack := .array values :: p.valueStack }) :=
  .completed ⟨hp.scan.trans hs, hp.bulkSize_pos, hp.arrayStack, rfl⟩
    (congrArg (.array values :: ·) hp.valueStack) hi

/-- The functions agree with the reader when `fuel` calls are enough. -/
structure Agrees (fuel : Nat) : Prop where
  parse : ∀ {p : RedisParser} {s : Scan} {outer : List ArrayFrame} {ptr : ByteStr},
    p.Represents s outer → 5 * ptr.length + 4 * outer.length + 2 ≤ fuel →
    ∃ r, parseWithin fuel p ptr = some r ∧ Parses ptr (reader.read s outer.reverse ptr) r
  array : ∀ {p : RedisParser} {s : Scan} {f : ArrayFrame} {outer : List ArrayFrame} {ptr : ByteStr},
    p.Represents s (f :: outer) → 5 * ptr.length + (f :: outer).length + 4 ≤ fuel →
    ∃ r, parseArray fuel p ptr = some r ∧ Parses ptr (reader.read s (f :: outer).reverse ptr) r
  elements : ∀ {p : RedisParser} {s : Scan} {ptr : ByteStr} {i missing : Nat}
    {values : List RedisValue}, p.Represents s [] → (missing = 0 → s = .start) → i ≤ ptr.length →
    5 * (ptr.length - i) + 4 ≤ fuel →
    ∃ r, parseElements fuel p ptr i missing values = some r ∧
      Parses ptr (reader.resume (pending s values missing) (ptr.drop i)) r
  loop : ∀ {p : RedisParser} {s : Scan} {ptr : ByteStr} {i missing : Nat} {arraySize x : Int}
    {values : List RedisValue}, p.Represents s [] → (missing = 0 → s = .start) →
    arraySize - x = missing → i ≤ ptr.length → 5 * (ptr.length - i) + 3 ≤ fuel →
    ∃ r, parseLoop fuel p ptr i arraySize x values = some r ∧
      Parses ptr (reader.resume (pending s values missing) (ptr.drop i)) r
  chunk : ∀ {p : RedisParser} {s : Scan} {ptr : ByteStr} {i : Nat}, p.Represents s [] →
    (p.state = .bulk → i = 0) → i ≤ ptr.length → 5 * (ptr.length - i) + 1 ≤ fuel →
    ∃ r, parseChunk fuel p ptr i = some r ∧ Parses ptr (reader.read s [] (ptr.drop i)) r

variable {fuel : Nat} (h : Agrees fuel)
include h

theorem Agrees.parse_succ {outer : List ArrayFrame} (hp : p.Represents s outer)
    (hfuel : 5 * ptr.length + 4 * outer.length + 2 ≤ fuel + 1) : ∃ r,
      parseWithin (fuel + 1) p ptr = some r ∧ Parses ptr (reader.read s outer.reverse ptr) r := by
  rw [parseWithin]
  cases outer with
  | nil =>
    rw [if_neg (by simp [hp.arrayStack])]
    rw [List.length_nil] at hfuel
    exact h.chunk hp (fun _ => rfl) (Nat.zero_le _) (by omega)
  | cons f outer =>
    rw [if_pos (by simp [hp.arrayStack])]
    rw [List.length_cons] at hfuel
    exact h.array hp (by rw [List.length_cons]; omega)

theorem Agrees.elements_succ {i missing : Nat} {values : List RedisValue} (hp : p.Represents s [])
    (hs : missing = 0 → s = .start) (hi : i ≤ ptr.length)
    (hfuel : 5 * (ptr.length - i) + 4 ≤ fuel + 1) : ∃ r,
      parseElements (fuel + 1) p ptr i missing values = some r ∧
        Parses ptr (reader.resume (pending s values missing) (ptr.drop i)) r := by
  rw [parseElements]
  split
  · next hend =>
    subst hend
    cases missing with
    | zero =>
      exact ⟨_, if_pos rfl, .ended hp (hs rfl) hi⟩
    | succ after =>
      refine ⟨_, if_neg (by omega), ?_⟩
      rw [List.drop_length]
      exact .incompleted (hp.push (f := ⟨after, values⟩) (by push_cast; rfl))
  · exact h.loop hp hs (Int.sub_zero _) hi (by omega)

theorem Agrees.chunk_succ {i : Nat} (hp : p.Represents s []) (hbulk : p.state = .bulk → i = 0)
    (hi : i ≤ ptr.length) (hfuel : 5 * (ptr.length - i) + 1 ≤ fuel + 1) : ∃ r,
      parseChunk (fuel + 1) p ptr i = some r ∧ Parses ptr (reader.read s [] (ptr.drop i)) r := by
  rw [parseChunk]
  cases hc : ptr[i]? with
  | none =>
    obtain rfl : i = ptr.length := Nat.le_antisymm hi (List.getElem?_eq_none_iff.mp hc)
    rw [List.drop_length]
    exact ⟨_, rfl, .incompleted hp⟩
  | some c =>
    have hreads := parseChar_reads hp hbulk hc
    generalize reader.read s [] (ptr.drop i) = o at hreads
    simp only []
    cases hnext : p.parseChar ptr i c with
    | next p' j =>
      rw [hnext] at hreads
      cases hreads with
      | next hp' hstate hlt hle => exact h.chunk hp' (absurd · hstate) hle (by omega)
    | ret p' first second =>
      rw [hnext] at hreads
      cases hreads with
      | ret hparses => exact ⟨_, rfl, hparses⟩
    | array p' j =>
      rw [hnext] at hreads
      cases hreads with
      | @array _ f _ hp' hlt hle =>
        have hlen : (ptr.drop j).length = ptr.length - j := List.length_drop
        have harray : ∃ r, parseArray fuel p' (ptr.drop j) = some r ∧
            Parses (ptr.drop j) (reader.read .start [f] (ptr.drop j)) r :=
          h.array hp' (by rw [List.length_singleton]; omega)
        obtain ⟨⟨⟨first, second⟩, p''⟩, hrun, hparses⟩ := harray
        refine ⟨_, ?_, hparses.drop hle⟩
        simp only [hrun]
        rw [Nat.add_comm j]
        rfl

theorem Agrees.loop_succ {i missing : Nat} {arraySize x : Int} {values : List RedisValue}
    (hp : p.Represents s []) (hs : missing = 0 → s = .start) (hx : arraySize - x = missing)
    (hi : i ≤ ptr.length) (hfuel : 5 * (ptr.length - i) + 3 ≤ fuel + 1) : ∃ r,
      parseLoop (fuel + 1) p ptr i arraySize x values = some r ∧
        Parses ptr (reader.resume (pending s values missing) (ptr.drop i)) r := by
  rw [parseLoop]
  cases missing with
  | zero =>
    exact ⟨_, if_neg (by omega), .ended hp (hs rfl) hi⟩
  | succ after =>
    rw [if_pos (by omega)]
    have hlen : (ptr.drop i).length = ptr.length - i := List.length_drop
    have hparse : ∃ r, parseWithin fuel p (ptr.drop i) = some r ∧
        Parses (ptr.drop i) (reader.read s [] (ptr.drop i)) r :=
      h.parse hp (by rw [List.length_nil]; omega)
    obtain ⟨⟨⟨first, second⟩, p'⟩, hrun, hparses⟩ := hparse
    have hread : reader.resume (pending s values (after + 1)) (ptr.drop i) = reader.resume
        ((reader.read s [] (ptr.drop i)).1.within reader [⟨after, values⟩])
        (reader.read s [] (ptr.drop i)).2 := by
      rw [← NestedReader.read_frames, List.nil_append]
      rfl
    have hlt {v : RedisValue} : (reader.read s [] (ptr.drop i)).1 = .done v →
        (reader.read s [] (ptr.drop i)).2.length < (ptr.drop i).length :=
      NestedReader.length_rest_lt
    rw [hread, hrun]
    generalize reader.read s [] (ptr.drop i) = o at hparses hlt
    cases hparses with
    | completed hp' hvalue hle =>
      have hpos := hlt rfl
      rw [List.length_drop] at hpos
      rw [NestedReader.Outcome.within, give_eq_pending, List.drop_drop]
      simp only [Option.bind_eq_bind, Option.bind_some, hvalue]
      exact h.loop hp' (fun _ => rfl) (by omega) (by omega) (by omega)
    | incompleted hp' =>
      refine ⟨_, rfl, ?_⟩
      rw [show i + (ptr.drop i).length = ptr.length by omega, NestedReader.Outcome.within,
        ← List.reverse_cons]
      exact .incompleted (hp'.push (f := ⟨after, values⟩) hx)
    | error hle =>
      refine ⟨_, rfl, ?_⟩
      rw [List.drop_drop]
      exact .error (by omega)

theorem Agrees.array_succ {f : ArrayFrame} {outer : List ArrayFrame}
    (hp : p.Represents s (f :: outer))
    (hfuel : 5 * ptr.length + (f :: outer).length + 4 ≤ fuel + 1) : ∃ r,
      parseArray (fuel + 1) p ptr = some r ∧
        Parses ptr (reader.read s (f :: outer).reverse ptr) r := by
  rw [List.length_cons] at hfuel
  have hread : reader.read s (f :: outer).reverse ptr = reader.resume
      ((reader.read s outer.reverse ptr).1.within reader [f])
      (reader.read s outer.reverse ptr).2 := by
    rw [List.reverse_cons, NestedReader.read_frames]
  rw [parseArray, hp.arrayStack, hp.valueStack]
  simp only [List.map_cons, RedisValue.toArray]
  cases outer with
  | nil =>
    rw [if_neg (by simp)]
    exact h.elements hp.pop nofun (Nat.zero_le _) (by omega)
  | cons g outer =>
    rw [if_pos (by simp)]
    have hinner : ∃ r, parseArray fuel _ ptr = some r ∧
        Parses ptr (reader.read s (g :: outer).reverse ptr) r := h.array hp.pop (by omega)
    obtain ⟨⟨⟨first, second⟩, p'⟩, hrun, hparses⟩ := hinner
    rw [hread, hrun]
    generalize reader.read s (g :: outer).reverse ptr = o at hparses
    cases hparses with
    | completed hp' hvalue hle =>
      rw [NestedReader.Outcome.within, give_eq_pending]
      simp only [Option.bind_eq_bind, Option.bind_some, ne_eq, not_true, if_false, hvalue,
        Int.add_sub_cancel]
      exact h.elements hp' (fun _ => rfl) hle (by omega)
    | incompleted hp' =>
      refine ⟨_, rfl, ?_⟩
      rw [NestedReader.Outcome.within, ← List.reverse_cons]
      exact .incompleted (hp'.push rfl)
    | error hle => exact ⟨_, rfl, .error hle⟩

end

theorem agrees (fuel : Nat) : Agrees fuel := by
  induction fuel with
  | zero =>
    constructor
    all_goals
      intros
      omega
  | succ fuel ih =>
    exact ⟨ih.parse_succ, ih.array_succ, ih.elements_succ, ih.loop_succ, ih.chunk_succ⟩

/-- On every input, from every state, the parser does what the reader does. -/
theorem parse_eq_read {p : RedisParser} {s : Scan} {outer : List ArrayFrame}
    (hp : p.Represents s outer) (ptr : ByteStr) : ∃ r, p.parse ptr = some r ∧
      Parses ptr (reader.read s outer.reverse ptr) r := by
  refine (agrees _).parse hp (Nat.le_of_eq ?_)
  rw [hp.arrayStack, List.length_map]

end RedisParser
end PSM
