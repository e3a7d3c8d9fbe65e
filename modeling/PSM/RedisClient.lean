import PSM.Lib.Resp
import PSM.Lib.StreamSocket
import PSM.RedisParser

/-! The connection to Redis (`RedisClientImpl`).

A command is an array of strings, and `doSyncCommand` reads until the parser has a reply. -/

namespace PSM
open ByteStr

namespace RedisParser

/-! ## Numbers -/

theorem isDigit_iff {c : UInt8} : isDigit c ↔ 48 ≤ c.toNat ∧ c.toNat ≤ 57 := by
  simp [isDigit, UInt8.le_iff_toNat_le]

theorem toNat_toUInt8 {c : Char} (h : c.isDigit) : (c.toNat.toUInt8).toNat = c.toNat := by
  have := isDecimalChar_lt (.inl h)
  rw [Nat.toUInt8, UInt8.toNat_ofNat', Nat.mod_eq_of_lt (by omega)]

theorem isDigit_toUInt8 {c : Char} (h : c.isDigit) : isDigit c.toNat.toUInt8 := by
  rw [isDigit_iff, toNat_toUInt8 h]
  simpa [Char.isDigit, UInt32.le_iff_toNat_le] using h

theorem digitsValue_eq {s : List Char} (hs : ∀ c ∈ s, c.isDigit) (n : Nat) :
    digitsValue n (s.map fun c => c.toNat.toUInt8) = Nat.ofDigitChars 10 s n := by
  induction s generalizing n with
  | nil => rfl
  | cons c s ih =>
    have hc := hs c List.mem_cons_self
    rw [List.map_cons, digitsValue, if_pos (isDigit_toUInt8 hc), toNat_toUInt8 hc,
      ih fun c hc => hs c (List.mem_cons_of_mem _ hc), Nat.ofDigitChars_cons]
    rfl

theorem decimal_ofNat (n : Nat) :
    decimal (.ofNat n) = (Nat.toDigits 10 n).map fun c => c.toNat.toUInt8 := by
  rw [decimal, ascii, Int.repr.eq_def]
  simp only [Nat.toList_repr]

theorem decimal_negSucc (n : Nat) :
    decimal (.negSucc n) = 45 :: (Nat.toDigits 10 (n + 1)).map fun c => c.toNat.toUInt8 := by
  rw [decimal, ascii, Int.repr.eq_def]
  simp only [String.toList_append, Nat.toList_repr, List.map_append]
  rfl

theorem isDigit_of_mem_toDigits {n : Nat} {c : UInt8}
    (h : c ∈ (Nat.toDigits 10 n).map fun c => c.toNat.toUInt8) : isDigit c := by
  obtain ⟨c, hc, rfl⟩ := List.mem_map.mp h
  exact isDigit_toUInt8 (Nat.isDigit_of_mem_toDigits (by decide) (by decide) hc)

theorem digitsValue_toDigits (n : Nat) :
    digitsValue 0 ((Nat.toDigits 10 n).map fun c => c.toNat.toUInt8) = n := by
  rw [digitsValue_eq fun c hc => Nat.isDigit_of_mem_toDigits (by decide) (by decide) hc,
    Nat.ofDigitChars_ten_toDigits]

theorem strtol_decimal {n : Int} (h : -2 ^ 31 ≤ n ∧ n < 2 ^ 31) : strtol (decimal n) = n := by
  cases n with
  | ofNat n =>
    have hvalue := digitsValue_toDigits n
    have hdigits := @isDigit_of_mem_toDigits n
    rw [decimal_ofNat]
    generalize (Nat.toDigits 10 n).map (fun c => c.toNat.toUInt8) = s at hvalue hdigits
    cases s with
    | nil =>
      rw [digitsValue] at hvalue
      rw [← hvalue]
      rfl
    | cons c s =>
      have hminus : c ≠ 45 := by
        rintro rfl
        exact absurd (hdigits List.mem_cons_self) (by decide)
      simp only [strtol, hminus, if_false, hvalue]
      rw [Int.ofNat_eq_natCast] at h ⊢
      omega
  | negSucc n =>
    rw [decimal_negSucc, strtol]
    simp only [if_true, digitsValue_toDigits]
    omega

theorem decimal_ne_nil (n : Int) : decimal n ≠ [] := by
  cases n with
  | ofNat n =>
    rw [decimal_ofNat, ne_eq, List.map_eq_nil_iff]
    exact Nat.toDigits_ne_nil
  | negSucc n =>
    rw [decimal_negSucc]
    exact List.cons_ne_nil _ _

/-- A number may stand in its line. -/
theorem allows_decimal {k : Line} (hk : k.isNumber) {n : Int} : ∀ c ∈ decimal n, k.allows c := by
  intro c hc
  rw [Line.allows, if_pos hk, decide_eq_true_iff]
  cases n with
  | ofNat n =>
    rw [decimal_ofNat] at hc
    exact .inl (isDigit_of_mem_toDigits hc)
  | negSucc n =>
    rw [decimal_negSucc, List.mem_cons] at hc
    exact hc.symm.imp isDigit_of_mem_toDigits id

/-! ## Replies -/

section
variable {k : Line} {kind : UInt8} {buf s ys : ByteStr}

theorem ne_of_allows {c : UInt8} (h : k.allows c) : c ≠ 13 := by
  rintro rfl
  cases k <;> exact absurd h (by decide)

theorem read_line_end (hs : ∀ c ∈ s, k.allows c) (hne : k.isNumber → buf ++ s ≠ []) :
    reader.read (.line k buf) [] (s ++ 13 :: 10 :: ys) =
      reader.resume (reader.outcome [] (k.ends (buf ++ s))) ys := by
  induction s generalizing buf with
  | nil =>
    rw [List.append_nil] at hne ⊢
    have hscan : Scan.scan 13 (.line k buf) = .more (.lineLF k buf) := by
      simp only [Scan.scan, if_true]
      exact if_neg fun h => hne h.1 h.2
    rw [List.nil_append, read_cons, hscan]
    rfl
  | cons c s ih =>
    have hc := hs c List.mem_cons_self
    have hscan : Scan.scan c (.line k buf) = .more (.line k (buf ++ [c])) := by
      simp only [Scan.scan, ne_of_allows hc, hc, if_true, if_false]
    rw [List.append_cons buf] at hne ⊢
    rw [List.cons_append, read_cons, hscan]
    exact ih (fun c hc => hs c (List.mem_cons_of_mem _ hc)) hne

theorem read_line (hkind : line? kind = some k) (hs : ∀ c ∈ s, k.allows c)
    (hne : k.isNumber → s ≠ []) : reader.read .start [] (Resp.line kind s ++ ys) =
      reader.resume (reader.outcome [] (k.ends s)) ys := by
  have hscan : Scan.scan kind .start = .more (.line k []) := by
    simp only [Scan.scan, hkind, Option.elim]
  rw [Resp.line, List.cons_append, List.append_assoc, read_cons, hscan]
  exact read_line_end hs hne

theorem read_number (hkind : line? kind = some k) (hk : k.isNumber) {n : Int} :
    reader.read .start [] (Resp.line kind (decimal n) ++ ys) =
      reader.resume (reader.outcome [] (k.ends (decimal n))) ys :=
  read_line hkind (allows_decimal hk) fun _ => decimal_ne_nil n

theorem isText_of_read {v : RedisValue}
    (h : ∀ ys, reader.read .start [] (s ++ ys) = (.done v, ys)) : reader.IsText s v := h

end

end RedisParser

mutual

/-- What the client makes of a reply. -/
def RedisValue.ofResp : Resp → RedisValue
  | .status s => .string s false
  | .error s => .string s true
  | .int n => .int n
  | .null => .null
  | .bulk s => .string s false
  | .array rs => .array (ofResps rs)

def RedisValue.ofResps : List Resp → List RedisValue
  | [] => []
  | r :: rs => ofResp r :: ofResps rs

end

theorem RedisValue.ofResps_eq_map (rs : List Resp) : ofResps rs = rs.map ofResp := by
  induction rs with
  | nil => rfl
  | cons r rs ih => rw [ofResps, ih, List.map_cons]

namespace RedisParser

/-- The parser can hold the reply: the texts of lines are printable, and numbers and sizes are in
the range of `long`. -/
inductive Fits : Resp → Prop where
  | status {s : ByteStr} (hs : ∀ c ∈ s, isPrintable c) : Fits (.status s)
  | error {s : ByteStr} (hs : ∀ c ∈ s, isPrintable c) : Fits (.error s)
  | int {n : Int} (hn : -2 ^ 31 ≤ n ∧ n < 2 ^ 31) : Fits (.int n)
  | null : Fits .null
  | bulk {s : ByteStr} (hlen : s.length < 2 ^ 31) : Fits (.bulk s)
  | array {rs : List Resp} (hlen : rs.length < 2 ^ 31) (hrs : ∀ r ∈ rs, Fits r) : Fits (.array rs)

theorem announced_length {null empty : Scanned Scan RedisValue}
    {begins : Nat → Scanned Scan RedisValue} {n : Nat} (h : n < 2 ^ 31) :
    announced (strtol (decimal n)) null empty begins =
      match n with
      | 0 => empty
      | after + 1 => begins after := by
  rw [strtol_decimal (by omega)]
  cases n with
  | zero => rfl
  | succ after =>
    rw [announced, if_neg (by omega), if_neg (by omega), if_neg (by omega)]
    exact congrArg begins (by omega)

theorem isText_bulk {s : ByteStr} (hlen : s.length < 2 ^ 31) :
    reader.IsText (Resp.bulk s).text (.string s false) := by
  refine isText_of_read fun ys => ?_
  rw [Resp.text, List.append_assoc, read_number rfl rfl, Line.ends, announced_length hlen,
    List.append_assoc]
  cases s with
  | nil => rfl
  | cons c s =>
    refine (read_bulk_lt (by simp)).trans ?_
    rw [List.nil_append, ← List.length_cons, List.take_left, List.drop_left]
    rfl

theorem isText_array {rs : List Resp} (hlen : rs.length < 2 ^ 31)
    (hrs : ∀ r ∈ rs, reader.IsText r.text (.ofResp r)) :
    reader.IsText (Resp.array rs).text (.ofResp (.array rs)) := by
  have hheader : ∀ ys, reader.read .start [] (Resp.line 42 (decimal rs.length) ++ ys) =
      reader.resume (reader.outcome [] (Line.arraySize.ends (decimal rs.length))) ys :=
    fun ys => read_number rfl rfl
  simp only [Line.ends, announced_length hlen] at hheader
  rw [Resp.text, RedisValue.ofResp, Resp.texts_eq_flatten, RedisValue.ofResps_eq_map]
  cases rs with
  | nil => exact hheader
  | cons r rs =>
    refine NestedReader.isText_list hheader ?_ (List.length_map ..)
    exact List.forall₂_map_left_iff.mpr (List.forall₂_map_right_iff.mpr
      (List.forall₂_same.mpr hrs))

theorem isText_of_fits {r : Resp} (h : Fits r) : reader.IsText r.text (.ofResp r) := by
  induction h with
  | status hs => exact isText_of_read fun ys => read_line (k := .string) rfl hs nofun
  | error hs => exact isText_of_read fun ys => read_line (k := .error) rfl hs nofun
  | int hn =>
    refine isText_of_read fun ys => ?_
    rw [Resp.text, read_number rfl rfl, Line.ends, strtol_decimal hn]
    rfl
  | null =>
    refine isText_of_read fun ys => ?_
    rw [Resp.text, read_number rfl rfl, Line.ends, strtol_decimal (by decide)]
    rfl
  | bulk hlen => exact isText_bulk hlen
  | array hlen hrs ih => exact isText_array hlen ih

end RedisParser

/-! ## Commands -/

/-- The connection and its parser. -/
structure RedisClientImpl where
  redisParser : RedisParser
  socket : StreamSocket UInt8

/-- What a command returns, or what is thrown: the error handler throws when the parser fails, and
`read_some` at the end of the stream. -/
inductive CommandResult where
  | value (v : RedisValue)
  | parserError
  | eof

namespace RedisClientImpl

/-- `appendItem` is the body of the loop. -/
def appendItem (result item : ByteStr) : ByteStr :=
  result ++ [36] ++ decimal item.length ++ [13, 10] ++ item ++ [13, 10]

def makeCommand (items : List ByteStr) : ByteStr :=
  items.foldl appendItem ([42] ++ decimal items.length ++ [13, 10])

/-- The loop over the bytes of one read, with a bound on its rounds. It ends without a result when
all of them have been parsed. -/
def parseBuffer (inbuff : ByteStr) :
    Nat → RedisParser → Nat → Option (Option CommandResult × RedisParser)
  | 0, _, _ => none
  | fuel + 1, redisParser, pos =>
    if pos < inbuff.length then do
      let ((first, second), redisParser) ← redisParser.parse (inbuff.drop pos)
      match second with
      | .completed =>
        let (v, redisParser) := redisParser.result
        some (some (.value v), redisParser)
      | .incompleted => parseBuffer inbuff fuel redisParser (pos + first)
      | .error => some (some .parserError, redisParser)
    else some (none, redisParser)

/-- The loop of `doSyncCommand`. What is left of the last read is dropped. -/
def readReply (c : RedisClientImpl) : Option (CommandResult × RedisClientImpl) :=
  if _h : (c.socket.recv 4096).1 = [] then some (.eof, { c with socket := (c.socket.recv 4096).2 })
  else
    match parseBuffer (c.socket.recv 4096).1 ((c.socket.recv 4096).1.length + 1)
      c.redisParser 0 with
    | none => none
    | some (some result, redisParser) => some (result, ⟨redisParser, (c.socket.recv 4096).2⟩)
    | some (none, redisParser) => readReply ⟨redisParser, (c.socket.recv 4096).2⟩
termination_by c.socket.incoming.length
decreasing_by exact StreamSocket.length_incoming_recv_lt (by decide) _h

def doSyncCommand (c : RedisClientImpl) (items : List ByteStr) :
    Option (CommandResult × RedisClientImpl) :=
  readReply { c with socket := c.socket.send (makeCommand items) }

/-! ## Reading a reply -/

abbrev Outcome := NestedReader.Outcome RedisParser.Scan RedisValue

/-- The result of a command when no more bytes come. -/
def resultOf : Outcome → CommandResult
  | .more _ _ => .eof
  | .done v => .value v
  | .error => .parserError

/-- The parser after an outcome. After an error it is of no use. -/
def After (redisParser : RedisParser) : Outcome → Prop
  | .more s frames => redisParser.Represents s frames.reverse
  | .done _ => redisParser.Represents .start []
  | .error => True

open RedisParser

section
variable {inbuff : ByteStr} {redisParser : RedisParser} {s : Scan} {outer : List ArrayFrame}

theorem parseBuffer_eq (hp : redisParser.Represents s outer) (hne : inbuff ≠ []) :
    ∃ redisParser', After redisParser' (reader.read s outer.reverse inbuff).1 ∧
      parseBuffer inbuff (inbuff.length + 1) redisParser 0 = some (
        match (reader.read s outer.reverse inbuff).1 with
        | .more _ _ => none
        | o => some (resultOf o), redisParser') := by
  have hpos := List.length_pos_iff.mpr hne
  obtain ⟨⟨⟨first, second⟩, p⟩, hrun, hparses⟩ := parse_eq_read hp inbuff
  rw [parseBuffer, if_pos hpos, List.drop_zero, hrun]
  generalize reader.read s outer.reverse inbuff = o at hparses
  cases hparses with
  | completed hp' hvalue hle =>
    refine ⟨_, hp', ?_⟩
    simp only [Option.bind_eq_bind, Option.bind_some, result, hvalue]
    rfl
  | incompleted hp' =>
    refine ⟨p, ?_, ?_⟩
    · rw [After, List.reverse_reverse]
      exact hp'
    · obtain ⟨n, hn⟩ := Nat.exists_eq_succ_of_ne_zero hpos.ne'
      simp only [Option.bind_eq_bind, Option.bind_some, Nat.zero_add]
      rw [hn, parseBuffer, if_neg (by omega)]
  | error hle => exact ⟨p, trivial, rfl⟩

theorem recv_append (socket : StreamSocket UInt8) (k : Nat) :
    (socket.recv k).1 ++ (socket.recv k).2.incoming = socket.incoming :=
  List.take_append_drop ..

/-- The result does not depend on how the network cuts the bytes. -/
theorem readReply_eq {c : RedisClientImpl} (hp : c.redisParser.Represents s outer) :
    ∃ c', readReply c = some (resultOf (reader.read s outer.reverse c.socket.incoming).1, c') ∧
      After c'.redisParser (reader.read s outer.reverse c.socket.incoming).1 ∧
      c'.socket.incoming <:+ (reader.read s outer.reverse c.socket.incoming).2 ∧
      c'.socket.sent = c.socket.sent := by
  induction c using readReply.induct generalizing s outer with
  | case1 c h =>
    have hempty := (StreamSocket.recv_eq_nil_iff (by decide)).mp h
    have hrest : (c.socket.recv 4096).2.incoming = [] := by
      rw [← recv_append c.socket 4096, h] at hempty
      exact hempty
    rw [readReply, dif_pos h, hempty, NestedReader.read_nil]
    refine ⟨_, rfl, ?_, ?_, rfl⟩
    · rw [After, List.reverse_reverse]
      exact hp
    · rw [hrest]
  | case2 c h hnone =>
    obtain ⟨p, -, hsome⟩ := parseBuffer_eq hp h
    rw [hnone] at hsome
    cases hsome
  | case3 c h result p hresult =>
    obtain ⟨p', hafter, hsome⟩ := parseBuffer_eq hp h
    rw [hresult] at hsome
    rw [readReply, dif_neg h, hresult, ← recv_append c.socket 4096, NestedReader.read_append]
    revert hafter hsome
    generalize reader.read s outer.reverse (c.socket.recv 4096).1 = o
    obtain ⟨o, rest⟩ := o
    intro hafter hsome
    cases o with
    | more s' frames => cases hsome
    | done v =>
      cases hsome
      exact ⟨_, rfl, hafter, List.suffix_append .., rfl⟩
    | error =>
      cases hsome
      exact ⟨_, rfl, hafter, List.suffix_append .., rfl⟩
  | case4 c h p hresult ih =>
    obtain ⟨p', hafter, hsome⟩ := parseBuffer_eq hp h
    rw [hresult] at hsome
    rw [readReply, dif_neg h, hresult, ← recv_append c.socket 4096, NestedReader.read_append]
    cases ho : (reader.read s outer.reverse (c.socket.recv 4096).1).1 with
    | more s' frames =>
      rw [ho] at hafter hsome
      cases hsome
      obtain ⟨c', hreply, hafter', hsuffix, hsent⟩ := ih hafter
      rw [List.reverse_reverse] at hreply hafter' hsuffix
      rw [NestedReader.rest_of_more ho, List.nil_append]
      exact ⟨c', hreply, hafter', hsuffix, hsent⟩
    | done v =>
      rw [ho] at hsome
      cases hsome
    | error =>
      rw [ho] at hsome
      cases hsome

end

/-- Between two commands: the parser is at the start of a reply, and nothing is unread. -/
structure Ready (c : RedisClientImpl) : Prop where
  represents : c.redisParser.Represents .start []
  incoming : c.socket.incoming = []

theorem foldl_appendItem (items : List ByteStr) (result : ByteStr) :
    items.foldl appendItem result = result ++ Resp.texts (items.map .bulk) := by
  induction items generalizing result with
  | nil => simp [Resp.texts]
  | cons item items ih =>
    rw [List.foldl_cons, ih, List.map_cons, Resp.texts, appendItem, Resp.text, Resp.line]
    simp

/-- What is sent is an array of strings. -/
theorem makeCommand_eq (items : List ByteStr) : makeCommand items = (Resp.command items).text := by
  rw [makeCommand, foldl_appendItem, Resp.command, Resp.text, List.length_map, Resp.line]
  simp

/-- Whatever bytes come, and however the network cuts them, the result is what is read byte by
byte. -/
theorem doSyncCommand_eq_read {redisParser : RedisParser} {s : Scan} {outer : List ArrayFrame}
    (hp : redisParser.Represents s outer) (items : List ByteStr) (socket : StreamSocket UInt8) :
    ∃ c', doSyncCommand ⟨redisParser, socket⟩ items =
        some (resultOf (reader.read s outer.reverse socket.incoming).1, c') ∧
      c'.socket.sent = socket.sent ++ [makeCommand items] := by
  obtain ⟨c', hreply, -, -, hsent⟩ := readReply_eq
    (c := ⟨redisParser, socket.send (makeCommand items)⟩) hp
  exact ⟨c', hreply, hsent⟩

/-- A number in an array in an array, in pieces of three bytes. -/
theorem doSyncCommand_eq_read_nested : ∃ c', doSyncCommand
      ⟨.init, ⟨ascii "*2\r\n*1\r\n:-7\r\n$2\r\nok\r\n", Stream'.const 3, []⟩⟩ [ascii "exec"] =
        some (.value (.array [.array [.int (-7)], .string (ascii "ok") false]), c') ∧
      c'.socket.sent = [ascii "*1\r\n$4\r\nexec\r\n"] :=
  doSyncCommand_eq_read (represents_nil rfl rfl (by decide)) _ _

/-- A reply that comes alone is returned, and then the connection is ready for the next command. -/
theorem doSyncCommand_reply {c : RedisClientImpl} {r : Resp}
    (hp : c.redisParser.Represents .start []) (hin : c.socket.incoming = r.text) (hr : Fits r)
    (items : List ByteStr) :
    ∃ c', doSyncCommand c items = some (.value (.ofResp r), c') ∧ c'.Ready := by
  have hread : reader.read .start [] c.socket.incoming = (.done (.ofResp r), []) := by
    rw [hin, ← List.append_nil r.text]
    exact isText_of_fits hr []
  obtain ⟨c', hreply, hafter, hsuffix, -⟩ := readReply_eq
    (c := { c with socket := c.socket.send (makeCommand items) }) hp
  rw [List.reverse_nil, StreamSocket.send, hread] at hreply hafter hsuffix
  exact ⟨c', hreply, hafter, List.suffix_nil.mp hsuffix⟩

end RedisClientImpl
end PSM
