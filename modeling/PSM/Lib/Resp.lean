import PSM.Lib.ByteStr

/-! The texts of the Redis protocol: replies, and the commands, which are arrays of strings. -/

open ByteStr

inductive Resp where
  | status (s : ByteStr)
  | error (s : ByteStr)
  | int (n : Int)
  | null
  | bulk (s : ByteStr)
  | array (rs : List Resp)

namespace Resp

/-- A line, after the character that says what it is. -/
def line (kind : UInt8) (s : ByteStr) : ByteStr := kind :: (s ++ [13, 10])

mutual

def text : Resp → ByteStr
  | status s => line 43 s
  | error s => line 45 s
  | int n => line 58 (decimal n)
  | null => line 36 (decimal (-1))
  | bulk s => line 36 (decimal s.length) ++ (s ++ [13, 10])
  | array rs => line 42 (decimal rs.length) ++ texts rs

def texts : List Resp → ByteStr
  | [] => []
  | r :: rs => text r ++ texts rs

end

theorem texts_eq_flatten (rs : List Resp) : texts rs = (rs.map text).flatten := by
  induction rs with
  | nil => rfl
  | cons r rs ih => rw [texts, ih, List.map_cons, List.flatten_cons]

def command (items : List ByteStr) : Resp := .array (items.map .bulk)

end Resp
