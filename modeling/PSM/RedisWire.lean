import PSM.RedisClient
import PSM.RedisManager

/-! `RedisManager` over its connection.

The functions of `RedisManager` are programs of commands, which have been run on the store so far.
Here each command is an array of strings that `doSyncCommand` sends, and its reply comes back as
bytes, cut as the network likes. The server, `JsonToStr` and `StrToJson` are parameters. -/

namespace PSM
open ByteStr Redis RedisClientImpl

namespace RedisManager

/-- The strings of a command. The commands for `AgentList` are in capital letters. -/
def items (jsonToStr : HashValue → ByteStr) : Command HashValue → List ByteStr
  | .hmget key field => [ascii "HMGET", key, field]
  | .hmset key field value =>
    [ascii (if key = agentList then "HMSET" else "hmset"), key, field, jsonToStr value]
  | .hlen key => [ascii "HLEN", key]
  | .smembers key => [ascii "smembers", key]
  | .sadd key member => [ascii "sadd", key, member]
  | .srem key member => [ascii "srem", key, member]
  | .lpush key value => [ascii "lpush", key, value]
  | .del key => [ascii "del", key]
  | .multi => [ascii "multi"]
  | .exec => [ascii "exec"]

/-- How the reply to a command is used: as an error, a number, a status, the value of a field, or
the members of a set. -/
def replyOf (strToJson : ByteStr → HashValue) (c : Command HashValue) :
    RedisValue → Reply HashValue
  | .null => .ok
  | .int i => .int i.toNat
  | .string _ true => .error
  | .string _ false => .ok
  | .array values =>
    match c, values with
    | .hmget _ _, v :: _ => .value (if v.isNull then none else some (strToJson v.toByteArray))
    | .smembers _, _ => .members (values.map RedisValue.toByteArray)
    | _, _ => .ok

/-- What the server answers in the protocol. A status says that a command is done, or queued in a
transaction. -/
inductive Answers (strToJson : ByteStr → HashValue) :
    Command HashValue → Reply HashValue → Resp → Prop where
  | error {c : Command HashValue} {s : ByteStr} : Answers strToJson c .error (.error s)
  | ok {c : Command HashValue} {s : ByteStr} : Answers strToJson c .ok (.status s)
  | exec {rs : List Resp} : Answers strToJson .exec .ok (.array rs)
  | int {c : Command HashValue} {n : Nat} : Answers strToJson c (.int n) (.int n)
  | none {key field : ByteStr} : Answers strToJson (.hmget key field) (.value none) (.array [.null])
  | some {key field s : ByteStr} :
    Answers strToJson (.hmget key field) (.value (some (strToJson s))) (.array [.bulk s])
  | members {key : ByteStr} {xs : List ByteStr} :
    Answers strToJson (.smembers key) (.members xs) (.array (xs.map .bulk))

section
variable {σ α : Type} (jsonToStr : HashValue → ByteStr) (strToJson : ByteStr → HashValue)
  (server : ByteStr → σ → ByteStr × σ)

/-- The program over the connection. A command that does not return a value throws. -/
def overWire : Client HashValue α → RedisClientImpl → σ → Option (α × RedisClientImpl × σ)
  | .ret a, redis, t => some (a, redis, t)
  | .die, _, _ => none
  | .call c k, redis, t =>
    let (reply, t) := server (makeCommand (items jsonToStr c)) t
    let socket := { redis.socket with incoming := redis.socket.incoming ++ reply }
    match doSyncCommand { redis with socket := socket } (items jsonToStr c) with
    | some (.value v, redis) => overWire (k (replyOf strToJson c v)) redis t
    | _ => none

/-- The server does what each command of the program asks for, and answers it with a reply that the
parser can hold. -/
def Serves (exec : Command HashValue → σ → Reply HashValue × σ) : Client HashValue α → σ → Prop
  | .ret _, _ => True
  | .die, _ => True
  | .call c k, t =>
    (∃ r, server (Resp.command (items jsonToStr c)).text t = (r.text, (exec c t).2) ∧
      Answers strToJson c (exec c t).1 r ∧ RedisParser.Fits r) ∧
    Serves exec (k (exec c t).1) (exec c t).2

end

/-! ## Replies -/

theorem replyOf_of_answers {strToJson : ByteStr → HashValue} {c : Command HashValue}
    {reply : Reply HashValue} {r : Resp} (h : Answers strToJson c reply r) :
    replyOf strToJson c (.ofResp r) = reply := by
  cases h with
  | error => rfl
  | ok => rfl
  | exec => rfl
  | int => rfl
  | none => rfl
  | some => rfl
  | @members key xs =>
    rw [RedisValue.ofResp, RedisValue.ofResps_eq_map, List.map_map, replyOf, List.map_map]
    exact congrArg _ (List.map_id xs)

/-- The functions of `RedisManager` do the same over the connection as on the store. -/
theorem overWire_eq {σ α : Type} {jsonToStr : HashValue → ByteStr}
    {strToJson : ByteStr → HashValue} {server : ByteStr → σ → ByteStr × σ}
    {exec : Command HashValue → σ → Reply HashValue × σ} {p : Client HashValue α}
    {redis : RedisClientImpl} {t : σ} (hready : redis.Ready)
    (h : Serves jsonToStr strToJson server exec p t) :
    ∃ redis', redis'.Ready ∧ overWire jsonToStr strToJson server p redis t =
      (Prog.run exec p t).map fun r => (r.1, redis', r.2) := by
  induction p generalizing redis t with
  | ret a => exact ⟨redis, hready, rfl⟩
  | die => exact ⟨redis, hready, rfl⟩
  | call c k ih =>
    obtain ⟨⟨r, hserver, hanswers, hfits⟩, hrest⟩ := h
    obtain ⟨redis', hcommand, hready'⟩ := doSyncCommand_reply
      (c := { redis with socket := { redis.socket with incoming := r.text } })
      hready.represents rfl hfits (items jsonToStr c)
    rw [overWire, makeCommand_eq, hserver]
    simp only [hready.incoming, List.nil_append, hcommand, replyOf_of_answers hanswers]
    exact ih _ hready' hrest

/-- A server that knows the commands that add the default processes of the agent 0. -/
def defaultsServer (bytes : ByteStr) (t : Store HashValue) : ByteStr × Store HashValue :=
  let key := processListKey 0
  if bytes = makeCommand [ascii "smembers", key] then
    ((Resp.array ((t.set key).members.map .bulk)).text, t)
  else
    match defaultProcessList.find? fun s => makeCommand [ascii "sadd", key, s] = bytes with
    | some s => ((Resp.int 1).text, (exec (.sadd key s) t).2)
    | none => ((Resp.error (ascii "ERR unknown command")).text, t)

theorem serves_defaultsServer :
    Serves (fun _ => []) .text defaultsServer exec (getProcessList 0) .empty := by
  have hfits : RedisParser.Fits (.int (1 : Nat)) := .int (by decide)
  refine ⟨⟨_, ?_, .members, .array (by decide) fun _ h => absurd h List.not_mem_nil⟩,
    ⟨_, ?_, .int, hfits⟩, ⟨_, ?_, .int, hfits⟩, ⟨_, ?_, .int, hfits⟩, trivial⟩
  all_goals rfl

theorem overWire_eq_getProcessList : ∃ redis' : RedisClientImpl, redis'.Ready ∧
    overWire (fun _ => []) .text defaultsServer (getProcessList 0)
        ⟨.init, ⟨[], Stream'.const 3, []⟩⟩ .empty =
      (Prog.run exec (getProcessList 0) .empty).map fun r => (r.1, redis', r.2) :=
  overWire_eq ⟨RedisParser.represents_nil rfl rfl (by decide), rfl⟩ serves_defaultsServer

end RedisManager
end PSM
