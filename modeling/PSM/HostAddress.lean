import PSM.AgentState
import PSM.MessageAgreement

/-! The address of an agent's host, from the client to the page of agents.

The client reads the four bytes of its address as an `int`, and sends it as the token and as the
host's address. The server stores it as a signed number, and `int2ip` converts that to network order
with `htonl`, which takes no negative number. So an address whose last byte is 128 or more is stored
but cannot be shown (`survives_iff`), and while its record is there the page shows no agent at all
(`getAgentListToView_ip_isSome_iff`). -/

namespace PSM
open ByteStr ProtoWire Agent Redis RedisManager

/-! ## Addresses as numbers -/

/-- An address a.b.c.d. -/
structure IPv4Addr where
  a : UInt8
  b : UInt8
  c : UInt8
  d : UInt8

/-- The number that bytes in memory are on a little-endian machine. -/
def leNumber (bs : ByteStr) : Nat := bs.foldr (fun b n => b.toNat + 256 * n) 0

section
variable {bs : ByteStr}

theorem leNumber_lt (bs : ByteStr) : leNumber bs < 256 ^ bs.length := by
  induction bs with
  | nil => decide
  | cons b bs ih =>
    have hb := b.toNat_lt
    have hcons : leNumber (b :: bs) = b.toNat + 256 * leNumber bs := rfl
    rw [hcons, List.length_cons, Nat.pow_succ]
    omega

theorem putLe_leNumber (bs : ByteStr) : putLe bs.length (leNumber bs) = bs := by
  induction bs with
  | nil => rfl
  | cons b bs ih =>
    have hb := b.toNat_lt
    have hcons : leNumber (b :: bs) = b.toNat + 256 * leNumber bs := rfl
    have hhead : (leNumber (b :: bs)).toUInt8 = b := by
      apply UInt8.toNat_inj.mp
      simp only [hcons, Nat.toUInt8, UInt8.toNat_ofNat']
      omega
    have htail : leNumber (b :: bs) / 256 = leNumber bs := by
      rw [hcons]
      omega
    rw [List.length_cons, putLe, hhead, htail, ih]

end

namespace IPv4Addr

/-- The bytes of `S_addr` in memory. -/
def bytes (ip : IPv4Addr) : ByteStr := [ip.a, ip.b, ip.c, ip.d]

/-- `S_addr`, as the `int` that the client takes it for. -/
def sAddr (ip : IPv4Addr) : BitVec 32 := BitVec.ofNat 32 (leNumber ip.bytes)

end IPv4Addr

/-! ## The page -/

namespace RedisJob

/-- `socket.htonl` on a little-endian machine. -/
def htonl (x : Int) : Option Int :=
  if 0 ≤ x ∧ x < 2 ^ 32 then some (leNumber (putLe 4 x.toNat).reverse) else none

/-- `struct.pack("!I", x)`. -/
def packNetwork (x : Int) : Option ByteStr :=
  if 0 ≤ x ∧ x < 2 ^ 32 then some (putLe 4 x.toNat).reverse else none

def inetNtoa : ByteStr → Option ByteStr
  | [a, b, c, d] => some (decimal a.toNat ++ ascii "." ++ decimal b.toNat ++ ascii "." ++
      decimal c.toNat ++ ascii "." ++ decimal d.toNat)
  | _ => none

def int2ip (addr : Int) : Option ByteStr := do
  let addr ← htonl addr
  let packed ← packNetwork addr
  inetNtoa packed

/-- What `GetAgentListToView` puts under `ip`, agent by agent. An exception ends the loop. -/
def getAgentListToView_ip (s : Store HashValue) : Option (List ByteStr) :=
  (s.hash agentList).entries.mapM fun e => e.2.record?.bind fun agent => int2ip agent.hostIP

end RedisJob

/-- The text a.b.c.d. -/
def IPv4Addr.text (ip : IPv4Addr) : ByteStr :=
  decimal ip.a.toNat ++ ascii "." ++ decimal ip.b.toNat ++ ascii "." ++
    decimal ip.c.toNat ++ ascii "." ++ decimal ip.d.toNat

/-! ## The number of an address -/

namespace IPv4Addr

variable (ip : IPv4Addr)

theorem length_bytes : ip.bytes.length = 4 := rfl

theorem leNumber_bytes_lt : leNumber ip.bytes < 2 ^ 32 := by
  have h := leNumber_lt ip.bytes
  rw [ip.length_bytes] at h
  omega

/-- The last byte is the high one, with the sign. -/
theorem leNumber_bytes_lt_iff : leNumber ip.bytes < 2 ^ 31 ↔ ip.d < 128 := by
  have ha := ip.a.toNat_lt
  have hb := ip.b.toNat_lt
  have hc := ip.c.toNat_lt
  have hnumber : leNumber ip.bytes =
      ip.a.toNat + 256 * (ip.b.toNat + 256 * (ip.c.toNat + 256 * ip.d.toNat)) := rfl
  rw [hnumber, UInt8.lt_iff_toNat_lt]
  change _ ↔ ip.d.toNat < 128
  omega

theorem toNat_sAddr : ip.sAddr.toNat = leNumber ip.bytes :=
  (BitVec.toNat_ofNat _ _).trans (Nat.mod_eq_of_lt ip.leNumber_bytes_lt)

theorem toInt_sAddr_of_lt (h : ip.d < 128) : ip.sAddr.toInt = leNumber ip.bytes := by
  have hlt := ip.leNumber_bytes_lt_iff.mpr h
  rw [BitVec.toInt_eq_toNat_of_lt, toNat_sAddr]
  rw [toNat_sAddr]
  omega

theorem toInt_sAddr_neg (h : ¬ip.d < 128) : ip.sAddr.toInt < 0 := by
  have hlt := ip.leNumber_bytes_lt
  have hge := mt ip.leNumber_bytes_lt_iff.mp h
  rw [BitVec.toInt_eq_toNat_cond, toNat_sAddr, if_neg (by omega)]
  omega

theorem sAddr_toInt_range_iff : (0 ≤ ip.sAddr.toInt ∧ ip.sAddr.toInt < 2 ^ 32) ↔ ip.d < 128 := by
  by_cases h : ip.d < 128
  · have hlt := ip.leNumber_bytes_lt
    rw [ip.toInt_sAddr_of_lt h]
    exact iff_of_true (by omega) h
  · have hneg := ip.toInt_sAddr_neg h
    exact iff_of_false (by omega) h

end IPv4Addr

namespace RedisJob

theorem htonl_leNumber {bs : ByteStr} (hlen : bs.length = 4) :
    htonl (leNumber bs) = some ↑(leNumber bs.reverse) := by
  have hlt := leNumber_lt bs
  rw [hlen] at hlt
  have hbytes := putLe_leNumber bs
  rw [hlen] at hbytes
  rw [htonl, if_pos (by omega), Int.toNat_natCast, hbytes]

theorem packNetwork_leNumber {bs : ByteStr} (hlen : bs.length = 4) :
    packNetwork (leNumber bs) = some bs.reverse := by
  have hlt := leNumber_lt bs
  rw [hlen] at hlt
  have hbytes := putLe_leNumber bs
  rw [hlen] at hbytes
  rw [packNetwork, if_pos (by omega), Int.toNat_natCast, hbytes]

/-- The two changes of byte order undo each other. -/
theorem int2ip_leNumber {bs : ByteStr} (hlen : bs.length = 4) :
    int2ip (leNumber bs) = inetNtoa bs := by
  rw [int2ip, htonl_leNumber hlen, Option.bind_eq_bind, Option.bind_some,
    packNetwork_leNumber (bs.length_reverse.trans hlen), Option.bind_eq_bind, Option.bind_some,
    List.reverse_reverse]

theorem exists_bytes {x : Int} (h : 0 ≤ x ∧ x < 2 ^ 32) :
    ∃ ip : IPv4Addr, x = leNumber ip.bytes := by
  refine ⟨⟨x.toNat.toUInt8, (x.toNat / 256).toUInt8, (x.toNat / 256 / 256).toUInt8,
    (x.toNat / 256 / 256 / 256).toUInt8⟩, ?_⟩
  simp only [leNumber, IPv4Addr.bytes, List.foldr_cons, List.foldr_nil, Nat.toUInt8,
    UInt8.toNat_ofNat']
  omega

theorem int2ip_ne_none_iff {x : Int} : int2ip x ≠ none ↔ 0 ≤ x ∧ x < 2 ^ 32 := by
  constructor
  · intro h
    by_contra hx
    exact h (by rw [int2ip, htonl, if_neg hx]; rfl)
  · intro hx
    obtain ⟨ip, rfl⟩ := exists_bytes hx
    rw [int2ip_leNumber ip.length_bytes]
    exact Option.some_ne_none _

theorem int2ip_sAddr_iff (ip : IPv4Addr) : int2ip ip.sAddr.toInt = some ip.text ↔ ip.d < 128 := by
  rw [← ip.sAddr_toInt_range_iff, ← int2ip_ne_none_iff]
  constructor
  · intro h
    rw [h]
    exact Option.some_ne_none _
  · intro h
    rw [int2ip_ne_none_iff, ip.sAddr_toInt_range_iff] at h
    rw [ip.toInt_sAddr_of_lt h, int2ip_leNumber ip.length_bytes]
    rfl

/-- The page shows agents exactly when every address can be converted. -/
theorem getAgentListToView_ip_isSome_iff {s : Store HashValue} :
    (getAgentListToView_ip s).isSome ↔ ∀ e ∈ (s.hash agentList).entries,
      ∃ agent, e.2 = .json agent ∧ 0 ≤ agent.hostIP ∧ agent.hostIP < 2 ^ 32 := by
  have hone : ∀ v : HashValue, (v.record?.bind fun agent => int2ip agent.hostIP) ≠ none ↔
      ∃ agent, v = .json agent ∧ 0 ≤ agent.hostIP ∧ agent.hostIP < 2 ^ 32 := by
    intro v
    cases v with
    | json agent =>
      simp only [HashValue.record?, Option.bind_some, int2ip_ne_none_iff, HashValue.json.injEq,
        exists_eq_left']
    | _ => simp [HashValue.record?]
  rw [getAgentListToView_ip, isSome_mapM_iff]
  exact forall₂_congr fun e _ => hone e.2

end RedisJob

/-! ## The message -/

/-- The request fits a frame, whatever its numbers are. -/
theorem fitsFrame_agentIDRequest (tempAddr : BitVec 32) (ramSize : BitVec 64) :
    (ClientCall.agentIDRequest tempAddr ramSize).wire.FitsFrame := by
  have htoken := length_encode_varint_le 1 (int32Varint tempAddr)
  have hhost := length_encode_varint_le 2 (int32Varint tempAddr)
  have hram := length_encode_fixed64_le 3 ramSize
  have hsize : (ClientCall.agentIDRequest tempAddr ramSize).wire.byteSize ≤ 60 := by
    change (encodeFields [⟨1, .varint (int32Varint tempAddr)⟩,
      ⟨2, .varint (int32Varint tempAddr)⟩, ⟨3, .fixed64 ramSize⟩]).length ≤ 60
    simp only [encodeFields, List.flatMap_cons, List.flatMap_nil, List.length_append,
      List.length_nil]
    omega
  exact hsize.trans (by decide)

/-! ## The records -/

/-- The host address of every record is its token. -/
def HostsAreTokens (s : Store HashValue) : Prop :=
  ∀ token jv, recordAt s token = some jv → jv.hostIP = token

namespace HostsAreTokens

variable {s s' : Store HashValue} {token : Int} {jv : AgentRecord}

theorem of_empty (h : s.hash agentList = ∅) : HostsAreTokens s := by
  intro token jv hjv
  rw [recordAt, h, AList.lookup_empty] at hjv
  cases hjv

theorem of_hash (hs : HostsAreTokens s) (h : s'.hash agentList = s.hash agentList) :
    HostsAreTokens s' := by
  intro token jv hjv
  rw [recordAt, h] at hjv
  exact hs token jv hjv

theorem setRecord (hs : HostsAreTokens s) (h : jv.hostIP = token) :
    HostsAreTokens (setRecord s token jv) := by
  intro token' jv' hjv'
  rw [recordAt_setRecord] at hjv'
  split at hjv'
  · rename_i htoken
    cases hjv'
    rw [h, htoken]
  · exact hs token' jv' hjv'

theorem changeAgentState {change : AgentRecord → AgentRecord} {b : Bool}
    (hs : HostsAreTokens s) (hchange : ∀ jv, (change jv).hostIP = jv.hostIP)
    (h : (RedisManager.changeAgentState token change).run s = some (b, s')) :
    HostsAreTokens s' := by
  rw [changeAgentState_run] at h
  split at h
  · rename_i jv hjv
    cases h
    exact hs.setRecord ((hchange jv).trans (hs token jv hjv))
  · cases h
    exact hs

/-- A record that is there keeps its address, and a new one is given that of the request. -/
theorem initValue_hostIP (hs : HostsAreTokens s) {ramSize : BitVec 64}
    (h : initValue s token token ramSize = .json jv) : jv.hostIP = token := by
  obtain ⟨-, h⟩ | ⟨jvv, hjvv, rfl⟩ := initValue_eq_json_iff.mp h
  · rw [h]
    rfl
  · exact hs token jvv hjvv

end HostsAreTokens

namespace Server

variable {ι : Type} [DecidableEq ι]

/-- A request names the same number as the token and as the address. -/
def FromClient : ServerEvent ι → Prop
  | .agent _ _ (.agentIDRequest token hostIP _) => token = hostIP
  | _ => True

omit [DecidableEq ι] in
/-- The client's senders make no other request. -/
theorem fromClient_message (call : ClientCall) (i : ι) (now : Int) :
    FromClient (.agent i now call.toCase.message) := by
  cases call with
  | agentIDRequest tempAddr ramSize => rfl
  | _ => trivial

section
variable {s s' : Server ι} {ext : Externals} {e : ServerEvent ι} {es : List (ServerEvent ι)}

theorem hostsAreTokens_step (he : FromClient e) (hs : HostsAreTokens s.store)
    (h : (machine ext).step s e = some s') : HostsAreTokens s'.store := by
  cases change_of_step h with
  | disconnect hrun hrun' =>
    have hs' := hs.changeAgentState (by exact fun _ => rfl) hrun
    exact hs'.changeAgentState (by exact fun _ => rfl) hrun'
  | @agent i now msg _ hpacket =>
    replace h : AgentSocket.packetHandling ext now i s msg = some s' := h
    cases hpacket with
    | @register token hostIP ramSize jv _ hjv =>
      obtain rfl : token = hostIP := he
      exact hs.setRecord (hs.initValue_hostIP hjv)
    | refuse => exact hs
    | ready hrun => exact hs.changeAgentState (by exact fun _ => rfl) hrun
    | _ => exact hs.of_hash (sameAgents_packet (by trivial) h).hash
  | web hweb => exact hs.of_hash (webEffect_web hweb).sameAgents.hash
  | reorder => exact hs
  | _ => exact hs

theorem hostsAreTokens_run (hs : s.store.hash RedisManager.agentList = ∅)
    (hes : ∀ e ∈ es, FromClient e) (h : (machine ext).run s es = some s') :
    HostsAreTokens s'.store := by
  have hmeets := (EventMachine.meets_const_iff h).mpr hes
  have halways : (machine ext).Always (fun s => HostsAreTokens s.store) s es :=
    hmeets.always (I := fun s => HostsAreTokens s.store)
      (fun hs he hstep => hostsAreTokens_step he hs hstep) id (.of_empty hs)
  exact halways.last h

end

end Server

/-! ## The trip -/

/-- The client's request arrives, `InitAgent` stores what the server takes from it, and the page
shows the address of the token's record as it is written. -/
def Survives (area : Buffer bufSize) (ramSize : BitVec 64) (store : Store HashValue)
    (ip : IPv4Addr) : Prop :=
  ∃ token hostIP ramSize', (∃ packet, Arrives .agentSocket
      (AgentClientSocket.sendAgentIDRequest true area (some ip.sAddr) ramSize) packet ∧
      AgentSocket.received packet = some (.agentIDRequest token hostIP ramSize')) ∧
    ∃ store' jv, (initAgent token.toInt hostIP.toInt ramSize').run store = some (true, store') ∧
      recordAt store' token.toInt = some jv ∧ RedisJob.int2ip jv.hostIP = some ip.text

/-- The server takes exactly one request from the packet. -/
theorem received_agentIDRequest_iff {area : Buffer bufSize} {tempAddr : BitVec 32}
    {ramSize : BitVec 64} {request : AgentCase} :
    (∃ packet, Arrives .agentSocket
      (AgentClientSocket.sendAgentIDRequest true area (some tempAddr) ramSize) packet ∧
      AgentSocket.received packet = some request) ↔
      request = .agentIDRequest tempAddr tempAddr ramSize := by
  have hfits := fitsFrame_agentIDRequest tempAddr ramSize
  have hreceived := ClientCall.received_packet _ hfits
  constructor
  · rintro ⟨packet, harrives, hpacket⟩
    rw [(arrives_iff hfits).mp harrives, hreceived] at hpacket
    exact (Option.some.inj hpacket).symm
  · rintro rfl
    exact ⟨_, (arrives_iff hfits).mpr rfl, hreceived⟩

theorem survives_iff_int2ip {area : Buffer bufSize} {ramSize : BitVec 64}
    {store : Store HashValue} {ip : IPv4Addr} (hs : HostsAreTokens store)
    (hram : isFinite ramSize = true) :
    Survives area ramSize store ip ↔ RedisJob.int2ip ip.sAddr.toInt = some ip.text := by
  obtain ⟨jv, hvalue⟩ : ∃ jv, initValue store ip.sAddr.toInt ip.sAddr.toInt ramSize = .json jv :=
    exists_initValue hram
  have hhost : jv.hostIP = ip.sAddr.toInt := hs.initValue_hostIP hvalue
  have hinit : (initAgent ip.sAddr.toInt ip.sAddr.toInt ramSize).run store =
      some (true, setRecord store ip.sAddr.toInt jv) := by
    rw [initAgent_run, hvalue]
  have hjv : recordAt (setRecord store ip.sAddr.toInt jv) ip.sAddr.toInt = some jv := by
    rw [recordAt_setRecord, if_pos rfl]
  simp only [Survives, received_agentIDRequest_iff]
  constructor
  · rintro ⟨token, hostIP, ramSize', hrequest, store', jv', hrun, hjv', hip⟩
    cases hrequest
    cases hinit.symm.trans hrun
    cases hjv.symm.trans hjv'
    rw [hhost] at hip
    exact hip
  · intro hip
    exact ⟨_, _, _, rfl, _, jv, hinit, hjv, by rwa [hhost]⟩

section
variable {ι : Type} [DecidableEq ι] {s s' : Server ι} {ext : Externals}
  {es : List (ServerEvent ι)}

/-- After any run of the server with its clients, an address is shown as it is written exactly when
its last byte is below 128. A client's size of the memory is finite. -/
theorem survives_iff (hs : s.store.hash agentList = ∅) (hes : ∀ e ∈ es, Server.FromClient e)
    (hrun : (Server.machine ext).run s es = some s') (area : Buffer bufSize) {ramSize : BitVec 64}
    (hram : isFinite ramSize = true) (ip : IPv4Addr) :
    Survives area ramSize s'.store ip ↔ ip.d < 128 :=
  (survives_iff_int2ip (Server.hostsAreTokens_run hs hes hrun) hram).trans
    (RedisJob.int2ip_sAddr_iff ip)

end

/-- The host 10.0.0.7 has registered. -/
def oneHost : List (ServerEvent Nat) :=
  [.accept false 0, .agent 0 0 (.agentIDRequest 117440522 117440522 0#64)]

theorem survives_iff_oneHost : ∃ s', (Server.machine (.ofTexts [])).run (Server.init Store.empty)
      oneHost = some s' ∧ (Survives (Buffer.zero bufSize) 0#64 s'.store ⟨192, 168, 0, 20⟩ ↔
        (20 : UInt8) < 128) := by
  have hes : ∀ e ∈ oneHost, Server.FromClient e := by
    intro e he
    rcases List.mem_cons.mp he with rfl | he
    · trivial
    · cases List.mem_singleton.mp he
      rfl
  have hrun : ∃ s', (Server.machine (.ofTexts [])).run (Server.init Store.empty) oneHost =
      some s' := ⟨_, rfl⟩
  obtain ⟨s', hs'⟩ := hrun
  exact ⟨s', hs', survives_iff rfl hes hs' _ rfl _⟩

/-- The host 192.168.0.200 is stored with a negative address. -/
theorem not_survives_negative :
    ¬Survives (Buffer.zero bufSize) 0#64 Store.empty ⟨192, 168, 0, 200⟩ := by
  rw [survives_iff_int2ip (.of_empty rfl) rfl, RedisJob.int2ip_sAddr_iff]
  decide

end PSM
