import PSM.AgentState

/-! Registration while connections come and go.

The logic thread handles an `AgentIDRequest` in several steps: it looks the token up in the list,
gives it to the socket, stores the record, looks its number up, and responds. Between any two of
them the threads of the pool may list a socket that has been accepted, or take one off the list.
`tokens_exclusive` says that no two listed sockets come to share a token; `lookup_registered_iff`
says when a lookup finds a socket that has registered its token. -/

namespace PSM
open ByteStr Redis RedisManager

/-! ## The machine -/

/-- How far `AcceptProcess` of a socket is. Its packets arrive from the last step on. -/
inductive AcceptStep where
  | waiting
  | listed
  | receiving
  deriving DecidableEq

/-- How far `DisconnProcess` of a socket is. -/
inductive DisconnStep where
  | connected
  | isOff
  | recordingStopped
  | deleted
  deriving DecidableEq

/-- Where the logic thread is: between two packets, or at a step of an `AgentIDRequest`. -/
inductive LogicStep (ι : Type) where
  | idle
  | assign (i : ι) (token hostIP : Int) (ramSize : BitVec 64)
  | initAgent (i : ι) (token hostIP : Int) (ramSize : BitVec 64)
  | findAgentID (i : ι) (token : Int)
  | respond (i : ι) (token agentID : Int) (alreadyRunning : Bool)

/-- The servers with the positions of their threads. `completed` holds, for each socket, the tokens
of the requests that have been accepted and answered on its connection. -/
structure Registry (ι : Type) where
  server : Server ι
  logic : LogicStep ι
  accept : ι → AcceptStep
  disconn : ι → DisconnStep
  completed : ι → List Int

/-- A step of a completion that is handled without an error; the others do nothing. -/
inductive CompletionStep (ι : Type) where
  | addAgent (i : ι)
  | resetFields (i : ι)
  | changeIsOn (i : ι)
  | stopRecording (i : ι)
  | deleteAgent (i : ι)

/-- A completion makes a step, or the logic thread takes a packet from its queue, or resumes the
`AgentIDRequest` that it is at. It handles the other packets in one step. -/
inductive RegistryEvent (ι : Type) where
  | completion (e : CompletionStep ι)
  | handle (now : Int) (packet : Packet ι)
  | resume

/-- The socket that an agent's packet arrived on. -/
def Packet.owner? : Packet ι → Option ι
  | .agent i _ => some i
  | .webCommand _ => none

namespace Registry

variable {ι : Type}

def init (store : Store HashValue) : Registry ι where
  server := .init store
  logic := .idle
  accept _ := .waiting
  disconn _ := .connected
  completed _ := []

variable [DecidableEq ι]

/-- A socket is accepted at most once, as nothing calls `TcpSocket::Reuse`. -/
def completionStep (r : Registry ι) : CompletionStep ι → Option (Registry ι)
  | .addAgent i =>
    if r.accept i = .waiting then
      some { r with
        server := r.server.addAgent i
        accept := Function.update r.accept i .listed }
    else none
  | .resetFields i =>
    if r.accept i = .listed then
      some { r with
        server := r.server.setSocket i {}
        accept := Function.update r.accept i .receiving }
    else none
  | .changeIsOn i =>
    if r.accept i ≠ .waiting ∧ r.disconn i = .connected then do
      let (_, server) ← r.server.redis (changeAgentState_isOn (r.server.socket i).token false)
      some { r with server, disconn := Function.update r.disconn i .isOff }
    else none
  | .stopRecording i =>
    if r.disconn i = .isOff then do
      let (_, server) ← r.server.redis (changeAgentState_stopRecording (r.server.socket i).token)
      some { r with server, disconn := Function.update r.disconn i .recordingStopped }
    else none
  | .deleteAgent i =>
    if r.disconn i = .recordingStopped then
      some { r with
        server := r.server.deleteAgent i
        disconn := Function.update r.disconn i .deleted }
    else none

def handle (ext : Externals) (now : Int) (r : Registry ι) : Packet ι → Option (Registry ι)
  | .agent i (.agentIDRequest token hostIP ramSize) =>
    match r.server.getAgentSocketByToken token with
    | some _ => some { r with logic := .respond i token (-1) true }
    | none => some { r with logic := .assign i token hostIP ramSize }
  | packet =>
    (r.server.step ext (AgentApp.handler now packet)).map fun server => { r with server }

def resume (r : Registry ι) : Option (Registry ι) :=
  match r.logic with
  | .idle => none
  | .assign i token hostIP ramSize =>
    some { r with
      server := r.server.setSocket i { r.server.socket i with token, hostIP }
      logic := .initAgent i token hostIP ramSize }
  | .initAgent i token hostIP ramSize => do
    let (_, server) ← r.server.redis (RedisManager.initAgent token hostIP ramSize)
    some { r with server, logic := .findAgentID i token }
  | .findAgentID i token => do
    let (agentID, server) ← r.server.redis (getAgentID token)
    some { r with
      server := server.setSocket i { server.socket i with agentID }
      logic := .respond i token agentID false }
  | .respond i token agentID alreadyRunning =>
    some { r with
      server := r.server.send i (.agentIDResponse agentID alreadyRunning)
      logic := .idle
      completed := if alreadyRunning then r.completed else
        Function.update r.completed i (r.completed i ++ [token]) }

def step (ext : Externals) (r : Registry ι) : RegistryEvent ι → Option (Registry ι)
  | .completion e => r.completionStep e
  | .handle now packet =>
    match r.logic with
    | .idle =>
      if ∀ i ∈ packet.owner?, r.accept i = .receiving then r.handle ext now packet else none
    | _ => none
  | .resume => r.resume

def machine (ext : Externals) : EventMachine (Registry ι) (RegistryEvent ι) := ⟨step ext⟩

/-- With nothing in between, the steps of a request are the handler. -/
theorem agentIDRequest_alone {r : Registry ι} {ext : Externals} {now token hostIP : Int} {i : ι}
    {ramSize : BitVec 64} {server : Server ι} (hidle : r.logic = .idle)
    (hi : r.accept i = .receiving)
    (h : AgentSocket.packetHandling ext now i r.server (.agentIDRequest token hostIP ramSize) =
      some server) :
    ∃ n r', (machine ext).run r (.handle now (.agent i (.agentIDRequest token hostIP ramSize)) ::
      List.replicate n .resume) = some r' ∧ r'.logic = .idle ∧ r'.server = server := by
  have hlook : (machine ext).step r (.handle now (.agent i (.agentIDRequest token hostIP ramSize)))
      = r.handle ext now (.agent i (.agentIDRequest token hostIP ramSize)) := by
    simp [machine, step, hidle, Packet.owner?, hi]
  have hresume (r : Registry ι) : (machine ext).step r .resume = r.resume := rfl
  cases hfind : r.server.getAgentSocketByToken token with
  | some j =>
    cases (Server.agentIDRequest_eq_refused hfind).symm.trans h
    refine ⟨1, { r with
      server := r.server.send i (.agentIDResponse (-1) true), logic := .idle }, ?_, rfl, rfl⟩
    simp [hlook, handle, hfind, hresume, resume]
  | none =>
    obtain ⟨jv, hjv, rfl⟩ := Server.agentIDRequest_eq_some hfind h
    have hinit {s : Server ι} (hs : s.store = r.server.store) :
        s.redis (RedisManager.initAgent token hostIP ramSize) =
          some (true, { s with store := setRecord s.store token jv }) :=
      Server.redis_eq (initAgent_run.trans (by rw [hs, hjv]))
    have hget {store : Store HashValue} :
        agentIDAt (setRecord store token jv) token = some jv.agentNumber :=
      agentIDAt_eq (recordAt_setRecord.trans (if_pos rfl))
    refine ⟨4, { r with
      server := r.server.registered i token hostIP jv
      logic := .idle
      completed := Function.update r.completed i (r.completed i ++ [token]) }, ?_, rfl, rfl⟩
    simp [hlook, handle, hfind, hresume, resume, hinit, Server.redis_getAgentID, hget,
      Server.registered, Server.setSocket, List.replicate]

end Registry

/-! ## The roll of the listed sockets -/

/-- What registration is about: the listed sockets, the token that each socket has now, the tokens
that it has been given, the sockets whose packets arrive, and the request that has found its token
free. -/
@[ext] structure Roll (ι : Type) where
  listed : List ι
  token : ι → Int
  given : ι → List Int
  receiving : ι → Prop
  pending : Option (ι × Int)

namespace Roll

variable {ι : Type} [DecidableEq ι]

/-- No listed socket before `i` has the token -1. -/
def Leads (v : Roll ι) (i : ι) : Prop :=
  v.listed.find? (fun j => j = i ∨ v.token j = -1) = some i

/-- One step as far as the roll goes. -/
inductive Change (v : Roll ι) : Roll ι → Prop where
  | same : Change v v
  | list (i : ι) (hi : ¬v.receiving i) : Change v { v with listed := v.listed ++ [i] }
  | receive (i : ι) (hi : ¬v.receiving i) : Change v { v with
      token := Function.update v.token i (-1)
      receiving := fun j => j = i ∨ v.receiving j }
  | delist (i : ι) : Change v { v with listed := v.listed.filter (· ≠ i) }
  | look (i : ι) (token : Int) (hi : v.receiving i) (hfree : ∀ j ∈ v.listed, v.token j ≠ token) :
      Change v { v with pending := some (i, token) }
  | give (i : ι) (token : Int) (hi : v.pending = some (i, token)) : Change v { v with
      token := Function.update v.token i token
      given := Function.update v.given i (v.given i ++ [token])
      pending := none }

/-- A socket has the token that it has been given last. Those that share a token share -1. A socket
that is to get -1, or has been given it, is ahead of the sockets that have it because they have not
registered. -/
structure Inv (v : Roll ι) : Prop where
  token : ∀ i, v.token i = (v.given i).getLastD (-1)
  given : ∀ i, v.given i ≠ [] → v.receiving i
  exclusive : ∀ i ∈ v.listed, ∀ j ∈ v.listed, i ≠ j → v.token i = v.token j → v.token i = -1
  receiving : ∀ i token, v.pending = some (i, token) → v.receiving i
  pending : ∀ i token, v.pending = some (i, token) →
    ∀ j ∈ v.listed, v.token j = token → v.given j = []
  leads : ∀ i ∈ v.listed, v.given i ≠ [] → v.token i = -1 → v.Leads i
  pendingLeads : ∀ i ∈ v.listed, v.pending = some (i, -1) → v.Leads i

section
variable {v v' : Roll ι} {i j : ι}

omit [DecidableEq ι] in
/-- The first element with a property is also the first with a stronger one, if it has that. -/
theorem find?_of_imp {l : List ι} {p q : ι → Bool} (h : l.find? p = some i)
    (himp : ∀ j, q j = true → p j = true) (hi : q i = true) : l.find? q = some i := by
  obtain ⟨-, as, bs, rfl, hbefore⟩ := List.find?_eq_some_iff_append.mp h
  refine List.find?_eq_some_iff_append.mpr ⟨hi, as, bs, rfl, fun j hj => ?_⟩
  have hp := hbefore j hj
  cases hq : q j with
  | false => rfl
  | true =>
    rw [himp j hq] at hp
    exact hp

theorem Leads.list (h : v.Leads i) : Leads { v with listed := v.listed ++ [j] } i := by
  unfold Leads at h ⊢
  rw [List.find?_append, h]
  rfl

theorem Leads.delist (h : v.Leads i) (hij : i ≠ j) :
    Leads { v with listed := v.listed.filter (· ≠ j) } i := by
  unfold Leads at h ⊢
  rw [List.find?_filter]
  exact find?_of_imp h (by simp) (by simpa using hij)

/-- A socket that is given another token than -1, or is `i` itself, does not get ahead of `i`. -/
theorem Leads.give {token : Int} (h : v.Leads i) (hj : token = -1 → j = i) :
    Leads { v with token := Function.update v.token j token } i := by
  refine find?_of_imp h (fun k hk => ?_) (by simp)
  by_cases hkj : k = j
  · subst hkj
    simp only [Function.update_self, Bool.decide_or, Bool.or_eq_true, decide_eq_true_eq] at hk
    exact decide_eq_true (.inl (hk.elim id hj))
  · simpa [hkj] using hk

theorem leads_of_free (hi : i ∈ v.listed) (hfree : ∀ j ∈ v.listed, v.token j ≠ -1) :
    v.Leads i := by
  unfold Leads
  cases hfind : v.listed.find? (fun j => j = i ∨ v.token j = -1) with
  | none => exact absurd (List.find?_eq_none.mp hfind i hi) (by simp)
  | some j =>
    have hj : j = i ∨ v.token j = -1 := by simpa using List.find?_some hfind
    rw [hj.resolve_right (hfree j (List.mem_of_find?_eq_some hfind))]

theorem Inv.token_of_given_eq_nil (h : v.Inv) (hi : v.given i = []) : v.token i = -1 := by
  rw [h.token, hi]
  rfl

theorem Inv.given_eq_nil (h : v.Inv) (hi : ¬v.receiving i) : v.given i = [] :=
  by_contra fun hne => hi (h.given i hne)

theorem Inv.list {k : ι} (h : v.Inv) (hk : ¬v.receiving k) :
    Inv { v with listed := v.listed ++ [k] } := by
  have hgiven := h.given_eq_nil hk
  have htoken := h.token_of_given_eq_nil hgiven
  have hmem : ∀ j ∈ v.listed ++ [k], j ∈ v.listed ∨ j = k := by simp
  refine ⟨h.token, h.given, ?_, h.receiving, ?_, ?_, ?_⟩
  · intro i hi j hj hij heq
    rcases hmem i hi with hi | rfl
    · rcases hmem j hj with hj | rfl
      · exact h.exclusive i hi j hj hij heq
      · exact heq.trans htoken
    · exact htoken
  · intro i token hpending j hj heq
    rcases hmem j hj with hj | rfl
    · exact h.pending i token hpending j hj heq
    · exact hgiven
  · intro i hi hne heq
    rcases hmem i hi with hi | rfl
    · exact (h.leads i hi hne heq).list
    · exact absurd hgiven hne
  · intro i hi hpending
    rcases hmem i hi with hi | rfl
    · exact (h.pendingLeads i hi hpending).list
    · exact absurd (h.receiving i _ hpending) hk

theorem Inv.receive {k : ι} (h : v.Inv) (hk : ¬v.receiving k) : Inv { v with
    token := Function.update v.token k (-1)
    receiving := fun j => j = k ∨ v.receiving j } := by
  have htoken : Function.update v.token k (-1) = v.token :=
    Function.update_eq_self_iff.mpr (h.token_of_given_eq_nil (h.given_eq_nil hk)).symm
  have hreceiving : ∀ j, v.receiving j → j = k ∨ v.receiving j := fun j => .inr
  simp only [htoken]
  exact ⟨h.token, fun i hi => hreceiving i (h.given i hi), h.exclusive,
    fun i token hi => hreceiving i (h.receiving i token hi), h.pending, h.leads, h.pendingLeads⟩

theorem Inv.delist (h : v.Inv) (k : ι) : Inv { v with listed := v.listed.filter (· ≠ k) } := by
  have hmem : ∀ j ∈ v.listed.filter (· ≠ k), j ∈ v.listed ∧ j ≠ k := by simp
  refine ⟨h.token, h.given, ?_, h.receiving, ?_, ?_, ?_⟩
  · intro i hi j hj
    exact h.exclusive i (hmem i hi).1 j (hmem j hj).1
  · intro i token hpending j hj
    exact h.pending i token hpending j (hmem j hj).1
  · intro i hi hne heq
    exact (h.leads i (hmem i hi).1 hne heq).delist (hmem i hi).2
  · intro i hi hpending
    exact (h.pendingLeads i (hmem i hi).1 hpending).delist (hmem i hi).2

theorem Inv.look {k : ι} {token : Int} (h : v.Inv) (hk : v.receiving k)
    (hfree : ∀ j ∈ v.listed, v.token j ≠ token) : Inv { v with pending := some (k, token) } := by
  refine ⟨h.token, h.given, h.exclusive, ?_, ?_, h.leads, ?_⟩
  · rintro i t ⟨⟩
    exact hk
  · rintro i t ⟨⟩ j hj heq
    exact absurd heq (hfree j hj)
  · rintro i hi heq
    obtain ⟨rfl, rfl⟩ : k = i ∧ token = -1 := by simpa using heq
    exact leads_of_free hi hfree

theorem Inv.give {k : ι} {token : Int} (h : v.Inv) (hk : v.pending = some (k, token)) :
    Inv { v with
      token := Function.update v.token k token
      given := Function.update v.given k (v.given k ++ [token])
      pending := none } := by
  have htoken : ∀ j, j ≠ k → Function.update v.token k token j = v.token j := fun j hj => by
    simp [hj]
  have hgiven : ∀ j, j ≠ k →
      Function.update v.given k (v.given k ++ [token]) j = v.given j := fun j hj => by simp [hj]
  -- The other listed sockets that have the token have not been given it.
  have hother : ∀ j ∈ v.listed, v.token j = token → v.token j = -1 := fun j hj heq =>
    h.token_of_given_eq_nil (h.pending k token hk j hj heq)
  refine ⟨?_, ?_, ?_, nofun, nofun, ?_, nofun⟩
  · intro i
    by_cases hi : i = k
    · simp [hi]
    · simpa [hi] using h.token i
  · intro i hne
    by_cases hi : i = k
    · exact hi ▸ h.receiving k token hk
    · dsimp only at hne
      rw [hgiven i hi] at hne
      exact h.given i hne
  · intro i hi j hj hij heq
    dsimp only at heq ⊢
    by_cases hik : i = k
    · subst hik
      rw [htoken j hij.symm] at heq
      rw [heq]
      rw [Function.update_self] at heq
      exact hother j hj heq.symm
    · rw [htoken i hik] at heq ⊢
      by_cases hjk : j = k
      · subst hjk
        rw [Function.update_self] at heq
        exact hother i hi heq
      · rw [htoken j hjk] at heq
        exact h.exclusive i hi j hj hij heq
  · intro i hi hne heq
    dsimp only at hne heq
    by_cases hik : i = k
    · subst hik
      rw [Function.update_self] at heq
      subst heq
      exact (h.pendingLeads i hi hk).give fun _ => rfl
    · rw [htoken i hik] at heq
      rw [hgiven i hik] at hne
      refine (h.leads i hi hne heq).give fun hneg => absurd ?_ hne
      exact h.pending k token hk i hi (heq.trans hneg.symm)

/-- A step keeps the invariant. -/
theorem Inv.change (h : v.Inv) (hchange : Change v v') : v'.Inv := by
  cases hchange with
  | same => exact h
  | list _ hk => exact h.list hk
  | receive _ hk => exact h.receive hk
  | delist k => exact h.delist k
  | look _ _ hk hfree => exact h.look hk hfree
  | give _ _ hk => exact h.give hk

end

end Roll

/-! ## The machine keeps the roll -/

namespace LogicStep

variable {ι : Type} [DecidableEq ι]

/-- The request that has found its token free. -/
def pending : LogicStep ι → Option (ι × Int)
  | .assign i token .. => some (i, token)
  | _ => none

/-- The token that the socket has been given by the request being handled. -/
def given (j : ι) : LogicStep ι → List Int
  | .initAgent i token .. => if j = i then [token] else []
  | .findAgentID i token => if j = i then [token] else []
  | .respond i token _ false => if j = i then [token] else []
  | _ => []

end LogicStep

namespace Registry

variable {ι : Type} [DecidableEq ι] {r r' : Registry ι} {ext : Externals}

def roll (r : Registry ι) : Roll ι where
  listed := r.server.agentList
  token i := (r.server.socket i).token
  given i := r.completed i ++ r.logic.given i
  receiving i := r.accept i = .receiving
  pending := r.logic.pending

theorem roll_init {store : Store HashValue} : (init store : Registry ι).roll.Inv :=
  ⟨fun _ => rfl, fun _ h => absurd rfl h, nofun, nofun, nofun, nofun, nofun⟩

omit [DecidableEq ι] in
theorem redis_same {s s' : Server ι} {p : Client HashValue α} {a : α}
    (h : s.redis p = some (a, s')) : s'.agentList = s.agentList ∧ s'.socket = s.socket := by
  obtain ⟨store, -, rfl⟩ := Server.redis_eq_some_iff.mp h
  exact ⟨rfl, rfl⟩

/-- A step that changes the rest of the state. -/
theorem change_of_same (hlist : r'.server.agentList = r.server.agentList)
    (htoken : ∀ i, (r'.server.socket i).token = (r.server.socket i).token)
    (hgiven : ∀ i, r'.completed i ++ r'.logic.given i = r.completed i ++ r.logic.given i)
    (haccept : r'.accept = r.accept) (hpending : r'.logic.pending = r.logic.pending) :
    Roll.Change r.roll r'.roll := by
  have hroll : r'.roll = r.roll :=
    Roll.ext hlist (funext htoken) (funext hgiven) (by simp only [roll, haccept]) hpending
  rw [hroll]
  exact .same

theorem completionStep_change {e : CompletionStep ι} (h : r.completionStep e = some r') :
    Roll.Change r.roll r'.roll := by
  cases e with
  | addAgent i =>
    obtain ⟨hi, heq⟩ := Option.ite_none_right_eq_some.mp h
    cases heq
    have hreceiving : ∀ j,
        Function.update r.accept i .listed j = .receiving ↔ r.accept j = .receiving := by
      intro j
      by_cases hj : j = i
      · simp [hj, hi]
      · simp [hj]
    have hroll : roll { r with
        server := r.server.addAgent i
        accept := Function.update r.accept i .listed } =
          { r.roll with listed := r.roll.listed ++ [i] } :=
      Roll.ext rfl rfl rfl (funext fun j => propext (hreceiving j)) rfl
    rw [hroll]
    exact .list i (by simp [roll, hi])
  | resetFields i =>
    obtain ⟨hi, heq⟩ := Option.ite_none_right_eq_some.mp h
    cases heq
    have hreceiving : ∀ j, Function.update r.accept i .receiving j = .receiving ↔
        j = i ∨ r.accept j = .receiving := by
      intro j
      by_cases hj : j = i
      · simp [hj]
      · simp [hj]
    have htoken : ∀ j, ((r.server.setSocket i {}).socket j).token =
        Function.update r.roll.token i (-1) j := by
      intro j
      by_cases hj : j = i
      · simp [Server.setSocket, hj]
      · simp [Server.setSocket, roll, hj]
    have hroll : roll { r with
        server := r.server.setSocket i {}
        accept := Function.update r.accept i .receiving } = { r.roll with
          token := Function.update r.roll.token i (-1)
          receiving := fun j => j = i ∨ r.roll.receiving j } :=
      Roll.ext rfl (funext htoken) rfl (funext fun j => propext (hreceiving j)) rfl
    rw [hroll]
    exact .receive i (by simp [roll, hi])
  | changeIsOn i =>
    obtain ⟨-, h⟩ := Option.ite_none_right_eq_some.mp h
    obtain ⟨⟨b, server⟩, hredis, heq⟩ := Option.bind_eq_some_iff.mp h
    cases heq
    obtain ⟨hlist, hsocket⟩ := redis_same hredis
    exact change_of_same hlist (fun j => by rw [hsocket]) (fun _ => rfl) rfl rfl
  | stopRecording i =>
    obtain ⟨-, h⟩ := Option.ite_none_right_eq_some.mp h
    obtain ⟨⟨b, server⟩, hredis, heq⟩ := Option.bind_eq_some_iff.mp h
    cases heq
    obtain ⟨hlist, hsocket⟩ := redis_same hredis
    exact change_of_same hlist (fun j => by rw [hsocket]) (fun _ => rfl) rfl rfl
  | deleteAgent i =>
    obtain ⟨-, heq⟩ := Option.ite_none_right_eq_some.mp h
    cases heq
    exact .delist i

/-- The packets that the logic thread handles in one step. -/
theorem whole_change {now : Int} {packet : Packet ι} {server : Server ι}
    (hpacket : ∀ i token hostIP ramSize, packet ≠ .agent i (.agentIDRequest token hostIP ramSize))
    (h : r.server.step ext (AgentApp.handler now packet) = some server) :
    Roll.Change r.roll ({ r with server } : Registry ι).roll := by
  cases packet with
  | agent i msg =>
    replace h : AgentSocket.packetHandling ext now i r.server msg = some server := h
    cases msg with
    | agentIDRequest token hostIP ramSize => exact absurd rfl (hpacket i token hostIP ramSize)
    | agentReady =>
      obtain ⟨⟨b, t⟩, hredis, heq⟩ := Option.bind_eq_some_iff.mp h
      cases heq
      obtain ⟨hlist, hsocket⟩ := redis_same hredis
      exact change_of_same hlist (fun j => by rw [← hsocket]; rfl) (fun _ => rfl) rfl rfl
    | _ =>
      have hsame := Server.sameAgents_packet (by trivial) h
      exact change_of_same hsame.agentList hsame.token (fun _ => rfl) rfl rfl
  | webCommand msg =>
    obtain ⟨⟨response, t⟩, hweb, rfl⟩ := Option.map_eq_some_iff.mp h
    have heffect := Server.webEffect_web hweb
    exact change_of_same heffect.agentList (fun i => by rw [heffect.socket]) (fun _ => rfl) rfl rfl

/-- A packet taken from the queue. -/
theorem handle_change {now : Int} {packet : Packet ι} (hidle : r.logic = .idle)
    (howner : ∀ i ∈ packet.owner?, r.accept i = .receiving)
    (h : r.handle ext now packet = some r') : Roll.Change r.roll r'.roll := by
  unfold handle at h
  split at h
  · rename_i i token hostIP ramSize
    split at h
    · cases h
      exact change_of_same rfl (fun _ => rfl) (fun _ => by rw [hidle]; rfl) rfl (by rw [hidle]; rfl)
    · rename_i hnone
      cases h
      have hfree : ∀ j ∈ r.server.agentList, (r.server.socket j).token ≠ token := by
        simpa using List.find?_eq_none.mp hnone
      have hroll : roll { r with logic := .assign i token hostIP ramSize } =
          { r.roll with pending := some (i, token) } :=
        Roll.ext rfl rfl (funext fun j => by simp only [roll, hidle]; rfl) rfl rfl
      rw [hroll]
      exact .look i token (howner i rfl) hfree
  · rename_i hpacket
    obtain ⟨server, hstep, rfl⟩ := Option.map_eq_some_iff.mp h
    exact whole_change hpacket hstep

/-- A step of an `AgentIDRequest`. -/
theorem resume_change (h : r.resume = some r') : Roll.Change r.roll r'.roll := by
  unfold resume at h
  split at h
  · cases h
  · rename_i i token hostIP ramSize hlogic
    cases h
    have htoken : ∀ j, ((r.server.setSocket i
        { r.server.socket i with token, hostIP }).socket j).token =
          Function.update r.roll.token i token j := by
      intro j
      by_cases hj : j = i
      · simp [Server.setSocket, hj]
      · simp [Server.setSocket, roll, hj]
    have hgiven : ∀ j, r.completed j ++ (LogicStep.initAgent i token hostIP ramSize).given j =
        Function.update r.roll.given i (r.roll.given i ++ [token]) j := by
      intro j
      by_cases hj : j = i
      · simp [LogicStep.given, roll, hlogic, hj]
      · simp [LogicStep.given, roll, hlogic, hj]
    have hroll : roll { r with
        server := r.server.setSocket i { r.server.socket i with token, hostIP }
        logic := .initAgent i token hostIP ramSize } = { r.roll with
          token := Function.update r.roll.token i token
          given := Function.update r.roll.given i (r.roll.given i ++ [token])
          pending := none } :=
      Roll.ext rfl (funext htoken) (funext hgiven) rfl rfl
    rw [hroll]
    exact .give i token (by rw [roll, hlogic]; rfl)
  · rename_i i token hostIP ramSize hlogic
    obtain ⟨⟨b, server⟩, hredis, heq⟩ := Option.bind_eq_some_iff.mp h
    cases heq
    obtain ⟨hlist, hsocket⟩ := redis_same hredis
    exact change_of_same hlist (fun j => by rw [hsocket]) (fun j => by rw [hlogic]; rfl) rfl
      (by rw [hlogic]; rfl)
  · rename_i i token hlogic
    obtain ⟨⟨agentID, server⟩, hredis, heq⟩ := Option.bind_eq_some_iff.mp h
    cases heq
    obtain ⟨hlist, hsocket⟩ := redis_same hredis
    refine change_of_same hlist (fun j => ?_) (fun j => by rw [hlogic]; rfl) rfl
      (by rw [hlogic]; rfl)
    by_cases hj : j = i
    · simp [Server.setSocket, hj, hsocket]
    · simp [Server.setSocket, hj, hsocket]
  · rename_i i token agentID alreadyRunning hlogic
    cases h
    refine change_of_same rfl (fun _ => rfl) (fun j => ?_) rfl (by rw [hlogic]; rfl)
    rw [hlogic]
    cases alreadyRunning with
    | true => rfl
    | false =>
      by_cases hj : j = i
      · simp [LogicStep.given, hj]
      · simp [LogicStep.given, hj]

theorem step_change {e : RegistryEvent ι} (h : (machine ext).step r e = some r') :
    Roll.Change r.roll r'.roll := by
  cases e with
  | completion e => exact completionStep_change h
  | handle now packet =>
    simp only [machine, step] at h
    split at h
    · rename_i hidle
      obtain ⟨howner, h⟩ := Option.ite_none_right_eq_some.mp h
      exact handle_change hidle howner h
    · cases h
  | resume => exact resume_change h

theorem roll_run {store : Store HashValue} {es : List (RegistryEvent ι)}
    (hrun : (machine ext).run (init store) es = some r) : r.roll.Inv :=
  EventMachine.run_invariant (I := fun r : Registry ι => r.roll.Inv)
    (fun h hstep => h.change (step_change hstep)) roll_init hrun

/-! ## Refused requests -/

/-- What the completions leave alone while the logic thread waits for its turn: where that thread
is, the sockets whose packets arrive, and the records of the tokens that no disconnected socket
has. -/
structure Beside (r : Registry ι) (cs : List (CompletionStep ι)) (r' : Registry ι) : Prop where
  logic : r'.logic = r.logic
  accept : ∀ i, r.accept i = .receiving → r'.accept i = .receiving
  socket : ∀ i, r.accept i = .receiving → r'.server.socket i = r.server.socket i
  token : ∀ i, (r'.server.socket i).token = (r.server.socket i).token
  record : ∀ token, (∀ i, .changeIsOn i ∈ cs ∨ .stopRecording i ∈ cs →
    (r.server.socket i).token ≠ token) →
      recordAt r'.server.store token = recordAt r.server.store token

omit [DecidableEq ι] in
theorem beside_of_redis {p : Client HashValue α} {a : α} {server : Server ι}
    {disconn : ι → DisconnStep} {cs : List (CompletionStep ι)}
    (hp : ∀ a store, p.run r.server.store = some (a, store) → ∀ token,
      (∀ i, .changeIsOn i ∈ cs ∨ .stopRecording i ∈ cs → (r.server.socket i).token ≠ token) →
        recordAt store token = recordAt r.server.store token)
    (h : r.server.redis p = some (a, server)) : Beside r cs { r with server, disconn } := by
  obtain ⟨store, hstore, rfl⟩ := Server.redis_eq_some_iff.mp h
  exact ⟨rfl, fun _ => id, fun _ _ => rfl, fun _ => rfl, hp a store hstore⟩

omit [DecidableEq ι] in
/-- The record that is changed is that of a socket whose disconnection is under way. -/
theorem beside_of_changeAgentState {change : AgentRecord → AgentRecord} {b : Bool} {i : ι}
    {server : Server ι} {disconn : ι → DisconnStep} {cs : List (CompletionStep ι)}
    (hi : .changeIsOn i ∈ cs ∨ .stopRecording i ∈ cs)
    (h : r.server.redis (changeAgentState (r.server.socket i).token change) = some (b, server)) :
    Beside r cs { r with server, disconn } := by
  refine beside_of_redis (fun a store hstore token htoken => ?_) h
  obtain ⟨_, _, hrun, -, hrecord⟩ := recordAt_changeAgentState (s := r.server.store)
  cases hstore.symm.trans hrun
  rw [hrecord, if_neg (htoken i hi).symm]

theorem completionStep_beside {e : CompletionStep ι} (hr : r.roll.Inv)
    (h : r.completionStep e = some r') : Beside r [e] r' := by
  cases e with
  | addAgent i =>
    obtain ⟨hi, heq⟩ := Option.ite_none_right_eq_some.mp h
    cases heq
    refine ⟨rfl, fun j hj => ?_, fun _ _ => rfl, fun _ => rfl, fun _ _ => rfl⟩
    have hji : j ≠ i := fun e => by rw [e, hi] at hj; cases hj
    simpa [hji] using hj
  | resetFields i =>
    obtain ⟨hi, heq⟩ := Option.ite_none_right_eq_some.mp h
    cases heq
    have hne : ∀ j, r.accept j = .receiving → j ≠ i := fun j hj e => by rw [e, hi] at hj; cases hj
    have htoken : (r.server.socket i).token = -1 :=
      hr.token_of_given_eq_nil (hr.given_eq_nil (by simp [roll, hi]))
    refine ⟨rfl, fun j hj => by simpa [hne j hj] using hj,
      fun j hj => by simp [Server.setSocket, hne j hj], fun j => ?_, fun _ _ => rfl⟩
    by_cases hj : j = i
    · simp [Server.setSocket, hj, htoken]
    · simp [Server.setSocket, hj]
  | changeIsOn i =>
    obtain ⟨-, h⟩ := Option.ite_none_right_eq_some.mp h
    obtain ⟨⟨b, server⟩, hredis, heq⟩ := Option.bind_eq_some_iff.mp h
    cases heq
    exact beside_of_changeAgentState (.inl (List.mem_singleton_self _)) hredis
  | stopRecording i =>
    obtain ⟨-, h⟩ := Option.ite_none_right_eq_some.mp h
    obtain ⟨⟨b, server⟩, hredis, heq⟩ := Option.bind_eq_some_iff.mp h
    cases heq
    exact beside_of_changeAgentState (.inr (List.mem_singleton_self _)) hredis
  | deleteAgent i =>
    obtain ⟨-, heq⟩ := Option.ite_none_right_eq_some.mp h
    cases heq
    exact ⟨rfl, fun _ => id, fun _ _ => rfl, fun _ => rfl, fun _ _ => rfl⟩

theorem completions_beside {cs : List (CompletionStep ι)} (hr : r.roll.Inv)
    (h : (machine ext).run r (cs.map .completion) = some r') : Beside r cs r' := by
  induction cs generalizing r with
  | nil =>
    cases h
    exact ⟨rfl, fun _ => id, fun _ _ => rfl, fun _ => rfl, fun _ _ => rfl⟩
  | cons c cs ih =>
    obtain ⟨t, hstep, hrest⟩ := Option.bind_eq_some_iff.mp h
    have hone := completionStep_beside hr hstep
    have hmore := ih (hr.change (step_change hstep)) hrest
    refine ⟨hmore.logic.trans hone.logic, fun i hi => hmore.accept i (hone.accept i hi),
      fun i hi => (hmore.socket i (hone.accept i hi)).trans (hone.socket i hi),
      fun i => (hmore.token i).trans (hone.token i), fun token htoken => ?_⟩
    refine (hmore.record token fun i hi => ?_).trans (hone.record token fun i hi => ?_)
    · rw [hone.token i]
      exact htoken i (hi.imp (List.mem_cons_of_mem _) (List.mem_cons_of_mem _))
    · refine htoken i (hi.imp ?_ ?_) <;>
        exact fun hi => List.mem_singleton.mp hi ▸ List.mem_cons_self

/-- No two listed sockets share a token, and a request for the token of a listed socket is refused,
whatever the completions do meanwhile: it is answered as already running, and neither the
requester's fields nor a record is changed by it. -/
theorem tokens_exclusive {store : Store HashValue} {es : List (RegistryEvent ι)}
    (hrun : (machine ext).run (init store) es = some r) :
    (∀ i ∈ r.server.agentList, ∀ j ∈ r.server.agentList, i ≠ j →
      (r.server.socket i).token = (r.server.socket j).token → (r.server.socket i).token = -1) ∧
    ∀ now i token hostIP ramSize r₁ r₂, ∀ cs : List (CompletionStep ι),
      (∃ j ∈ r.server.agentList, (r.server.socket j).token = token) →
      (machine ext).step r (.handle now (.agent i (.agentIDRequest token hostIP ramSize))) =
        some r₁ →
      (machine ext).run r₁ (cs.map .completion) = some r₂ →
      r₁.server = r.server ∧ r₂.server.socket i = r.server.socket i ∧
      (∀ t, (∀ j, .changeIsOn j ∈ cs ∨ .stopRecording j ∈ cs → (r.server.socket j).token ≠ t) →
        recordAt r₂.server.store t = recordAt r.server.store t) ∧
      (machine ext).step r₂ .resume = some { r₂ with
        server := r₂.server.send i (.agentIDResponse (-1) true)
        logic := .idle } := by
  have hinv := roll_run hrun
  refine ⟨hinv.exclusive, ?_⟩
  intro now i token hostIP ramSize r₁ r₂ cs hheld hstep hcs
  have hlook := hstep
  simp only [machine, step] at hlook
  split at hlook
  · obtain ⟨howner, hlook⟩ := Option.ite_none_right_eq_some.mp hlook
    cases hfind : r.server.getAgentSocketByToken token with
    | none => exact absurd hheld (Server.getAgentSocketByToken_eq_none_iff.mp hfind)
    | some j =>
      have heq : r.handle ext now (.agent i (.agentIDRequest token hostIP ramSize)) =
          some { r with logic := .respond i token (-1) true } := by
        simp only [handle, hfind]
      cases heq.symm.trans hlook
      have hbeside := completions_beside (hinv.change (step_change hstep)) hcs
      refine ⟨rfl, hbeside.socket i (howner i rfl), hbeside.record, ?_⟩
      simp only [machine, step, resume, hbeside.logic]
      rfl
  · cases hlook

/-- A socket is accepted, and its request is handled with nothing in between. -/
def register (i : Nat) (token : Int) : List (RegistryEvent Nat) :=
  [.completion (.addAgent i), .completion (.resetFields i),
    .handle 0 (.agent i (.agentIDRequest token token 0#64)), .resume, .resume, .resume, .resume]

theorem tokens_exclusive_two : ∃ r r₁ r₂ : Registry Nat,
    (machine (.ofTexts [])).run (init Store.empty)
      (register 0 7 ++ [.completion (.addAgent 1), .completion (.resetFields 1)]) = some r ∧
    (machine (.ofTexts [])).step r (.handle 0 (.agent 1 (.agentIDRequest 7 7 0#64))) = some r₁ ∧
    (machine (.ofTexts [])).run r₁ [.completion (.changeIsOn 0)] = some r₂ ∧
    (machine (.ofTexts [])).step r₂ .resume = some { r₂ with
      server := r₂.server.send 1 (.agentIDResponse (-1) true)
      logic := .idle } := by
  obtain ⟨r, hrun, r₁, hlook, r₂, hcs, hheld⟩ : ∃ r, (machine (.ofTexts [])).run (init Store.empty)
      (register 0 7 ++ [.completion (.addAgent 1), .completion (.resetFields 1)]) = some r ∧
    ∃ r₁, (machine (.ofTexts [])).step r (.handle 0 (.agent 1 (.agentIDRequest 7 7 0#64))) =
      some r₁ ∧
    ∃ r₂, (machine (.ofTexts [])).run r₁ ([.changeIsOn 0].map .completion) = some r₂ ∧
    ∃ j ∈ r.server.agentList, (r.server.socket j).token = 7 :=
    ⟨_, rfl, _, rfl, _, rfl, 0, by decide, rfl⟩
  exact ⟨r, r₁, r₂, hrun, hlook, hcs,
    ((tokens_exclusive hrun).2 0 1 7 7 0#64 r₁ r₂ [.changeIsOn 0] hheld hlook hcs).2.2.2⟩

/-! ## Lookups -/

/-- Between two packets, a socket has the token that was registered last on its connection. -/
theorem registered_last (hr : r.roll.Inv) (hidle : r.logic = .idle) (i : ι) :
    (r.server.socket i).token = (r.completed i).getLast?.getD (-1) := by
  have hgiven : r.roll.given i = r.completed i := by
    simp [roll, hidle, LogicStep.given]
  rw [← List.getLastD_eq_getLast?, ← hgiven]
  exact hr.token i

/-- Only the logic thread looks tokens up, and only between two packets. Then a socket is found
that has registered the token, unless the token is -1, some listed socket has not registered, and
none of them has registered -1 last. -/
theorem lookup_registered_iff {store : Store HashValue} {es : List (RegistryEvent ι)}
    (hrun : (machine ext).run (init store) es = some r) (hidle : r.logic = .idle) (token : Int) :
    (∀ i, r.server.getAgentSocketByToken token = some i → token ∈ r.completed i) ↔
      (token = -1 → (∀ i ∈ r.server.agentList, r.completed i ≠ []) ∨
        ∃ i ∈ r.server.agentList, (r.completed i).getLast? = some (-1)) := by
  have hinv := roll_run hrun
  have hlast := registered_last hinv hidle
  have hfound : ∀ i, r.server.getAgentSocketByToken token = some i →
      i ∈ r.server.agentList ∧ (r.completed i).getLast?.getD (-1) = token := fun i hfind => by
    have htoken := List.find?_some hfind
    rw [decide_eq_true_eq, hlast] at htoken
    exact ⟨List.mem_of_find?_eq_some hfind, htoken⟩
  constructor
  · rintro h rfl
    cases hfind : r.server.getAgentSocketByToken (-1) with
    | none =>
      refine .inl fun i hi hnil => ?_
      have htoken := List.find?_eq_none.mp hfind i hi
      rw [hlast, hnil] at htoken
      exact htoken rfl
    | some i =>
      obtain ⟨hi, htoken⟩ := hfound i hfind
      refine .inr ⟨i, hi, ?_⟩
      cases hcompleted : (r.completed i).getLast? with
      | none =>
        have hmem := h i hfind
        rw [List.getLast?_eq_none_iff.mp hcompleted] at hmem
        cases hmem
      | some t =>
        rw [hcompleted] at htoken
        exact congrArg some htoken
  · intro h i hfind
    obtain ⟨hi, htoken⟩ := hfound i hfind
    cases hcompleted : (r.completed i).getLast? with
    | some t =>
      rw [hcompleted] at htoken
      exact htoken ▸ List.mem_of_getLast? hcompleted
    | none =>
      rw [hcompleted] at htoken
      obtain rfl : -1 = token := htoken
      rcases h rfl with hall | ⟨j, hj, hneg⟩
      · exact absurd (List.getLast?_eq_none_iff.mp hcompleted) (hall i hi)
      · have hj' : (r.server.socket j).token = -1 := by rw [hlast, hneg]; rfl
        have hne : r.roll.given j ≠ [] := by
          refine List.append_ne_nil_of_left_ne_nil ?_ _
          exact List.ne_nil_of_mem (List.mem_of_getLast? hneg)
        have hlead : r.server.getAgentSocketByToken (-1) = some j :=
          Roll.find?_of_imp (hinv.leads j hj hne hj')
            (fun k hk => decide_eq_true (.inr (of_decide_eq_true hk))) (decide_eq_true hj')
        cases hfind.symm.trans hlead
        rw [hneg] at hcompleted
        cases hcompleted

theorem lookup_registered_iff_one : ∃ r : Registry Nat,
    (machine (.ofTexts [])).run (init Store.empty) (register 0 7) = some r ∧
    ((∀ i, r.server.getAgentSocketByToken 7 = some i → 7 ∈ r.completed i) ↔
      ((7 : Int) = -1 → (∀ i ∈ r.server.agentList, r.completed i ≠ []) ∨
        ∃ i ∈ r.server.agentList, (r.completed i).getLast? = some (-1))) := by
  obtain ⟨r, hrun, hidle⟩ : ∃ r, (machine (.ofTexts [])).run (init Store.empty) (register 0 7) =
      some r ∧ r.logic = .idle := ⟨_, rfl, rfl⟩
  exact ⟨r, hrun, lookup_registered_iff hrun hidle 7⟩

/-- A socket that has just been accepted is found under -1. -/
theorem not_lookup_registered_accepted : ∃ r : Registry Nat,
    (machine (.ofTexts [])).run (init Store.empty)
      [.completion (.addAgent 0), .completion (.resetFields 0)] = some r ∧ r.logic = .idle ∧
    ¬∀ i, r.server.getAgentSocketByToken (-1) = some i → -1 ∈ r.completed i :=
  ⟨_, rfl, rfl, fun h => by cases h 0 rfl⟩

end Registry

end PSM
