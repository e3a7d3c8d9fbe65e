import PSM.AgentState
import PSM.AgentClient

/-! The packet buffers (`MemPooler`, and who calls it).

Every socket has a pool of ten packets. `RecvProcess` takes a block for each complete frame, writes
the packet and its owner into it and enqueues it; the logic thread takes blocks out of the queue and
calls the owner's `PacketHandling`, whose last statement frees the block. `Free` takes any pointer as
long as something is allocated, so the blocks are conserved by what the callers do
(`blocks_conserved`). Nothing bounds how many blocks are out at a time but the pool itself, and
`RecvProcess` does not look at what `Alloc` returns (`alloc_succeeds_iff`). -/

namespace PSM

/-! ## MemPooler -/

structure MemPooler (β : Type) where
  m_nAllocCount : Nat
  m_freeVector : List β

namespace MemPooler
variable {β : Type}

/-- The constructor, given the blocks that `Create` allocates. -/
def create (blocks : List β) : MemPooler β := ⟨0, blocks⟩

/-- Without a block there is no result but `NULL`. -/
def alloc (p : MemPooler β) : Option β × MemPooler β :=
  match p.m_freeVector with
  | ret :: rest => (some ret, ⟨p.m_nAllocCount + 1, rest⟩)
  | [] => (none, p)

def free (p : MemPooler β) (freeBlock : β) : Bool × MemPooler β :=
  if p.m_nAllocCount > 0 then (true, ⟨p.m_nAllocCount - 1, p.m_freeVector ++ [freeBlock]⟩)
  else (false, p)

end MemPooler

/-! ## The processes of the servers and of the client -/

/-- A block of the pool of socket `pool`. -/
structure Block (ι : Type) where
  pool : ι
  index : Nat
  deriving DecidableEq

/-- The number of blocks of a pool, for all three classes. -/
def packetPoolSize : Nat := 10

def blocksOf (i : ι) : List (Block ι) := (List.range packetPoolSize).map (.mk i)

/-- What `RecvProcess` writes into a block. -/
structure QueuedPacket (ι κ : Type) where
  owner : ι
  content : κ

/-- The logic thread is in its loop, has taken a block out of the queue, or has come to the end of
the owner's `PacketHandling`. -/
inductive LogicPhase (ι : Type) where
  | loop
  | handling (packet : Block ι)
  | freeing (this : ι) (packet : Block ι)

/-- A call of `Free`, and what it returned. -/
structure FreeCall (ι : Type) where
  pool : ι
  packet : Block ι
  result : Bool

/-- The sockets' pools, the memory of their blocks, the queue and the logic thread. `state` is what
the handlers work on, and `frees` records the calls of `Free`. -/
structure PacketApp (ι σ κ : Type) where
  packetPoolManager : ι → MemPooler (Block ι)
  memory : Block ι → Option (QueuedPacket ι κ)
  operationQueue : List (Block ι)
  phase : LogicPhase ι
  state : σ
  frees : List (FreeCall ι)

/-- A frame of socket `i` is complete, or the logic thread takes its next step: it takes a block out
of the queue, handles the packet, or frees the block. -/
inductive PacketEvent (ι κ : Type) where
  | recvProcess (i : ι) (content : κ)
  | pop
  | packetHandling (now : Int)
  | free

namespace PacketApp

variable {ι σ κ : Type}

def init (state : σ) : PacketApp ι σ κ where
  packetPoolManager i := .create (blocksOf i)
  memory _ := none
  operationQueue := []
  phase := .loop
  state := state
  frees := []

/-- The blocks that the logic thread holds. -/
def inHand (app : PacketApp ι σ κ) : List (Block ι) :=
  match app.phase with
  | .loop => []
  | .handling packet => [packet]
  | .freeing _ packet => [packet]

variable [DecidableEq ι]

/-- `handler` is what `PacketHandling` does to the rest of the program before it frees the block; it
has no result when the program ends there. When the queue is not empty the logic thread may take a
block: the event that wakes it is left out. -/
def step (handler : Int → σ → ι → κ → Option σ) (app : PacketApp ι σ κ) :
    PacketEvent ι κ → Option (PacketApp ι σ κ)
  | .recvProcess i content =>
    match (app.packetPoolManager i).alloc with
    | (some msg, pool) => some { app with
        packetPoolManager := Function.update app.packetPoolManager i pool
        memory := Function.update app.memory msg (some ⟨i, content⟩)
        operationQueue := app.operationQueue ++ [msg] }
    | (none, _) => none
  | .pop =>
    match app.phase, app.operationQueue with
    | .loop, packet :: queue =>
      some { app with operationQueue := queue, phase := .handling packet }
    | _, _ => none
  | .packetHandling now =>
    match app.phase with
    | .handling packet => do
      let ⟨owner, content⟩ ← app.memory packet
      let state ← handler now app.state owner content
      some { app with state, phase := .freeing owner packet }
    | _ => none
  | .free =>
    match app.phase with
    | .freeing this packet =>
      let (result, pool) := (app.packetPoolManager this).free packet
      some { app with
        packetPoolManager := Function.update app.packetPoolManager this pool
        phase := .loop
        frees := app.frees ++ [⟨this, packet, result⟩] }
    | _ => none

def machine (handler : Int → σ → ι → κ → Option σ) :
    EventMachine (PacketApp ι σ κ) (PacketEvent ι κ) := ⟨step handler⟩

end PacketApp

/-- The packets of the two kinds of sockets of the server. -/
inductive ServerPacket where
  | agent (msg : AgentMessage)
  | webCommand (msg : WebMessage)

/-- `AgentSocket::PacketHandling` and `WebCommandSocket::PacketHandling`. -/
def Server.packetHandling [DecidableEq ι] (ext : Externals) (now : Int) (s : Server ι) (i : ι) :
    ServerPacket → Option (Server ι)
  | .agent msg => AgentSocket.packetHandling ext now i s msg
  | .webCommand msg => (WebCommandSocket.packetHandling ext.json s msg).map (·.2)

/-- `AgentClientSocket::PacketHandling`, with all that the client has sent. -/
def AgentClientSocket.handle (_ : Int) (s : AgentClientSocket × List AgentMessage) (_ : Unit)
    (msg : ServerMessage) : Option (AgentClientSocket × List AgentMessage) :=
  let (client, sent) := s.1.packetHandling msg
  some (client, s.2 ++ sent)

/-! ## Conservation -/

namespace PacketApp

variable {ι σ κ : Type}

/-- The transitions, one by one. -/
inductive Step [DecidableEq ι] (handler : Int → σ → ι → κ → Option σ) (app : PacketApp ι σ κ) :
    PacketEvent ι κ → PacketApp ι σ κ → Prop where
  | recvProcess {i content msg rest} : (app.packetPoolManager i).m_freeVector = msg :: rest →
      Step handler app (.recvProcess i content) { app with
        packetPoolManager := Function.update app.packetPoolManager i
          ⟨(app.packetPoolManager i).m_nAllocCount + 1, rest⟩
        memory := Function.update app.memory msg (some ⟨i, content⟩)
        operationQueue := app.operationQueue ++ [msg] }
  | pop {packet queue} : app.phase = .loop → app.operationQueue = packet :: queue →
      Step handler app .pop { app with operationQueue := queue, phase := .handling packet }
  | packetHandling {now packet owner content state} : app.phase = .handling packet →
      app.memory packet = some ⟨owner, content⟩ → handler now app.state owner content = some state →
      Step handler app (.packetHandling now) { app with state, phase := .freeing owner packet }
  | free {this packet} : app.phase = .freeing this packet →
      Step handler app .free { app with
        packetPoolManager := Function.update app.packetPoolManager this
          ((app.packetPoolManager this).free packet).2
        phase := .loop
        frees := app.frees ++ [⟨this, packet, ((app.packetPoolManager this).free packet).1⟩] }

/-- The blocks of a pool that are in the queue. -/
def queued [DecidableEq ι] (i : ι) (app : PacketApp ι σ κ) : List (Block ι) :=
  app.operationQueue.filter (·.pool = i)

/-- The block of a pool that is being handled. -/
def handled [DecidableEq ι] (i : ι) (app : PacketApp ι σ κ) : List (Block ι) :=
  app.inHand.filter (·.pool = i)

variable [DecidableEq ι] {handler : Int → σ → ι → κ → Option σ} {app app' : PacketApp ι σ κ}
  {e : PacketEvent ι κ} {state : σ} {i : ι}

theorem step_cases (h : (machine handler).step app e = some app') : Step handler app e app' := by
  cases e with
  | recvProcess i content =>
    simp only [machine, step, MemPooler.alloc] at h
    cases hfree : (app.packetPoolManager i).m_freeVector with
    | nil => simp [hfree] at h
    | cons msg rest =>
      simp only [hfree, Option.some.injEq] at h
      exact h ▸ .recvProcess hfree
  | pop =>
    simp only [machine, step] at h
    split at h <;> cases h
    exact .pop ‹_› ‹_›
  | packetHandling now =>
    simp only [machine, step] at h
    split at h
    · obtain ⟨⟨owner, content⟩, hmem, h⟩ := Option.bind_eq_some_iff.mp h
      obtain ⟨state, hstate, heq⟩ := Option.bind_eq_some_iff.mp h
      cases heq
      exact .packetHandling ‹_› hmem hstate
    · cases h
  | free =>
    simp only [machine, step] at h
    split at h <;> cases h
    exact .free ‹_›

/-- Of each pool, every block is free or out, once; the blocks that are out have their socket as
owner; and `Free` has always been called with a block of the pool, and succeeded. -/
structure Conserved (app : PacketApp ι σ κ) : Prop where
  blocks : ∀ i, ((app.packetPoolManager i).m_freeVector ++ app.queued i ++ app.handled i).Perm
    (blocksOf i)
  count : ∀ i, (app.packetPoolManager i).m_nAllocCount =
    (app.queued i).length + (app.handled i).length
  owner : ∀ packet ∈ app.operationQueue ++ app.inHand,
    ∃ content, app.memory packet = some ⟨packet.pool, content⟩
  this : ∀ this packet, app.phase = .freeing this packet → this = packet.pool
  frees : ∀ call ∈ app.frees, call.result = true ∧ call.packet.pool = call.pool

theorem conserved_init : (init state : PacketApp ι σ κ).Conserved where
  blocks i := by simp [init, queued, handled, inHand, MemPooler.create]
  count i := by simp [init, queued, handled, inHand, MemPooler.create]
  owner := nofun
  this := nofun
  frees := nofun

omit [DecidableEq ι] in
theorem nodup_blocksOf (i : ι) : (blocksOf i).Nodup :=
  List.nodup_range.map fun _ _ h => (Block.mk.inj h).2

/-- A block of the pool is a block of its socket. -/
theorem Conserved.pool_eq (h : app.Conserved) {msg : Block ι}
    (hmsg : msg ∈ (app.packetPoolManager i).m_freeVector) : msg.pool = i := by
  have hmem := (h.blocks i).subset (List.mem_append_left _ (List.mem_append_left _ hmsg))
  obtain ⟨k, -, rfl⟩ := List.mem_map.mp hmem
  rfl

theorem Conserved.recvProcess (h : app.Conserved) {content : κ} {msg : Block ι}
    {rest : List (Block ι)} (hfree : (app.packetPoolManager i).m_freeVector = msg :: rest) :
    Conserved { app with
      packetPoolManager := Function.update app.packetPoolManager i
        ⟨(app.packetPoolManager i).m_nAllocCount + 1, rest⟩
      memory := Function.update app.memory msg (some ⟨i, content⟩)
      operationQueue := app.operationQueue ++ [msg] } := by
  have hmsg : msg ∈ (app.packetPoolManager i).m_freeVector := hfree ▸ List.mem_cons_self
  have hpool := h.pool_eq hmsg
  refine ⟨fun j => ?_, fun j => ?_, fun packet hpacket => ?_, h.this, h.frees⟩
  · by_cases hj : j = i
    · subst hj
      have hblocks := h.blocks j
      rw [hfree] at hblocks
      simp only [queued, List.filter_append, Function.update_self] at hblocks ⊢
      refine List.Perm.trans ?_ hblocks
      have hone : [msg].filter (·.pool = j) = [msg] := by simp [hpool]
      rw [hone, ← List.append_assoc, List.append_assoc, List.cons_append, List.cons_append]
      exact List.perm_middle
    · have hne : ¬msg.pool = j := fun e => hj (by rw [← e, hpool])
      have hblocks := h.blocks j
      simpa [queued, handled, inHand, hj, List.filter_append, hne] using hblocks
  · by_cases hj : j = i
    · subst hj
      have hcount := h.count j
      have hone : [msg].filter (·.pool = j) = [msg] := by simp [hpool]
      simp only [queued, handled, List.filter_append, hone, Function.update_self,
        List.length_append, List.length_singleton] at hcount ⊢
      rw [hcount]
      exact Nat.add_right_comm ..
    · have hne : ¬msg.pool = j := fun e => hj (by rw [← e, hpool])
      have hcount := h.count j
      simpa [queued, handled, inHand, hj, List.filter_append, hne] using hcount
  · -- the block is written, and no block that was out before
    by_cases hp : packet = msg
    · subst hp
      exact ⟨content, (Function.update_self ..).trans (by rw [hpool])⟩
    · have hout : packet ∈ app.operationQueue ++ app.inHand := by
        simp only [List.mem_append, List.mem_singleton] at hpacket ⊢
        exact hpacket.imp (fun hq => hq.resolve_right hp) id
      obtain ⟨content', hmem⟩ := h.owner packet hout
      exact ⟨content', (Function.update_of_ne hp ..).trans hmem⟩

theorem Conserved.pop (h : app.Conserved) {packet : Block ι} {queue : List (Block ι)}
    (hphase : app.phase = .loop) (hqueue : app.operationQueue = packet :: queue) :
    Conserved { app with operationQueue := queue, phase := .handling packet } := by
  have hhand : app.inHand = [] := by rw [inHand, hphase]
  refine ⟨fun i => ?_, fun i => ?_, fun packet' hpacket => ?_, nofun, h.frees⟩
  · refine List.Perm.trans ?_ (h.blocks i)
    rw [List.append_assoc, List.append_assoc]
    refine List.Perm.append_left _ ?_
    simp only [queued, handled, hqueue, hhand, ← List.filter_append]
    refine List.Perm.filter _ ?_
    rw [List.append_nil]
    exact List.perm_append_singleton packet queue
  · rw [h.count i]
    simp only [queued, handled, hqueue, hhand, ← List.length_append, ← List.filter_append]
    refine (List.Perm.filter _ ?_).length_eq
    rw [List.append_nil]
    exact (List.perm_append_singleton packet queue).symm
  · refine h.owner packet' ?_
    rw [hqueue, hhand, List.append_nil]
    exact (List.perm_append_singleton packet queue).subset hpacket

theorem Conserved.handle (h : app.Conserved) {packet : Block ι} {owner : ι} {content : κ}
    (hphase : app.phase = .handling packet) (hmem : app.memory packet = some ⟨owner, content⟩) :
    Conserved { app with state, phase := .freeing owner packet } := by
  have hhand : app.inHand = [packet] := by rw [inHand, hphase]
  have howner := h.owner packet (List.mem_append_right _ (hhand ▸ List.mem_cons_self))
  obtain ⟨content', hmem'⟩ := howner
  cases hmem.symm.trans hmem'
  refine ⟨fun i => ?_, fun i => ?_, fun packet' hpacket => h.owner packet' ?_, ?_, h.frees⟩
  · have hblocks := h.blocks i
    rw [handled, hhand] at hblocks
    exact hblocks
  · have hcount := h.count i
    rw [handled, hhand] at hcount
    exact hcount
  · rw [hhand]
    exact hpacket
  · rintro this packet' heq
    cases heq
    rfl

theorem Conserved.free (h : app.Conserved) {this : ι} {packet : Block ι}
    (hphase : app.phase = .freeing this packet) :
    Conserved { app with
      packetPoolManager := Function.update app.packetPoolManager this
        ((app.packetPoolManager this).free packet).2
      phase := .loop
      frees := app.frees ++ [⟨this, packet, ((app.packetPoolManager this).free packet).1⟩] } := by
  have hhand : app.inHand = [packet] := by rw [inHand, hphase]
  have hthis := h.this this packet hphase
  subst hthis
  have hone : app.handled packet.pool = [packet] := by simp [handled, hhand]
  have hnone : ∀ i, i ≠ packet.pool → app.handled i = [] := by
    intro i hi
    simp [handled, hhand, hi.symm]
  have hpos : (app.packetPoolManager packet.pool).m_nAllocCount > 0 := by
    rw [h.count, hone]
    exact Nat.succ_pos _
  have hfree : (app.packetPoolManager packet.pool).free packet =
      (true, ⟨(app.packetPoolManager packet.pool).m_nAllocCount - 1,
        (app.packetPoolManager packet.pool).m_freeVector ++ [packet]⟩) := if_pos hpos
  rw [hfree]
  refine ⟨fun i => ?_, fun i => ?_, fun packet' hpacket => ?_, nofun, fun call hcall => ?_⟩
  · by_cases hi : i = packet.pool
    · subst hi
      have hblocks := h.blocks packet.pool
      rw [hone] at hblocks
      simp only [Function.update_self, handled, inHand, List.filter_nil, List.append_nil]
      refine List.Perm.trans ?_ hblocks
      rw [List.append_assoc, List.append_assoc]
      exact List.Perm.append_left _ List.perm_append_comm
    · have hblocks := h.blocks i
      rw [hnone i hi] at hblocks
      simpa [handled, inHand, hi, queued] using hblocks
  · by_cases hi : i = packet.pool
    · subst hi
      have hcount := h.count packet.pool
      rw [hone] at hcount
      simp only [Function.update_self, handled, inHand, List.filter_nil, List.length_nil, hcount]
      rfl
    · have hcount := h.count i
      rw [hnone i hi] at hcount
      simpa [handled, inHand, hi, queued] using hcount
  · refine h.owner packet' ?_
    simp only [inHand, List.append_nil] at hpacket
    exact List.mem_append_left _ hpacket
  · rcases List.mem_append.mp hcall with hcall | hcall
    · exact h.frees call hcall
    · cases List.mem_singleton.mp hcall
      exact ⟨rfl, rfl⟩

theorem Conserved.step (h : app.Conserved) (hstep : (machine handler).step app e = some app') :
    app'.Conserved := by
  cases step_cases hstep with
  | recvProcess hfree => exact h.recvProcess hfree
  | pop hphase hqueue => exact h.pop hphase hqueue
  | packetHandling hphase hmem hstate => exact h.handle hphase hmem
  | free hphase => exact h.free hphase

/-- In every run each pool's ten blocks are free, queued or being handled, each in one place, the
count is that of the blocks that are not free, and every `Free` has returned a block to its own
pool. -/
theorem blocks_conserved {es : List (PacketEvent ι κ)}
    (hrun : (machine handler).run (init state) es = some app) (i : ι) :
    ((app.packetPoolManager i).m_freeVector ++ app.queued i ++ app.handled i).Perm (blocksOf i) ∧
    ((app.packetPoolManager i).m_freeVector ++ app.queued i ++ app.handled i).Nodup ∧
    (app.packetPoolManager i).m_nAllocCount =
      (app.queued i).length + (app.handled i).length ∧
    ∀ call ∈ app.frees, call.result = true ∧ call.packet.pool = call.pool := by
  have h : app.Conserved := EventMachine.run_invariant Conserved.step conserved_init hrun
  exact ⟨h.blocks i, (h.blocks i).nodup_iff.mpr (nodup_blocksOf i), h.count i, h.frees⟩

/-- One frame of a socket that has not registered, and one that does not parse. -/
theorem blocks_conserved_two : ∃ app : PacketApp Nat (Server Nat) ServerPacket,
    (machine (Server.packetHandling (.ofTexts []))).run (init (.init Redis.Store.empty))
      [.recvProcess 0 (.agent .processListRequest), .pop, .recvProcess 1 (.agent .invalid),
        .packetHandling 0, .free] = some app ∧
    ((app.packetPoolManager 1).m_freeVector ++ app.queued 1 ++ app.handled 1).Perm (blocksOf 1) ∧
    ((app.packetPoolManager 1).m_freeVector ++ app.queued 1 ++ app.handled 1).Nodup ∧
    (app.packetPoolManager 1).m_nAllocCount =
      (app.queued 1).length + (app.handled 1).length ∧
    ∀ call ∈ app.frees, call.result = true ∧ call.packet.pool = call.pool := by
  obtain ⟨app, hrun⟩ : ∃ app : PacketApp Nat (Server Nat) ServerPacket,
    (machine (Server.packetHandling (.ofTexts []))).run (init (.init Redis.Store.empty))
      [.recvProcess 0 (.agent .processListRequest), .pop, .recvProcess 1 (.agent .invalid),
        .packetHandling 0, .free] = some app := ⟨_, rfl⟩
  exact ⟨app, hrun, blocks_conserved hrun 1⟩

/-- The client's program has one socket. -/
example : ((machine AgentClientSocket.handle).run (init ({}, []))
    [.recvProcess () (.processCommandRequest .addList []), .pop, .packetHandling 0, .free]).map
      (fun app => (app.frees.map (·.result), (app.packetPoolManager ()).m_nAllocCount)) =
    some ([true], 0) := rfl

/-! ## Allocation -/

/-- `Alloc` in `RecvProcess` returns a block. -/
def AllocSucceeds (app : PacketApp ι σ κ) : PacketEvent ι κ → Prop
  | .recvProcess i _ => (app.packetPoolManager i).alloc.1 ≠ none
  | _ => True

/-- When a frame of a socket is complete, fewer of its packets are queued or being handled than its
pool has blocks. -/
def HasRoom (app : PacketApp ι σ κ) : PacketEvent ι κ → Prop
  | .recvProcess i _ => (app.queued i).length + (app.handled i).length < packetPoolSize
  | _ => True

theorem Conserved.allocSucceeds_iff (h : app.Conserved) : app.AllocSucceeds e ↔ app.HasRoom e := by
  cases e with
  | recvProcess i content =>
    have hlength := (h.blocks i).length_eq
    simp only [List.length_append, blocksOf, List.length_map, List.length_range] at hlength
    cases hfree : (app.packetPoolManager i).m_freeVector with
    | nil =>
      rw [hfree, List.length_nil, Nat.zero_add] at hlength
      refine iff_of_false (fun hsome => hsome ?_) hlength.ge.not_gt
      simp [MemPooler.alloc, hfree]
    | cons msg rest =>
      rw [hfree, List.length_cons] at hlength
      refine iff_of_true ?_ (by unfold HasRoom; omega)
      simp [AllocSucceeds, MemPooler.alloc, hfree]
  | _ => exact .rfl

/-- `RecvProcess` always gets a block exactly when no frame is completed while ten packets of its
socket are out. -/
theorem alloc_succeeds_iff (es : List (PacketEvent ι κ)) :
    (machine handler).Meets AllocSucceeds (init state) es ↔
      (machine handler).Meets HasRoom (init state) es :=
  EventMachine.meets_congr Conserved.step Conserved.allocSucceeds_iff conserved_init

/-- Eleven frames of a socket before the logic thread takes a packet. -/
theorem not_alloc_succeeds_eleven :
    ¬(machine (Server.packetHandling (.ofTexts []))).Meets AllocSucceeds
      (init (.init Redis.Store.empty) : PacketApp Nat (Server Nat) ServerPacket)
      (List.replicate 11 (.recvProcess 0 (.agent .healthAck))) := by
  intro h
  have hrun : (machine (Server.packetHandling (.ofTexts []))).run
    (init (.init Redis.Store.empty) : PacketApp Nat (Server Nat) ServerPacket)
    (List.replicate 10 (.recvProcess 0 (.agent .healthAck))) = some _ := rfl
  exact ((EventMachine.meets_concat_iff hrun).mp h).2 rfl

end PacketApp

end PSM
