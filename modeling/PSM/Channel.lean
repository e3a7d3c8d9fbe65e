import PSM.MessageAgreement
import PSM.PacketPool

/-! One direction of a connection, from the bytes that a sender hands over to the packets that the
logic thread takes out of the queue.

The bytes arrive in any pieces, between sends and while packets are taken. As long as only whole
frames are sent, the channel is a queue of frames (`Carries`): a packet that is taken is the oldest
frame, and nothing is lost, repeated or moved. So the handler of one side gets what the senders of
the other side were called with, in the order of the calls (`calls_inOrder`). -/

namespace PSM
open ByteStr ProtoWire Agent

/-- The frame of a message. -/
def WireMessage.FrameIs (w : WireMessage) (f : Frame) : Prop :=
  ∃ h : w.FitsFrame, f = messageFrame w.messageType w.msg w.type h

/-- `wire` holds the bytes that have been sent and not been delivered. -/
structure Channel where
  wire : ByteStr
  sock : RecvSocket

namespace Channel

def init (socket_ : Nat) : Channel := ⟨[], .accepted socket_⟩

def send (c : Channel) (bytes : ByteStr) : Channel := { c with wire := c.wire ++ bytes }

/-- The outstanding receive completes with the next `n` bytes, or with all there are. Each packet in
the queue is a block of the socket's pool: with an eleventh, `Alloc` returns `NULL` and the program
ends. -/
def deliver (peer : SocketClass) (c : Channel) (n : Nat) : Option Channel :=
  (complete peer c.sock (.bytes (c.wire.take n) true)).bind fun sock =>
    if sock.operationQueue.length ≤ packetPoolSize then some ⟨c.wire.drop n, sock⟩ else none

/-- The logic thread takes a packet out of the queue. When it does, `LogicHandle` decides. -/
def take (c : Channel) : Option (CPacket × Channel) :=
  match c.sock.operationQueue with
  | [] => none
  | packet :: rest => some (packet, { c with sock := { c.sock with operationQueue := rest } })

/-- Nothing has been sent that has not been taken out. -/
def Idle (c : Channel) : Prop := c.wire = [] ∧ c.sock.operationQueue = []

instance decidableIdle (c : Channel) : Decidable c.Idle := inferInstanceAs (Decidable (_ ∧ _))

/-- The frames that have been sent and not been taken out. `bs` are the bytes that have been
delivered since the last packet taken out. -/
def Carries (peer : SocketClass) (frames : List Frame) (c : Channel) : Prop :=
  ∃ start bs, start.operationQueue = [] ∧ Tracks peer.ownert start bs c.sock ∧
    bs ++ c.wire = (frames.map Frame.bytes).flatten

variable {peer : SocketClass} {frames : List Frame} {c c' : Channel} {packet : CPacket}

theorem carries_init {socket_ : Nat} (h : socket_ ≠ 0) : Carries peer [] (init socket_) :=
  ⟨_, [], rfl, (RecvSocket.accepted_atFrameStart h).tracks peer.ownert, rfl⟩

theorem Carries.send (h : c.Carries peer frames) (f : Frame) :
    (c.send f.bytes).Carries peer (frames ++ [f]) := by
  obtain ⟨start, bs, hstart, htracks, hbytes⟩ := h
  refine ⟨start, bs, hstart, htracks, ?_⟩
  rw [Channel.send, ← List.append_assoc, hbytes]
  simp

theorem Carries.deliver {n : Nat} (h : c.Carries peer frames) (hstep : c.deliver peer n = some c') :
    c'.Carries peer frames := by
  obtain ⟨start, bs, hstart, htracks, hbytes⟩ := h
  obtain ⟨sock, hcomplete, hpool⟩ := Option.bind_eq_some_iff.mp hstep
  obtain ⟨-, hc'⟩ := Option.ite_none_right_eq_some.mp hpool
  cases hc'
  have hbound : Bounded bs := (bounded_frames frames).mono (hbytes ▸ List.prefix_append _ _)
  obtain ⟨sock', hcomplete', htracks'⟩ :=
    htracks.complete hbound.needed_le (withinRequest_of_complete hcomplete)
  cases hcomplete.symm.trans hcomplete'
  refine ⟨start, bs ++ c.wire.take n, hstart, htracks', ?_⟩
  rw [List.append_assoc, List.take_append_drop, hbytes]

/-- Without its first packet, a socket follows the stream after the first frame. -/
theorem tracks_tail {ownert : Option OwnerType} {start sock : RecvSocket} {f bs : ByteStr}
    {fs : List ByteStr} (h : Tracks ownert start (f ++ bs) sock)
    (hfs : frameFormat.split (f ++ bs) = (f :: fs, (frameFormat.split bs).2))
    (hbs : (frameFormat.split bs).1 = fs) :
    Tracks ownert
      { start with operationQueue := [], copies := start.copies ++ [⟨f.length, f⟩] } bs
      { sock with operationQueue := fs.map (packetOf ownert) } where
  isOpen := h.isOpen
  position := by rw [h.position, hfs]
  remainBytes := by rw [h.remainBytes, hfs]
  wsaRecvBuf := h.wsaRecvBuf
  recvBuf := by
    have hbuf := h.recvBuf
    rw [hfs] at hbuf
    exact hbuf
  operationQueue := by rw [hbs, List.nil_append]
  received := by rw [h.received, hfs]
  copies := by rw [h.copies, hfs, hbs, List.map_cons, List.append_cons]

/-- What is taken out is the oldest frame. -/
theorem Carries.take (h : c.Carries peer frames) (hstep : c.take = some (packet, c')) :
    ∃ f rest, frames = f :: rest ∧ packet = f.packet peer.ownert ∧ c'.Carries peer rest := by
  obtain ⟨start, bs, hstart, htracks, hbytes⟩ := h
  have hqueue := htracks.operationQueue
  rw [hstart, List.nil_append] at hqueue
  unfold Channel.take at hstep
  split at hstep
  · cases hstep
  · rename_i packet' rest' hhead
    cases hstep
    obtain ⟨g, gs, hgs, rfl, rfl⟩ := List.map_eq_cons_iff.mp (hqueue.symm.trans hhead)
    obtain ⟨ys, rfl, hys⟩ := FrameFormat.split_eq_cons (Prod.ext hgs rfl)
    have hcut : g :: gs ++ (frameFormat.split ((frameFormat.split (g ++ ys)).2 ++ c.wire)).1 =
        frames.map Frame.bytes := by
      have hsplit := split_frames frames
      rw [← hbytes, FrameFormat.split_append, hgs] at hsplit
      exact congrArg Prod.fst hsplit
    obtain ⟨f, rest, rfl, rfl, -⟩ := List.map_eq_cons_iff.mp hcut.symm
    refine ⟨f, rest, rfl, f.packetOf_bytes _, ?_⟩
    refine ⟨_, ys, rfl, tracks_tail htracks (Prod.ext hgs (by rw [hys])) (by rw [hys]), ?_⟩
    rw [List.map_cons, List.flatten_cons, List.append_assoc] at hbytes
    exact List.append_cancel_left hbytes

/-- Nothing is left behind. -/
theorem Carries.idle_iff (h : c.Carries peer frames) : c.Idle ↔ frames = [] := by
  obtain ⟨start, bs, hstart, htracks, hbytes⟩ := h
  have hqueue := htracks.operationQueue
  rw [hstart, List.nil_append] at hqueue
  constructor
  · rintro ⟨hwire, hempty⟩
    rw [hwire, List.append_nil] at hbytes
    rw [hempty, hbytes, split_frames] at hqueue
    exact List.map_eq_nil_iff.mp (List.map_eq_nil_iff.mp hqueue.symm)
  · rintro rfl
    obtain ⟨rfl, hwire⟩ := List.append_eq_nil_iff.mp hbytes
    exact ⟨hwire, by rw [hqueue, FrameFormat.split_nil]; rfl⟩

/-! ## Messages -/

/-- The messages that have been sent and not been taken out. -/
def CarriesAll (peer : SocketClass) (ws : List WireMessage) (c : Channel) : Prop :=
  ∃ frames, c.Carries peer frames ∧ List.Forall₂ WireMessage.FrameIs ws frames

variable {ws : List WireMessage} {w : WireMessage} {area : Buffer bufSize} {bytes : ByteStr}

theorem carriesAll_init {socket_ : Nat} (h : socket_ ≠ 0) : CarriesAll peer [] (init socket_) :=
  ⟨[], carries_init h, .nil⟩

theorem CarriesAll.send (h : c.CarriesAll peer ws) (hfits : w.FitsFrame)
    (hsent : sendPacket w.messageType w.msg w.type area = some bytes) :
    (c.send bytes).CarriesAll peer (ws ++ [w]) := by
  obtain ⟨frames, hcarries, hframes⟩ := h
  cases (sendPacket_eq_frame hfits).symm.trans hsent
  exact ⟨_, hcarries.send _, List.rel_append hframes (.cons ⟨hfits, rfl⟩ .nil)⟩

/-- The messages of several calls. -/
theorem CarriesAll.sendAll {M : Type} {wire : M → WireMessage} {sent : M → Option ByteStr}
    {ms : List M} {bytes : List ByteStr} (h : c.CarriesAll peer ws)
    (hwire : ∀ m, sent m = sendPacket (wire m).messageType (wire m).msg (wire m).type area)
    (hfits : ∀ m ∈ ms, (wire m).FitsFrame) (hsent : ms.mapM sent = some bytes) :
    (c.send bytes.flatten).CarriesAll peer (ws ++ ms.map wire) := by
  induction ms generalizing c ws bytes with
  | nil =>
    cases hsent
    simpa [Channel.send] using h
  | cons m ms ih =>
    rw [List.mapM_cons] at hsent
    obtain ⟨first, hfirst, hsent⟩ := Option.bind_eq_some_iff.mp hsent
    obtain ⟨rest, hrest, heq⟩ := Option.bind_eq_some_iff.mp hsent
    cases heq
    have hone := h.send (hfits m List.mem_cons_self) ((hwire m).symm.trans hfirst)
    have hall := ih hone (fun m' hm' => hfits m' (List.mem_cons_of_mem _ hm')) hrest
    rw [List.map_cons, List.append_cons]
    simpa [Channel.send] using hall

theorem CarriesAll.deliver {n : Nat} (h : c.CarriesAll peer ws)
    (hstep : c.deliver peer n = some c') : c'.CarriesAll peer ws := by
  obtain ⟨frames, hcarries, hframes⟩ := h
  exact ⟨frames, hcarries.deliver hstep, hframes⟩

theorem CarriesAll.take (h : c.CarriesAll peer ws) (hstep : c.take = some (packet, c')) :
    ∃ w rest, ∃ hfits : w.FitsFrame, ws = w :: rest ∧ packet = w.packet hfits peer ∧
      c'.CarriesAll peer rest := by
  obtain ⟨frames, hcarries, hframes⟩ := h
  obtain ⟨f, fs, rfl, rfl, hrest⟩ := hcarries.take hstep
  cases hframes with
  | @cons w _ ws _ hw hws =>
    obtain ⟨hfits, rfl⟩ := hw
    exact ⟨w, ws, hfits, rfl, rfl, fs, hrest, hws⟩

theorem CarriesAll.idle_iff (h : c.CarriesAll peer ws) : c.Idle ↔ ws = [] := by
  obtain ⟨frames, hcarries, hframes⟩ := h
  rw [hcarries.idle_iff, ← List.length_eq_zero_iff, ← hframes.length_eq, List.length_eq_zero_iff]

end Channel

/-! ## The calls of one side and the cases of the other -/

/-- How the calls of senders become cases of a handler. -/
structure Mail (M N : Type) where
  wire : M → WireMessage
  area : Buffer bufSize
  peer : SocketClass
  received : CPacket → Option N
  meaning : M → N
  Readable : M → Prop
  received_packet : ∀ m (h : (wire m).FitsFrame), Readable m →
    received ((wire m).packet h peer) = some (meaning m)

def clientMail (area : Buffer bufSize) : Mail ClientCall AgentCase where
  wire := ClientCall.wire
  area := area
  peer := .agentSocket
  received := AgentSocket.received
  meaning := ClientCall.toCase
  Readable _ := True
  received_packet m h _ := m.received_packet h

/-- All but the calls of `SendStopRecord` are read as what they are. -/
def serverMail : Mail ServerCall ServerCall where
  wire := ServerCall.wire
  area := Buffer.zero bufSize
  peer := .agentClientSocket
  received := AgentClientSocket.received
  meaning := id
  Readable c := ¬c.IsStopRecord
  received_packet c h := (c.received_packet_iff h).mpr

namespace Mail

variable {M N : Type} (mail : Mail M N)

inductive Event (M : Type) where
  | send (m : M)
  | deliver (n : Nat)
  | take

def Event.sent? : Event M → Option M
  | .send m => some m
  | _ => none

/-- The channel, and the cases that the handler has run. -/
structure State (N : Type) where
  channel : Channel
  handled : List N

/-- A packet that the handler has no case for is dropped. -/
def step (s : State N) : Event M → Option (State N)
  | .send m =>
    let w := mail.wire m
    (sendPacket w.messageType w.msg w.type mail.area).map fun bytes =>
      { s with channel := s.channel.send bytes }
  | .deliver n => (s.channel.deliver mail.peer n).map fun channel => { s with channel }
  | .take => s.channel.take.map fun (packet, channel) =>
    ⟨channel, s.handled ++ (mail.received packet).toList⟩

def machine : EventMachine (State N) (Event M) := ⟨mail.step⟩

def init (N : Type) (socket_ : Nat) : State N := ⟨.init socket_, []⟩

/-- Whatever is sent and delivered when, what has been handled are the first of the calls, and all
of them when nothing is left in the channel. -/
def InOrder : Prop :=
  ∀ (socket_ : Nat) (es : List (Event M)) (s : State N), socket_ ≠ 0 →
    (∀ m, Event.send m ∈ es → (mail.wire m).FitsFrame ∧ mail.Readable m) →
    mail.machine.run (init N socket_) es = some s →
    s.handled <+: (es.filterMap Event.sent?).map mail.meaning ∧
      (s.channel.Idle → s.handled = (es.filterMap Event.sent?).map mail.meaning)

/-- The calls that have not been handled are those in the channel. -/
def Pending (calls : List M) (s : State N) : Prop :=
  ∃ waiting : List M, s.channel.CarriesAll mail.peer (waiting.map mail.wire) ∧
    (∀ m ∈ waiting, mail.Readable m) ∧ s.handled ++ waiting.map mail.meaning = calls.map mail.meaning

variable {mail} {s s' : State N} {calls : List M}

theorem Pending.send {m : M} (h : mail.Pending calls s) (hfits : (mail.wire m).FitsFrame)
    (hread : mail.Readable m) (hstep : mail.step s (.send m) = some s') :
    mail.Pending (calls ++ [m]) s' := by
  obtain ⟨waiting, hcarries, hreadable, hcalls⟩ := h
  obtain ⟨bytes, hsent, rfl⟩ := Option.map_eq_some_iff.mp hstep
  refine ⟨waiting ++ [m], ?_, fun m' hm' => ?_, ?_⟩
  · rw [List.map_append]
    exact hcarries.send hfits hsent
  · rcases List.mem_append.mp hm' with hm' | hm'
    · exact hreadable m' hm'
    · rwa [List.mem_singleton.mp hm']
  · rw [List.map_append, List.map_append, ← hcalls, List.append_assoc]

theorem Pending.take (h : mail.Pending calls s) (hstep : mail.step s .take = some s') :
    mail.Pending calls s' := by
  obtain ⟨waiting, hcarries, hreadable, hcalls⟩ := h
  obtain ⟨⟨packet, channel⟩, htake, rfl⟩ := Option.map_eq_some_iff.mp hstep
  obtain ⟨w, rest, hfits, hws, rfl, hrest⟩ := hcarries.take htake
  obtain ⟨m, waiting, rfl, rfl, rfl⟩ := List.map_eq_cons_iff.mp hws
  refine ⟨waiting, hrest, fun m' hm' => hreadable m' (List.mem_cons_of_mem _ hm'), ?_⟩
  dsimp only
  rw [mail.received_packet m hfits (hreadable m List.mem_cons_self), ← hcalls]
  simp

theorem Pending.deliver {n : Nat} (h : mail.Pending calls s)
    (hstep : mail.step s (.deliver n) = some s') : mail.Pending calls s' := by
  obtain ⟨waiting, hcarries, hwaiting⟩ := h
  obtain ⟨channel, hdeliver, rfl⟩ := Option.map_eq_some_iff.mp hstep
  exact ⟨waiting, hcarries.deliver hdeliver, hwaiting⟩

theorem pending_run {socket_ : Nat} {es : List (Event M)} (hsocket : socket_ ≠ 0)
    (hsent : ∀ m, Event.send m ∈ es → (mail.wire m).FitsFrame ∧ mail.Readable m)
    (hrun : mail.machine.run (init N socket_) es = some s) :
    mail.Pending (es.filterMap Event.sent?) s := by
  revert hsent
  refine EventMachine.run_induction (P := fun es s =>
    (∀ m, Event.send m ∈ es → (mail.wire m).FitsFrame ∧ mail.Readable m) →
      mail.Pending (es.filterMap Event.sent?) s) (fun _ => ?_) ?_ hrun
  · exact ⟨[], Channel.carriesAll_init hsocket, fun _ h => absurd h List.not_mem_nil, rfl⟩
  · intro es e t t' _ ih hstep hsent
    have h := ih fun m hm => hsent m (List.mem_append_left _ hm)
    rw [List.filterMap_append]
    cases e with
    | send m =>
      obtain ⟨hfits, hread⟩ := hsent m (by simp)
      exact h.send hfits hread hstep
    | deliver n => exact (List.append_nil _).symm ▸ h.deliver hstep
    | take => exact (List.append_nil _).symm ▸ h.take hstep

theorem inOrder (mail : Mail M N) : mail.InOrder := by
  intro socket_ es s hsocket hsent hrun
  obtain ⟨waiting, hcarries, -, hcalls⟩ := pending_run hsocket hsent hrun
  refine ⟨⟨_, hcalls⟩, fun hidle => ?_⟩
  cases List.map_eq_nil_iff.mp (hcarries.idle_iff.mp hidle)
  rw [← hcalls, List.map_nil, List.append_nil]

end Mail

/-- Both directions of a connection between an agent and the server keep the order of the calls, and
lose and repeat none. -/
theorem calls_inOrder (area : Buffer bufSize) : (clientMail area).InOrder ∧ serverMail.InOrder :=
  ⟨(clientMail area).inOrder, serverMail.inOrder⟩

end PSM
