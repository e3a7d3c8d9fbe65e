import PSM.Lib.Framing
import PSM.RecvProcess

/-! What `RecvProcess` makes of a byte stream.

The state of the receiving socket is a function of the bytes received so far (`Tracks`): the
packets enqueued are the complete frames of the stream, and `position`, `remainBytes`, the
outstanding request and the beginning of `recvBuf_` describe its unfinished frame. One completion
keeps this as long as the unfinished frame has room in `recvBuf_` (`Tracks.complete`). -/

namespace PSM
open ByteStr

/-- The frames of the protocol: the header starts with the payload length. -/
def frameFormat : FrameFormat UInt8 where
  headerSize := headerSize
  headerSize_pos := by decide
  payloadLength := readLe16
  payloadLength_append h ys := readLe16_append (Nat.le_trans (by decide) h) ys

theorem needed_nil : frameFormat.needed [] = headerSize := FrameFormat.needed_of_lt (by decide)

/-- A frame that a well-behaved peer sends: its payload leaves room for the header. -/
structure Frame where
  type : Nat
  payload : ByteStr
  type_lt : type < 65536
  payload_le : payload.length ≤ bufSize - headerSize

namespace Frame

def bytes (f : Frame) : ByteStr := le16 f.payload.length ++ le16 f.type ++ f.payload

/-- The packet that the logic queue should receive for a frame. -/
def packet (ownert : Option OwnerType) (f : Frame) : CPacket where
  length := f.payload.length
  type := toShort f.type
  msg := f.payload
  ownert := ownert

end Frame

/-- A socket that waits for the first byte of a frame. -/
structure RecvSocket.AtFrameStart (sock : RecvSocket) : Prop where
  isOpen : sock.socket_ ≠ 0
  position : sock.position = 0
  remainBytes : sock.remainBytes = headerSize
  wsaRecvBuf : sock.wsaRecvBuf = some ⟨0, headerSize⟩
  received : sock.received = []

/-- The packet made of the bytes of a frame. -/
def packetOf (ownert : Option OwnerType) (f : ByteStr) : CPacket where
  length := toShort (readLe16 f)
  type := toShort (readLe16 (f.drop 2))
  msg := f.drop headerSize
  ownert := ownert

/-- The socket after the bytes `bs`, for a socket that was at a frame start with the given queue
and copies. -/
structure Tracks (ownert : Option OwnerType) (start : RecvSocket) (bs : ByteStr)
    (sock : RecvSocket) : Prop where
  isOpen : sock.socket_ ≠ 0
  position : sock.position = (frameFormat.split bs).2.length
  remainBytes : sock.remainBytes =
    frameFormat.needed (frameFormat.split bs).2 - (frameFormat.split bs).2.length
  wsaRecvBuf : sock.wsaRecvBuf = some ⟨sock.position, sock.remainBytes⟩
  recvBuf : sock.recvBuf_.bytes.take (frameFormat.split bs).2.length = (frameFormat.split bs).2
  operationQueue : sock.operationQueue =
    start.operationQueue ++ (frameFormat.split bs).1.map (packetOf ownert)
  received : sock.received = (frameFormat.split bs).2
  copies : sock.copies =
    start.copies ++ (frameFormat.split bs).1.map fun f => ⟨f.length, f⟩

theorem RecvSocket.AtFrameStart.tracks {sock : RecvSocket} (h : sock.AtFrameStart)
    (ownert : Option OwnerType) : Tracks ownert sock [] sock where
  isOpen := h.isOpen
  position := by simp [h.position]
  remainBytes := by
    rw [h.remainBytes, FrameFormat.split_nil, needed_nil]
    simp
  wsaRecvBuf := by rw [h.wsaRecvBuf, h.position, h.remainBytes]
  recvBuf := by simp
  operationQueue := by simp
  received := by simp [h.received]
  copies := by simp

/-- At the end of a frame the socket is at a frame start again. -/
theorem Tracks.atFrameStart {ownert : Option OwnerType} {start sock : RecvSocket} {bs : ByteStr}
    (h : Tracks ownert start bs sock) (hrest : (frameFormat.split bs).2 = []) :
    sock.AtFrameStart := by
  have hpos : sock.position = 0 := by simp [h.position, hrest]
  have hrem : sock.remainBytes = headerSize := by
    rw [h.remainBytes, hrest, needed_nil]
    simp
  exact ⟨h.isOpen, hpos, hrem, by rw [h.wsaRecvBuf, hpos, hrem], by rw [h.received, hrest]⟩

/-! ## One completion -/

/-- What `RecvProcess` leaves behind when the bytes of the current frame are `ys`. -/
def afterBytes (ownert : Option OwnerType) (sock : RecvSocket) (ys : ByteStr) : RecvSocket :=
  if ys.length < frameFormat.needed ys then
    { sock with
      position := ys.length
      remainBytes := frameFormat.needed ys - ys.length
      wsaRecvBuf := some ⟨ys.length, frameFormat.needed ys - ys.length⟩ }
  else
    { sock with
      position := 0
      remainBytes := headerSize
      wsaRecvBuf := some ⟨0, headerSize⟩
      operationQueue := sock.operationQueue ++ [packetOf ownert ys]
      received := []
      copies := sock.copies ++ [⟨ys.length, sock.received⟩] }

theorem copyPacket_eq {ownert : Option OwnerType} {buf : Buffer bufSize} {ys : ByteStr}
    (hbuf : buf.bytes.take ys.length = ys) (hframe : frameFormat.IsFrame ys)
    (hfit : ys.length ≤ bufSize) :
    RecvSocket.copyPacket ownert buf ys.length = some (packetOf ownert ys) := by
  have hhead : headerSize ≤ ys.length := by rw [hframe]; exact Nat.le_add_right _ _
  have h0 : readLe16 buf.bytes = readLe16 ys := by
    rw [← hbuf, readLe16_take (Nat.le_trans (by decide) hhead)]
  have h2 : readLe16 (buf.bytes.drop 2) = readLe16 (ys.drop 2) := by
    conv => rhs; rw [← hbuf]
    rw [List.drop_take, readLe16_take]
    exact Nat.le_sub_of_add_le (Nat.le_trans (by decide) hhead)
  unfold RecvSocket.copyPacket
  rw [if_pos ⟨by exact_mod_cast hhead, by exact_mod_cast hfit⟩, Int.toNat_natCast, hbuf, h0, h2]
  rfl

/-- The count of the copy is the length of the frame, signed or not. -/
theorem headerSize_add_toShort {ys : ByteStr} (hframe : frameFormat.IsFrame ys)
    (hfit : ys.length ≤ bufSize) : (headerSize : Int) + toShort (readLe16 ys) = ys.length := by
  have hlen : ys.length = headerSize + readLe16 ys := hframe
  have hshort : readLe16 ys < 32768 := by simp only [bufSize] at hfit; omega
  rw [toShort_eq_self hshort, hlen]
  norm_cast

/-- Whether the length has just been read or was read before, `remainBytes` is then what the frame
still needs. -/
theorem readLength_eq {sock : RecvSocket} {xs ys : ByteStr} (hpos : sock.position = ys.length)
    (hrem : sock.remainBytes = frameFormat.needed xs - ys.length) (hlt : xs.length < ys.length)
    (hpre : xs <+: ys) (hle : ys.length ≤ frameFormat.needed xs) (hhead : headerSize ≤ ys.length)
    (hbuf : sock.recvBuf_.bytes.take ys.length = ys) :
    sock.readLength = { sock with remainBytes := frameFormat.needed ys - ys.length } := by
  have hny : frameFormat.needed ys = headerSize + readLe16 ys := FrameFormat.needed_of_le hhead
  unfold RecvSocket.readLength
  by_cases hx : xs.length < headerSize
  · -- the header was incomplete before this delivery, so it is exactly complete now
    have hnx : frameFormat.needed xs = headerSize := FrameFormat.needed_of_lt hx
    have hys : ys.length = headerSize := by omega
    have hlow : readLe16 sock.recvBuf_.bytes = readLe16 ys := by
      rw [← hbuf, readLe16_take (Nat.le_trans (by decide : 2 ≤ headerSize) hhead)]
    have hzero : sock.remainBytes = 0 := by rw [hrem, hnx, hys]; ring
    rw [if_pos ⟨by rw [hpos, hys], hzero⟩, RecvSocket.copyLength, hzero, hlow, hny, hys]
    congr 1
    push_cast
    ring
  · -- the length was read at an earlier completion
    have hnx : frameFormat.needed ys = frameFormat.needed xs := by
      obtain ⟨zs, rfl⟩ := hpre
      exact FrameFormat.needed_append (by change headerSize ≤ xs.length; omega) zs
    have hpos' : sock.position ≠ headerSize := by rw [hpos]; omega
    rw [if_neg fun h => hpos' h.1, hnx, ← hrem]

theorem takePacket_eq (ownert : Option OwnerType) (sock : RecvSocket) {ys : ByteStr}
    (hbuf : sock.recvBuf_.bytes.take ys.length = ys) (hframe : frameFormat.IsFrame ys)
    (hfit : ys.length ≤ bufSize) :
    sock.takePacket ownert true = some { sock with
      position := 0
      remainBytes := headerSize
      operationQueue := sock.operationQueue ++ [packetOf ownert ys]
      received := []
      copies := sock.copies ++ [⟨ys.length, sock.received⟩] } := by
  have hhead : headerSize ≤ ys.length := by rw [hframe]; exact Nat.le_add_right _ _
  have hlow : readLe16 sock.recvBuf_.bytes = readLe16 ys := by
    rw [← hbuf, readLe16_take (Nat.le_trans (by decide : 2 ≤ headerSize) hhead)]
  simp only [RecvSocket.takePacket, if_true, hlow, headerSize_add_toShort hframe hfit,
    copyPacket_eq hbuf hframe hfit, Option.map_some]

/-- `RecvProcess` after a delivery that fits the request: either the frame is still unfinished and
the request is for what it still needs, or its packet is enqueued and a header is requested. -/
theorem recvProcess_bytes {ownert : Option OwnerType} {sock : RecvSocket} {xs data : ByteStr}
    (hopen : sock.socket_ ≠ 0) (hdata : 0 < data.length) (hpos : sock.position = xs.length)
    (hrem : sock.remainBytes = frameFormat.needed xs - xs.length)
    (hle : (xs ++ data).length ≤ frameFormat.needed xs) (hfit : frameFormat.needed xs ≤ bufSize)
    (hbuf : sock.recvBuf_.bytes.take (xs ++ data).length = xs ++ data) :
    RecvSocket.recvProcess ownert sock false data.length true =
      some (afterBytes ownert sock (xs ++ data)) := by
  have hlen : (xs ++ data).length = xs.length + data.length := List.length_append
  have hpos' : (sock.count data.length).position = (xs ++ data).length := by
    simp [RecvSocket.count, hpos]
  have hrem' : (sock.count data.length).remainBytes =
      frameFormat.needed xs - (xs ++ data).length := by
    simp only [RecvSocket.count, hrem, hlen]; push_cast; ring
  have hpre : xs <+: xs ++ data := List.prefix_append _ _
  have hlt : xs.length < (xs ++ data).length := by omega
  have hgrow := FrameFormat.needed_grow (F := frameFormat) hle
  have hcount : (sock.count data.length).recvBuf_ = sock.recvBuf_ := rfl
  rw [RecvSocket.recvProcess, if_neg (by simp), if_neg (by omega)]
  simp only
  rw [if_neg (by exact hopen)]
  generalize xs ++ data = ys at *
  by_cases hhead : headerSize ≤ ys.length
  · have hread := readLength_eq hpos' hrem' hlt hpre hle hhead hbuf
    rw [if_neg (by rw [hpos']; exact_mod_cast Nat.not_lt.mpr hhead), hread, afterBytes]
    by_cases hdone : ys.length < frameFormat.needed ys
    · have hne : (frameFormat.needed ys : Int) - ys.length ≠ 0 := by omega
      rw [if_neg hne, if_pos hdone, ← hpos']
      rfl
    · have hneeded := hgrow (Nat.le_of_not_lt hdone)
      have hframe := FrameFormat.isFrame_of_needed hneeded
      have hzero : (frameFormat.needed ys : Int) - ys.length = 0 := by
        rw [hneeded]; ring
      rw [if_pos hzero, if_neg hdone]
      have htake := takePacket_eq ownert { sock.count data.length with
        remainBytes := frameFormat.needed ys - ys.length } hbuf hframe (by omega)
      rw [htake]
      rfl
  · -- the header is still incomplete
    have hnx : frameFormat.needed xs = headerSize := FrameFormat.needed_of_lt (by
      change xs.length < headerSize
      omega)
    have hny : frameFormat.needed ys = headerSize :=
      FrameFormat.needed_of_lt (Nat.lt_of_not_le hhead)
    rw [if_pos (by rw [hpos']; exact_mod_cast Nat.lt_of_not_le hhead),
      if_neg (by rw [hpos']; omega), afterBytes, hny, if_pos (Nat.lt_of_not_le hhead),
      ← hnx, ← hrem', ← hpos']
    rfl

theorem Tracks.afterBytes {ownert : Option OwnerType} {start sock : RecvSocket}
    {bs data : ByteStr} (h : Tracks ownert start bs sock) (buf : Buffer bufSize)
    (hle : ((frameFormat.split bs).2 ++ data).length ≤
      frameFormat.needed (frameFormat.split bs).2)
    (hbuf : buf.bytes.take ((frameFormat.split bs).2 ++ data).length =
      (frameFormat.split bs).2 ++ data) :
    Tracks ownert start (bs ++ data) (PSM.afterBytes ownert { sock with
      recvBuf_ := buf, wsaRecvBuf := none, received := sock.received ++ data }
      ((frameFormat.split bs).2 ++ data)) := by
  have hsplit := FrameFormat.split_append (F := frameFormat) bs data
  rw [FrameFormat.split_grow hle] at hsplit
  by_cases hdone : ((frameFormat.split bs).2 ++ data).length <
      frameFormat.needed ((frameFormat.split bs).2 ++ data)
  · rw [if_pos hdone] at hsplit
    rw [PSM.afterBytes, if_pos hdone]
    exact {
      isOpen := h.isOpen
      position := by rw [hsplit]
      remainBytes := by rw [hsplit]
      wsaRecvBuf := rfl
      recvBuf := by rw [hsplit]; exact hbuf
      operationQueue := by rw [hsplit, List.append_nil]; exact h.operationQueue
      received := by rw [hsplit, h.received]
      copies := by rw [hsplit, List.append_nil]; exact h.copies }
  · rw [if_neg hdone] at hsplit
    rw [PSM.afterBytes, if_neg hdone]
    exact {
      isOpen := h.isOpen
      position := by simp [hsplit]
      remainBytes := by simp [hsplit, needed_nil]
      wsaRecvBuf := rfl
      recvBuf := by simp [hsplit]
      operationQueue := by simp [hsplit, h.operationQueue]
      received := by rw [hsplit]
      copies := by simp [hsplit, h.copies, h.received] }

/-- A delivery within the request is always handled when the frame it belongs to has room in
`recvBuf_`. -/
theorem Tracks.complete {cls : SocketClass} {start sock : RecvSocket} {bs data : ByteStr}
    (h : Tracks cls.ownert start bs sock)
    (hroom : frameFormat.needed (frameFormat.split bs).2 ≤ bufSize)
    (hreq : WithinRequest sock (.bytes data true)) :
    ∃ sock', complete cls sock (.bytes data true) = some sock' ∧
      Tracks cls.ownert start (bs ++ data) sock' := by
  obtain ⟨r, hr, hdata, hlen⟩ := hreq
  cases h.wsaRecvBuf.symm.trans hr
  have hpos := h.position
  have hrem := h.remainBytes
  have hle : ((frameFormat.split bs).2 ++ data).length ≤
      frameFormat.needed (frameFormat.split bs).2 := by
    rw [List.length_append]
    simp only at hlen
    omega
  have hoff : sock.position.toNat = (frameFormat.split bs).2.length := by omega
  have hfits : ¬bufSize < (frameFormat.split bs).2.length + data.length := by
    rw [← List.length_append]
    omega
  obtain ⟨buf, hwrite⟩ := Option.ne_none_iff_exists'.mp
    (mt Buffer.write_eq_none_iff.mp hfits : sock.recvBuf_.write _ data ≠ none)
  have hkernel : sock.kernelWrite ⟨sock.position, sock.remainBytes⟩ data = some { sock with
      recvBuf_ := buf, wsaRecvBuf := none, received := sock.received ++ data } := by
    rw [RecvSocket.kernelWrite, if_neg (by simp only; omega)]
    simp only [hoff, hwrite, Option.map_some]
  have hbuf : buf.bytes.take ((frameFormat.split bs).2 ++ data).length =
      (frameFormat.split bs).2 ++ data := by
    rw [List.length_append, Buffer.take_write hwrite, h.recvBuf]
  refine ⟨_, ?_, h.afterBytes buf hle hbuf⟩
  simp only [PSM.complete, hr, if_pos (And.intro hdata hlen), hkernel, Option.bind_some,
    SocketClass.recvProcess_eq]
  exact recvProcess_bytes h.isOpen hdata hpos hrem hle hroom hbuf

/-! ## Whole runs -/

/-- All the headers of the stream leave room for themselves. -/
def Bounded (bs : ByteStr) : Prop := ∀ L ∈ frameFormat.announced bs, L ≤ bufSize - headerSize

theorem Bounded.mono {bs cs : ByteStr} (h : Bounded cs) (hpre : bs <+: cs) : Bounded bs := by
  obtain ⟨zs, rfl⟩ := hpre
  exact fun L hL => h L (FrameFormat.announced_subset_append bs zs hL)

theorem Bounded.needed_le {bs : ByteStr} (h : Bounded bs) :
    frameFormat.needed (frameFormat.split bs).2 ≤ bufSize := by
  by_cases hhead : headerSize ≤ (frameFormat.split bs).2.length
  · have hL := h (frameFormat.payloadLength (frameFormat.split bs).2) (List.mem_append_right _ (by
      rw [if_pos (by exact hhead)]
      exact List.mem_singleton_self _))
    rw [FrameFormat.needed_of_le (by exact hhead)]
    change headerSize + _ ≤ bufSize
    simp only [bufSize, headerSize] at hL ⊢
    omega
  · rw [FrameFormat.needed_of_lt (Nat.lt_of_not_le hhead)]
    decide

/-- Deliveries that complete the announced frames one after the other. -/
theorem Tracks.run {cls : SocketClass} {start sock : RecvSocket} {bs : ByteStr}
    {chunks : List ByteStr} (h : Tracks cls.ownert start bs sock)
    (hbound : Bounded (bs ++ chunks.flatten))
    (hreq : (receiver cls).Meets WithinRequest sock (chunks.map (.bytes · true))) :
    ∃ sock', (receiver cls).run sock (chunks.map (.bytes · true)) = some sock' ∧
      Tracks cls.ownert start (bs ++ chunks.flatten) sock' := by
  induction chunks generalizing bs sock with
  | nil => exact ⟨sock, rfl, by simpa using h⟩
  | cons data chunks ih =>
    have hroom := (hbound.mono (List.prefix_append _ _)).needed_le
    obtain ⟨mid, hstep, hmid⟩ := h.complete hroom hreq.1
    rw [List.flatten_cons, ← List.append_assoc] at hbound ⊢
    obtain ⟨last, hrun, hlast⟩ := ih hmid hbound (hreq.2 mid hstep)
    exact ⟨last, by simp [receiver, hstep]; exact hrun, hlast⟩

/-- A byte at a time is always within the request. -/
theorem Tracks.withinRequest_byte {ownert : Option OwnerType} {start sock : RecvSocket}
    {bs : ByteStr} (h : Tracks ownert start bs sock) (b : UInt8) (alloc : Bool) :
    WithinRequest sock (.bytes [b] alloc) := by
  have hlt := FrameFormat.rest_lt (F := frameFormat) bs
  refine ⟨_, h.wsaRecvBuf, Nat.le_refl _, ?_⟩
  simp only [h.remainBytes, List.length_singleton]
  omega

/-- A stream fed byte by byte, if there is always room for what the unfinished frame needs. -/
theorem run_bytes {cls : SocketClass} {start : RecvSocket} (bs : ByteStr)
    (hs : Tracks cls.ownert start [] start)
    (hroom : ∀ xs b mid, xs ++ [b] <+: bs →
      (receiver cls).run start (xs.map fun b => .bytes [b] true) = some mid →
      Tracks cls.ownert start xs mid → frameFormat.needed (frameFormat.split xs).2 ≤ bufSize) :
    ∃ last, (receiver cls).run start (bs.map fun b => .bytes [b] true) = some last ∧
      Tracks cls.ownert start bs last ∧
      (receiver cls).Meets WithinRequest start (bs.map fun b => .bytes [b] true) := by
  induction bs using List.reverseRecOn with
  | nil => exact ⟨start, rfl, hs, trivial⟩
  | append_singleton bs b ih =>
    obtain ⟨mid, hrun, hmid, hmeets⟩ := ih fun xs c mid hpre =>
      hroom xs c mid (hpre.trans (List.prefix_append _ _))
    have hreq := hmid.withinRequest_byte b true
    obtain ⟨last, hstep, hlast⟩ :=
      hmid.complete (hroom bs b mid (List.prefix_refl _) hrun hmid) hreq
    rw [List.map_append]
    exact ⟨last, EventMachine.run_concat_iff.mpr ⟨mid, hrun, hstep⟩, hlast,
      (EventMachine.meets_concat_iff hrun).mpr ⟨hmeets, hreq⟩⟩

/-- A delivery that goes past the end of `recvBuf_` has no defined result. -/
theorem Tracks.complete_eq_none {cls : SocketClass} {start sock : RecvSocket} {bs : ByteStr}
    (h : Tracks cls.ownert start bs sock) (data : ByteStr)
    (hover : bufSize < (frameFormat.split bs).2.length + data.length) :
    PSM.complete cls sock (.bytes data true) = none := by
  have hpos := h.position
  have hoff : sock.position.toNat = (frameFormat.split bs).2.length := by omega
  have hkernel : sock.kernelWrite ⟨sock.position, sock.remainBytes⟩ data = none := by
    rw [RecvSocket.kernelWrite, if_neg (by simp only; omega)]
    simp only [hoff, Buffer.write_eq_none_iff.mpr hover, Option.map_none]
  simp only [PSM.complete, h.wsaRecvBuf, hkernel, Option.bind_none, ite_self]

/-! ### Frames in, packets out -/

namespace Frame

theorem isFrame_bytes (f : Frame) : frameFormat.IsFrame f.bytes := by
  have hle := f.payload_le
  have hlt : f.payload.length < 65536 := Nat.lt_of_le_of_lt hle (by decide)
  have hL : frameFormat.payloadLength f.bytes = f.payload.length := by
    simp only [frameFormat, bytes, List.append_assoc]
    exact readLe16_le16_append hlt _
  rw [FrameFormat.IsFrame, hL]
  simp [bytes, frameFormat, headerSize]
  omega

theorem packetOf_bytes (ownert : Option OwnerType) (f : Frame) :
    packetOf ownert f.bytes = f.packet ownert := by
  have hle := f.payload_le
  have hlt : f.payload.length < 32768 := Nat.lt_of_le_of_lt hle (by decide)
  have hlen : readLe16 f.bytes = f.payload.length := by
    rw [bytes, List.append_assoc, readLe16_le16_append (by omega)]
  have htype : readLe16 (f.bytes.drop 2) = f.type := by
    rw [bytes, List.append_assoc, List.drop_left' (length_le16 _), readLe16_le16_append f.type_lt]
  have hmsg : f.bytes.drop headerSize = f.payload := List.drop_left' rfl
  rw [packetOf, hlen, htype, hmsg, toShort_eq_self hlt, packet]

end Frame

theorem split_frames (frames : List Frame) :
    frameFormat.split (frames.map Frame.bytes).flatten = (frames.map Frame.bytes, []) :=
  FrameFormat.split_flatten fun f hf => by
    obtain ⟨frame, -, rfl⟩ := List.mem_map.mp hf
    exact frame.isFrame_bytes

theorem bounded_frames (frames : List Frame) : Bounded (frames.map Frame.bytes).flatten := by
  intro L hL
  simp only [FrameFormat.announced, split_frames, List.length_nil] at hL
  rw [if_neg (by decide), List.append_nil, List.map_map] at hL
  obtain ⟨f, -, rfl⟩ := List.mem_map.mp hL
  have hf : f.bytes.length = headerSize + frameFormat.payloadLength f.bytes := f.isFrame_bytes
  have hlen : f.bytes.length = headerSize + f.payload.length := by
    simp [Frame.bytes, headerSize]; omega
  have := f.payload_le
  simp only [Function.comp_apply]
  omega

/-- Whatever the segmentation, the packets enqueued are the frames sent, and the socket is left at
a frame start. -/
theorem receiver_run_frames (cls : SocketClass) {sock : RecvSocket} (hs : sock.AtFrameStart)
    (frames : List Frame) (chunks : List ByteStr)
    (hchunks : chunks.flatten = (frames.map Frame.bytes).flatten)
    (hreq : (receiver cls).Meets WithinRequest sock (chunks.map (.bytes · true))) :
    ∃ sock', (receiver cls).run sock (chunks.map (.bytes · true)) = some sock' ∧
      sock'.operationQueue = sock.operationQueue ++ frames.map (Frame.packet cls.ownert) ∧
      sock'.AtFrameStart := by
  have hbound : Bounded ([] ++ chunks.flatten) := by
    rw [List.nil_append, hchunks]
    exact bounded_frames frames
  obtain ⟨sock', hrun, htracks⟩ := (hs.tracks cls.ownert).run hbound hreq
  rw [List.nil_append, hchunks] at htracks
  refine ⟨sock', hrun, ?_, htracks.atFrameStart (by rw [split_frames])⟩
  rw [htracks.operationQueue, split_frames, List.map_map]
  exact congrArg _ (List.map_congr_left fun f _ => f.packetOf_bytes cls.ownert)

/-- A connected socket for which `Recv(recvBuf_, HEADER_SIZE)` has been posted. -/
def RecvSocket.accepted (socket_ : Nat) : RecvSocket where
  socket_ := socket_
  position := 0
  remainBytes := headerSize
  recvBuf_ := Buffer.zero bufSize
  wsaRecvBuf := some ⟨0, headerSize⟩
  disconnectCall := false
  operationQueue := []
  received := []
  copies := []

theorem RecvSocket.accepted_atFrameStart {socket_ : Nat} (h : socket_ ≠ 0) :
    (accepted socket_).AtFrameStart := ⟨h, rfl, rfl, rfl, rfl⟩

/-- A frame with a payload and an empty one, a byte at a time. -/
theorem receiver_run_two_frames : ∃ sock',
    (receiver .agentSocket).run (RecvSocket.accepted 1)
      (([2, 0, 6, 0, 104, 105, 0, 0, 9, 0].map ([·])).map (.bytes · true)) = some sock' ∧
    sock'.operationQueue = [⟨2, 6, [104, 105], some .agent⟩, ⟨0, 9, [], some .agent⟩] ∧
    sock'.AtFrameStart := by
  have hs := RecvSocket.accepted_atFrameStart (by decide : 1 ≠ 0)
  let frames : List Frame :=
    [⟨6, [104, 105], by decide, by decide⟩, ⟨9, [], by decide, by decide⟩]
  have hframes : (frames.map Frame.bytes).flatten = [2, 0, 6, 0, 104, 105, 0, 0, 9, 0] := by
    decide
  obtain ⟨-, -, -, hmeets⟩ := run_bytes _ (hs.tracks SocketClass.agentSocket.ownert)
    fun xs b mid hpre _ _ => ((bounded_frames frames).mono
      ((List.prefix_append xs [b]).trans hpre)).needed_le
  rw [hframes] at hmeets
  exact receiver_run_frames .agentSocket hs frames _ (by rw [hframes]; decide) hmeets

/-! ### Staying inside the buffers -/

/-- The bounds of the receive path: of the outstanding request, and of every copy made. -/
structure RecvSocket.Safe (sock : RecvSocket) : Prop where
  request : ∀ r, sock.wsaRecvBuf = some r → r = ⟨sock.position, sock.remainBytes⟩ ∧
    0 ≤ sock.position ∧ 0 < sock.remainBytes ∧ sock.position + sock.remainBytes ≤ bufSize
  copies : ∀ c ∈ sock.copies,
    headerSize ≤ c.count ∧ c.count ≤ bufSize ∧ c.count = c.frame.length

/-- Every state that the stream can lead to, in any segmentation, is within the bounds, and so is
what the next delivery does there. -/
def StaysInBuffers (cls : SocketClass) (sock : RecvSocket) (stream : ByteStr) : Prop :=
  ∀ es sock', es.flatMap Completion.data <+: stream → (receiver cls).run sock es = some sock' →
    sock'.Safe ∧ ∀ data, es.flatMap Completion.data ++ data <+: stream →
      WithinRequest sock' (.bytes data true) → (complete cls sock' (.bytes data true)).isSome

theorem Tracks.safe {ownert : Option OwnerType} {start sock : RecvSocket} {bs : ByteStr}
    (h : Tracks ownert start bs sock) (hstart : start.copies = []) (hbound : Bounded bs) :
    sock.Safe where
  request r hr := by
    have hpos := h.position
    have hrem := h.remainBytes
    have hlt := FrameFormat.rest_lt (F := frameFormat) bs
    have hroom := hbound.needed_le
    cases h.wsaRecvBuf.symm.trans hr
    exact ⟨rfl, by omega, by omega, by omega⟩
  copies c hc := by
    rw [h.copies, hstart, List.nil_append] at hc
    obtain ⟨f, hf, rfl⟩ := List.mem_map.mp hc
    have hframe : f.length = headerSize + frameFormat.payloadLength f :=
      FrameFormat.isFrame_of_mem_split hf
    have hL := hbound _ (List.mem_append_left _ (List.mem_map_of_mem hf))
    simp only [bufSize, headerSize] at hL hframe ⊢
    exact ⟨by omega, by omega, trivial⟩

/-- A pool block is only ever missing for a complete frame. -/
theorem recvProcess_of_alloc {ownert : Option OwnerType} {sock sock' : RecvSocket} {n : Nat}
    {isError alloc : Bool} (h : sock.recvProcess ownert isError n alloc = some sock') :
    sock.recvProcess ownert isError n true = some sock' := by
  cases alloc with
  | true => exact h
  | false =>
    simp only [RecvSocket.recvProcess, RecvSocket.takePacket, Bool.false_eq_true, if_false,
      if_true, Option.map_none] at h ⊢
    split_ifs at h ⊢ <;> exact h

theorem complete_of_alloc {cls : SocketClass} {sock sock' : RecvSocket} {data : ByteStr}
    {alloc : Bool} (h : complete cls sock (.bytes data alloc) = some sock') :
    complete cls sock (.bytes data true) = some sock' := by
  unfold complete at h ⊢
  cases hr : sock.wsaRecvBuf with
  | none => simp [hr] at h
  | some r =>
    simp only [hr, Option.ite_none_right_eq_some] at h ⊢
    refine ⟨h.1, ?_⟩
    obtain ⟨mid, hmid, hproc⟩ := Option.bind_eq_some_iff.mp h.2
    rw [SocketClass.recvProcess_eq] at hproc ⊢
    rw [hmid]
    exact recvProcess_of_alloc hproc

theorem withinRequest_of_complete {cls : SocketClass} {sock sock' : RecvSocket} {data : ByteStr}
    {alloc : Bool} (h : complete cls sock (.bytes data alloc) = some sock') :
    WithinRequest sock (.bytes data true) := by
  unfold complete at h
  cases hr : sock.wsaRecvBuf with
  | none => simp [hr] at h
  | some r =>
    simp only [hr, Option.ite_none_right_eq_some] at h
    exact ⟨r, hr, h.1⟩

/-- After an error or the end of the stream nothing is requested any more. -/
theorem complete_end {cls : SocketClass} {sock sock' : RecvSocket} {c : Completion}
    (hc : c = .closed ∨ c = .error) (h : complete cls sock c = some sock') :
    sock'.wsaRecvBuf = none ∧ sock'.copies = sock.copies := by
  unfold complete at h
  cases hr : sock.wsaRecvBuf with
  | none => rcases hc with rfl | rfl <;> simp [hr] at h
  | some r =>
    rcases hc with rfl | rfl <;>
      simp [hr, SocketClass.recvProcess_eq, RecvSocket.recvProcess] at h <;>
      cases h <;> exact ⟨rfl, rfl⟩

/-- The states of a receiver fed with the bytes `bs`: it follows the stream, or it has seen its
end. -/
def Follows (cls : SocketClass) (start : RecvSocket) (bs : ByteStr) (sock : RecvSocket) : Prop :=
  Tracks cls.ownert start bs sock ∨ sock.wsaRecvBuf = none ∧ sock.Safe

theorem Follows.next {cls : SocketClass} {start sock sock' : RecvSocket} {bs : ByteStr}
    {c : Completion} (h : Follows cls start bs sock) (hstart : start.copies = [])
    (hbound : Bounded bs) (hstep : complete cls sock c = some sock') :
    Follows cls start (bs ++ c.data) sock' := by
  rcases h with h | ⟨hnone, -⟩
  · have hend : c = .closed ∨ c = .error → Follows cls start (bs ++ c.data) sock' := by
      intro hc
      obtain ⟨hnone, hcopies⟩ := complete_end hc hstep
      refine .inr ⟨hnone, fun r hr => ?_, fun p hp => ?_⟩
      · simp [hnone] at hr
      · exact (h.safe hstart hbound).copies p (hcopies ▸ hp)
    cases c with
    | bytes data alloc =>
      have hreq := withinRequest_of_complete hstep
      obtain ⟨s, hs, htracks⟩ := h.complete hbound.needed_le hreq
      cases hs.symm.trans (complete_of_alloc hstep)
      exact .inl htracks
    | closed => exact hend (.inl rfl)
    | error => exact hend (.inr rfl)
  · simp [complete, hnone] at hstep

/-- A safe request has room for what the unfinished frame needs. -/
theorem Tracks.needed_le_of_safe {ownert : Option OwnerType} {start sock : RecvSocket}
    {bs : ByteStr} (h : Tracks ownert start bs sock) (hsafe : sock.Safe) :
    frameFormat.needed (frameFormat.split bs).2 ≤ bufSize := by
  have hpos := h.position
  have hrem := h.remainBytes
  obtain ⟨-, -, -, hle⟩ := hsafe.request _ h.wsaRecvBuf
  omega

/-- A safe state has seen no header that leaves no room for itself: the complete frames are among
the copies, and the unfinished one is in the request. -/
theorem Tracks.bounded_of_safe {ownert : Option OwnerType} {start sock : RecvSocket}
    {bs : ByteStr} (h : Tracks ownert start bs sock) (hsafe : sock.Safe) : Bounded bs := by
  intro L hL
  rcases List.mem_append.mp hL with hL | hL
  · obtain ⟨f, hf, rfl⟩ := List.mem_map.mp hL
    have hcopy := hsafe.copies ⟨f.length, f⟩ (by
      rw [h.copies]
      exact List.mem_append_right _ (List.mem_map_of_mem hf))
    have hframe : f.length = headerSize + frameFormat.payloadLength f :=
      FrameFormat.isFrame_of_mem_split hf
    simp only at hcopy
    omega
  · split at hL
    · rename_i hhead
      cases List.mem_singleton.mp hL
      have hneeded := h.needed_le_of_safe hsafe
      rw [FrameFormat.needed_of_le hhead] at hneeded
      exact Nat.le_sub_of_add_le' hneeded
    · cases hL

theorem flatMap_bytes (bs : ByteStr) :
    (bs.map fun b => Completion.bytes [b] true).flatMap Completion.data = bs := by
  induction bs with
  | nil => rfl
  | cons b bs ih => simp [Completion.data, ih]

/-- Fed byte by byte, the socket shows every announced length in a request or in a copy. -/
theorem bounded_of_staysInBuffers {cls : SocketClass} {sock : RecvSocket} {stream : ByteStr}
    (hs : sock.AtFrameStart) (hsafe : StaysInBuffers cls sock stream) : Bounded stream := by
  obtain ⟨last, hrun, htracks, -⟩ := run_bytes stream (hs.tracks cls.ownert)
    fun xs b mid hpre hrun hmid => hmid.needed_le_of_safe (hsafe _ mid (by
      rw [flatMap_bytes]
      exact (List.prefix_append xs [b]).trans hpre) hrun).1
  exact htracks.bounded_of_safe (hsafe _ last (by rw [flatMap_bytes]) hrun).1

theorem Bounded.staysInBuffers {cls : SocketClass} {sock : RecvSocket} {stream : ByteStr}
    (hbound : Bounded stream) (hs : sock.AtFrameStart) (hcopies : sock.copies = []) :
    StaysInBuffers cls sock stream := by
  intro es sock' hpre hrun
  have hfollows : Bounded (es.flatMap Completion.data) →
      Follows cls sock (es.flatMap Completion.data) sock' := by
    refine EventMachine.run_induction (M := receiver cls)
      (P := fun es s => Bounded (es.flatMap Completion.data) →
        Follows cls sock (es.flatMap Completion.data) s)
      (fun _ => .inl (hs.tracks _)) (fun es e s s' _ ih hstep hb => ?_) hrun
    rw [List.flatMap_append, List.flatMap_singleton] at hb ⊢
    have hb' := hb.mono (List.prefix_append _ _)
    exact (ih hb').next hcopies hb' hstep
  have hb := hbound.mono hpre
  rcases hfollows hb with h | ⟨hnone, hsafe⟩
  · refine ⟨h.safe hcopies hb, fun data _ hreq => ?_⟩
    obtain ⟨s, hs, -⟩ := h.complete hb.needed_le hreq
    simp [hs]
  · refine ⟨hsafe, fun data _ hreq => ?_⟩
    obtain ⟨r, hr, -⟩ := hreq
    simp [hnone] at hr

/-- The receive path stays inside its buffers exactly when no header of the stream announces a
payload for which the header leaves no room. -/
theorem staysInBuffers_iff (cls : SocketClass) {sock : RecvSocket} (hs : sock.AtFrameStart)
    (hcopies : sock.copies = []) (stream : ByteStr) :
    StaysInBuffers cls sock stream ↔
      ∀ L ∈ frameFormat.announced stream, L ≤ bufSize - headerSize :=
  ⟨bounded_of_staysInBuffers hs, fun h => Bounded.staysInBuffers h hs hcopies⟩

/-- A stream of one frame with the payload `hi`. -/
theorem staysInBuffers_hi :
    StaysInBuffers .agentSocket (RecvSocket.accepted 1) [2, 0, 6, 0, 104, 105] := by
  have hs := RecvSocket.accepted_atFrameStart (by decide : 1 ≠ 0)
  refine (staysInBuffers_iff .agentSocket hs rfl _).mpr ?_
  exact bounded_frames [⟨6, [104, 105], by decide, by decide⟩]

/-- The header of a frame of 8193 bytes, one more than `recvBuf_` holds. -/
theorem not_staysInBuffers_8189 :
    ¬StaysInBuffers .agentSocket (RecvSocket.accepted 1) [253, 31, 0, 0] := by
  intro h
  have hs := RecvSocket.accepted_atFrameStart (by decide : 1 ≠ 0)
  have hlt : ([253, 31, 0, 0] : ByteStr).length < frameFormat.needed [253, 31, 0, 0] := by decide
  have hL := bounded_of_staysInBuffers hs h 8189
    (by rw [FrameFormat.announced_of_lt hlt]; decide)
  exact absurd hL (by decide)

end PSM
