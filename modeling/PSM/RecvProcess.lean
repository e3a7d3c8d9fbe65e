import PSM.Lib.EventMachine
import PSM.Lib.ByteStr

/-! The receive path of a socket (`TcpSocket::Recv`, `RecvProcess`, `CPacket`).

`RecvProcess` is called for every completed receive. It counts in `position` the bytes of the
current frame that have arrived and in `remainBytes` those that are still to come, first of the
header and then of the payload, and passes each complete frame to the logic queue. The bodies in
`AgentSocket`, `WebCommandSocket` and `AgentClientSocket` differ in the owner they store. -/

namespace PSM
open ByteStr

/-- `BUFSIZE`: the size of `recvBuf_` and of the payload area of a packet. -/
def bufSize : Nat := 8192

/-- `HEADER_SIZE`: two bytes of length and two bytes of type. -/
def headerSize : Nat := 4

/-- `CPacket::ownerType`. -/
inductive OwnerType where
  | agent
  | webCommand
  deriving DecidableEq

/-- A packet of the logic queue. Of the payload area the bytes that were copied are kept; the
client's packets have no owner type. -/
structure CPacket where
  length : Int
  type : Int
  msg : ByteStr
  ownert : Option OwnerType
  deriving DecidableEq

/-- The request of an outstanding `WSARecv`: where in `recvBuf_` it writes, and at most how many
bytes. -/
structure WsaBuf where
  buf : Int
  len : Int
  deriving DecidableEq

/-- One `memcpy` into a packet: the count it was given and the bytes received for the frame. -/
structure PacketCopy where
  count : Int
  frame : ByteStr
  deriving DecidableEq

/-- The part of a socket that the receive path reads and writes. `received` (the bytes that
arrived since the last packet) and `copies` are not in the program: they record what it did. -/
structure RecvSocket where
  socket_ : Nat
  position : Int
  remainBytes : Int
  recvBuf_ : Buffer bufSize
  wsaRecvBuf : Option WsaBuf
  disconnectCall : Bool
  operationQueue : List CPacket
  received : ByteStr
  copies : List PacketCopy

namespace RecvSocket

/-- `TcpSocket::Recv(buf, buflen)`, with `buf` counted from the start of `recvBuf_`. -/
def recv (sock : RecvSocket) (buf buflen : Int) : RecvSocket :=
  { sock with wsaRecvBuf := some ⟨buf, buflen⟩ }

/-- `TcpSocket::Disconnect`, as far as the receive path sees it. -/
def disconnect (sock : RecvSocket) : RecvSocket := { sock with disconnectCall := true }

/-- `memcpy(&n, buf, LENGTH_SIZE)`: only the low half of `n` is overwritten. -/
def copyLength (n : Int) (buf : Buffer bufSize) : Int := n - n % 65536 + readLe16 buf.bytes

/-- `memcpy(msg, buf, count)` into a packet whose owner is then set. A count outside `recvBuf_`
(a negative one is converted to an unsigned size) has no defined result. -/
def copyPacket (ownert : Option OwnerType) (buf : Buffer bufSize) (count : Int) :
    Option CPacket :=
  if headerSize ≤ count ∧ count ≤ bufSize then
    some {
      length := toShort (readLe16 buf.bytes)
      type := toShort (readLe16 (buf.bytes.drop 2))
      msg := (buf.bytes.take count.toNat).drop headerSize
      ownert }
  else none

/-- The two counters after `bytesTransferred` more bytes. -/
def count (sock : RecvSocket) (bytesTransferred : Nat) : RecvSocket :=
  { sock with
    position := sock.position + bytesTransferred
    remainBytes := sock.remainBytes - bytesTransferred }

/-- When exactly the header has arrived, the payload length is read into `remainBytes`. -/
def readLength (sock : RecvSocket) : RecvSocket :=
  if sock.position = headerSize ∧ sock.remainBytes = 0 then
    { sock with remainBytes := copyLength sock.remainBytes sock.recvBuf_ }
  else sock

/-- The end of a frame: the packet is copied into a block of the pool and enqueued. `alloc` is
whether the pool has a block left; without one the copy goes through a null pointer. -/
def takePacket (sock : RecvSocket) (ownert : Option OwnerType) (alloc : Bool) :
    Option RecvSocket :=
  let count := headerSize + toShort (readLe16 sock.recvBuf_.bytes)
  if alloc then
    (copyPacket ownert sock.recvBuf_ count).map fun msg =>
      { sock with
        position := 0
        remainBytes := headerSize
        operationQueue := sock.operationQueue ++ [msg]
        received := []
        copies := sock.copies ++ [⟨count, sock.received⟩] }
  else none

/-- `RecvProcess`. -/
def recvProcess (ownert : Option OwnerType) (sock : RecvSocket) (isError : Bool)
    (bytesTransferred : Nat) (alloc : Bool) : Option RecvSocket :=
  if isError then some sock.disconnect
  else if bytesTransferred = 0 then some sock.disconnect
  else
    let sock := sock.count bytesTransferred
    if sock.socket_ = 0 then some sock
    else if sock.position < headerSize then
      let sock := if sock.position = 0 then { sock with remainBytes := headerSize } else sock
      some (sock.recv sock.position sock.remainBytes)
    else
      let sock := sock.readLength
      if sock.remainBytes = 0 then
        (sock.takePacket ownert alloc).map fun sock => sock.recv sock.position sock.remainBytes
      else some (sock.recv sock.position sock.remainBytes)

/-- The kernel writes the delivered bytes where the request says. A byte outside `recvBuf_` has
no defined result. -/
def kernelWrite (sock : RecvSocket) (r : WsaBuf) (data : ByteStr) : Option RecvSocket :=
  if r.buf < 0 then none
  else (sock.recvBuf_.write r.buf.toNat data).map fun buf =>
    { sock with recvBuf_ := buf, wsaRecvBuf := none, received := sock.received ++ data }

end RecvSocket

def AgentSocket.recvProcess := RecvSocket.recvProcess (some .agent)
def WebCommandSocket.recvProcess := RecvSocket.recvProcess (some .webCommand)
def AgentClientSocket.recvProcess := RecvSocket.recvProcess none

/-- The three classes with a `RecvProcess`. -/
inductive SocketClass where
  | agentSocket
  | webCommandSocket
  | agentClientSocket
  deriving DecidableEq

namespace SocketClass

/-- The owner type that the class stores in its packets. -/
def ownert : SocketClass → Option OwnerType
  | .agentSocket => some .agent
  | .webCommandSocket => some .webCommand
  | .agentClientSocket => none

def recvProcess : SocketClass → RecvSocket → Bool → Nat → Bool → Option RecvSocket
  | .agentSocket => AgentSocket.recvProcess
  | .webCommandSocket => WebCommandSocket.recvProcess
  | .agentClientSocket => AgentClientSocket.recvProcess

theorem recvProcess_eq (cls : SocketClass) :
    cls.recvProcess = RecvSocket.recvProcess cls.ownert := by
  cases cls <;> rfl

end SocketClass

/-- How an outstanding receive completes. -/
inductive Completion where
  | bytes (data : ByteStr) (alloc : Bool)
  | closed
  | error

/-- The bytes that a completion delivers. -/
def Completion.data : Completion → ByteStr
  | .bytes data _ => data
  | _ => []

/-- The completion delivers between 1 and the requested number of bytes. -/
def WithinRequest (sock : RecvSocket) : Completion → Prop
  | .bytes data _ => ∃ r, sock.wsaRecvBuf = some r ∧ 1 ≤ data.length ∧ data.length ≤ r.len
  | _ => ∃ r, sock.wsaRecvBuf = some r

/-- The completion of the outstanding receive: the kernel's write, if any, then `RecvProcess`. -/
def complete (cls : SocketClass) (sock : RecvSocket) (c : Completion) : Option RecvSocket :=
  match sock.wsaRecvBuf, c with
  | none, _ => none
  | some r, .bytes data alloc =>
    if 1 ≤ data.length ∧ data.length ≤ r.len then
      (sock.kernelWrite r data).bind fun sock => cls.recvProcess sock false data.length alloc
    else none
  | some _, .closed => cls.recvProcess { sock with wsaRecvBuf := none } false 0 true
  | some _, .error => cls.recvProcess { sock with wsaRecvBuf := none } true 0 true

/-- The receiving socket of a class, driven by the completions of its receives. -/
def receiver (cls : SocketClass) : EventMachine RecvSocket Completion := ⟨complete cls⟩

end PSM
