import PSM.Lib.EventMachine
import Mathlib

/-! The socket pools of `TcpAgentServer` and `TcpWebCommandServer`.

`Start` creates `socketPoolSize_` sockets and posts an `AcceptEx` for each. A socket is then
accepted and listed, receives, and is disconnected; the handlers of its completions are
`AcceptProcess`, `RecvProcess` and `DisconnProcess`, and the heartbeat thread disconnects the
listed sockets that did not answer. A socket that is neither registered for accept nor listed nor
being disconnected is lost to the pool; nothing brings it back, since `TcpSocket::Reuse` is never
called. One whose `TransmitFile` fails at once stays listed and can no longer be disconnected, since
`disconnectCall` stays set. -/

namespace PSM

/-- The outstanding operations of a socket and the flags that its handlers use. -/
structure PoolSocket where
  accepting : Bool
  receiving : Bool
  disconnecting : Bool
  disconnectCall : Bool
  healthCheck : Bool

namespace PoolSocket

/-- A socket after `TcpSocket::Init`. -/
def init : PoolSocket := ⟨false, false, false, false, true⟩

/-- `Acceptor::Register`. `posted` is whether `AcceptEx` succeeds or is pending. -/
def register (sock : PoolSocket) (posted : Bool) : PoolSocket := { sock with accepting := posted }

/-- `TcpSocket::Recv`. -/
def recv (sock : PoolSocket) (posted : Bool) : PoolSocket := { sock with receiving := posted }

/-- `TcpSocket::Disconnect`. `posted` is whether `TransmitFile` succeeds or is pending. -/
def disconnect (sock : PoolSocket) (posted : Bool) : PoolSocket :=
  if sock.disconnectCall then sock
  else { sock with disconnectCall := true, disconnecting := posted }

/-- `RecvProcess`, from the point of view of the pool. -/
def recvProcess (sock : PoolSocket) (isError : Bool) (bytesTransferred : Nat) (posted : Bool) :
    PoolSocket :=
  if isError then sock.disconnect posted
  else if bytesTransferred = 0 then sock.disconnect posted
  else sock.recv posted

end PoolSocket

/-- A server: `created` sockets of its pool, numbered from 0, and its connection list
(`agentList`, `webCommandList`). -/
structure TcpServer where
  socketPoolSize_ : Nat
  created : Nat
  socket : Nat → PoolSocket
  connList : List Nat

/-- What a completion or the heartbeat does to one socket. -/
inductive SocketEvent where
  | acceptDone (isError posted : Bool)
  | recvDone (isError : Bool) (bytesTransferred : Nat) (posted : Bool)
  | disconnectDone (isError : Bool)
  /-- `HeartbeatCheck` sends its request. -/
  | healthClear
  /-- A `HealthAck` is handled. -/
  | healthAck
  /-- `HeartbeatCheck` looks at the answers. -/
  | healthTest (posted : Bool)

inductive PoolEvent where
  /-- One round of the loop in `Start`. -/
  | create (posted : Bool)
  | on (i : Nat) (e : SocketEvent)

namespace TcpServer

def init (socketPoolSize_ : Nat) : TcpServer :=
  ⟨socketPoolSize_, 0, fun _ => PoolSocket.init, []⟩

def set (s : TcpServer) (i : Nat) (sock : PoolSocket) : TcpServer :=
  { s with socket := Function.update s.socket i sock }

/-- `AddAgent`, `AddSocket`. -/
def addSocket (s : TcpServer) (i : Nat) : TcpServer := { s with connList := s.connList ++ [i] }

/-- `DeleteAgent`, `DeleteSocket`. -/
def deleteSocket (s : TcpServer) (i : Nat) : TcpServer :=
  { s with connList := s.connList.filter (· ≠ i) }

/-- `AcceptProcess`, of both classes. The fields that only the protocol uses are left out. -/
def acceptProcess (s : TcpServer) (i : Nat) (isError posted : Bool) : TcpServer :=
  if isError then s
  else (s.addSocket i).set i (({ s.socket i with healthCheck := true } : PoolSocket).recv posted)

/-- `DisconnProcess`, of both classes. What the agent's class also does to the store is left
out. -/
def disconnProcess (s : TcpServer) (i : Nat) (isError : Bool) : TcpServer :=
  if isError then s else s.deleteSocket i

def step (s : TcpServer) : PoolEvent → Option TcpServer
  | .create posted =>
    if s.created < s.socketPoolSize_ then
      some { s.set s.created (PoolSocket.init.register posted) with created := s.created + 1 }
    else none
  | .on i (.acceptDone isError posted) =>
    if (s.socket i).accepting then
      some ((s.set i { s.socket i with accepting := false }).acceptProcess i isError posted)
    else none
  | .on i (.recvDone isError bytesTransferred posted) =>
    if (s.socket i).receiving then
      some (s.set i (({ s.socket i with receiving := false } : PoolSocket).recvProcess isError
        bytesTransferred posted))
    else none
  | .on i (.disconnectDone isError) =>
    -- `Disconnector::ProcError` resets the flag, `Disconnector::ProcEvent` does not
    if (s.socket i).disconnecting then
      some ((s.set i { s.socket i with
        disconnecting := false
        disconnectCall := (s.socket i).disconnectCall && !isError }).disconnProcess i isError)
    else none
  | .on i .healthClear =>
    if i ∈ s.connList then some (s.set i { s.socket i with healthCheck := false }) else none
  | .on i .healthAck =>
    if i < s.created then some (s.set i { s.socket i with healthCheck := true }) else none
  | .on i (.healthTest posted) =>
    if i ∈ s.connList ∧ (s.socket i).healthCheck = false then
      some (s.set i ((s.socket i).disconnect posted))
    else none

def machine : EventMachine TcpServer PoolEvent := ⟨step⟩

end TcpServer

/-! ## One socket -/

/-- A socket and whether it is in the connection list. -/
structure Member where
  sock : PoolSocket
  listed : Bool

namespace Member

/-- What an event does to the socket it is about. -/
inductive Change (m : Member) : SocketEvent → Member → Prop where
  | accepted : m.sock.accepting = true → Change m (.acceptDone false posted)
      ⟨{ m.sock with accepting := false, healthCheck := true, receiving := posted }, true⟩
  | acceptError : m.sock.accepting = true → Change m (.acceptDone true posted)
      { m with sock := { m.sock with accepting := false } }
  | received : m.sock.receiving = true → n ≠ 0 → Change m (.recvDone false n posted)
      { m with sock := { m.sock with receiving := posted } }
  | ended : m.sock.receiving = true → isError = true ∨ n = 0 →
      Change m (.recvDone isError n posted)
        { m with sock := ({ m.sock with receiving := false } : PoolSocket).disconnect posted }
  | disconnected : m.sock.disconnecting = true → Change m (.disconnectDone false)
      ⟨{ m.sock with disconnecting := false }, false⟩
  | disconnectError : m.sock.disconnecting = true → Change m (.disconnectDone true)
      { m with sock := { m.sock with disconnecting := false, disconnectCall := false } }
  | healthClear : Change m .healthClear { m with sock := { m.sock with healthCheck := false } }
  | healthAck : Change m .healthAck { m with sock := { m.sock with healthCheck := true } }
  | healthTest : m.listed = true →
      Change m (.healthTest posted) { m with sock := m.sock.disconnect posted }

/-- The states that a socket of the pool can be in. -/
structure Sane (m : Member) : Prop where
  accepting : m.sock.accepting = true →
    m.listed = false ∧ m.sock.receiving = false ∧ m.sock.disconnecting = false
  receiving : m.sock.receiving = true → m.listed = true ∨ m.sock.disconnectCall = true
  disconnecting : m.sock.disconnecting = true →
    m.listed = true ∧ m.sock.disconnectCall = true

/-- The socket is registered with the acceptor, in the connection list, or being disconnected. -/
def Kept (m : Member) : Prop :=
  m.sock.accepting = true ∨ m.listed = true ∨ m.sock.disconnecting = true

theorem Sane.stopReceiving {m : Member} (h : m.Sane) :
    Sane { m with sock := { m.sock with receiving := false } } :=
  ⟨fun hacc => ⟨(h.accepting hacc).1, rfl, (h.accepting hacc).2.2⟩, (nomatch ·), h.disconnecting⟩

theorem Sane.disconnect {m : Member} (h : m.Sane) (posted : Bool)
    (hd : m.listed = true ∨ m.sock.disconnectCall = true) :
    Sane { m with sock := m.sock.disconnect posted } := by
  unfold PoolSocket.disconnect
  split
  · exact h
  · rename_i hcall
    have hl : m.listed = true := hd.resolve_right hcall
    exact ⟨fun hacc => absurd hl (by simp [(h.accepting hacc).1]), fun _ => .inl hl,
      fun _ => ⟨hl, rfl⟩⟩

theorem Sane.change {m m' : Member} {e : SocketEvent} (h : m.Sane) (hc : Change m e m') :
    m'.Sane := by
  obtain ⟨ha, hr, hd⟩ := h
  cases hc with
  | accepted hacc => obtain ⟨-, hrecv, hdisc⟩ := ha hacc; constructor <;> simp_all
  | acceptError | disconnected | disconnectError => constructor <;> simp_all
  | received hrecv => exact ⟨fun hacc => by simp [(ha hacc).2.1] at hrecv, fun _ => hr hrecv, hd⟩
  | ended hrecv => exact Sane.disconnect (Sane.stopReceiving ⟨ha, hr, hd⟩) _ (hr hrecv)
  | healthClear | healthAck => exact ⟨ha, hr, hd⟩
  | healthTest hl => exact Sane.disconnect ⟨ha, hr, hd⟩ _ (.inl hl)

/-- Nothing has been done with the socket. -/
def Idle (m : Member) : Prop :=
  m.sock.accepting = false ∧ m.sock.receiving = false ∧ m.sock.disconnecting = false ∧
    m.listed = false

theorem Idle.change {m m' : Member} {e : SocketEvent} (h : m.Idle) (hc : Change m e m') :
    m'.Idle := by
  cases hc <;> simp_all [Idle]

/-- The events that take a socket out of the pool. -/
def Loses : SocketEvent → Prop
  | .acceptDone isError _ => isError = true
  | .disconnectDone isError => isError = false
  | _ => False

theorem Idle.not_loses {m m' : Member} {e : SocketEvent} (h : m.Idle) (hc : Change m e m') :
    ¬Loses e := by
  cases hc <;> simp_all [Idle, Loses]

theorem Kept.disconnect {m : Member} (h : m.Kept) (posted : Bool)
    (hd : m.listed = true ∨ m.sock.disconnectCall = true) :
    Kept { m with sock := m.sock.disconnect posted } := by
  unfold PoolSocket.disconnect
  split
  · exact h
  · exact .inr (.inl (hd.resolve_right ‹_›))

theorem Kept.change {m m' : Member} {e : SocketEvent} (h : m.Kept) (hs : m.Sane)
    (hc : Change m e m') (hl : ¬Loses e) : m'.Kept := by
  cases hc with
  | accepted => exact .inr (.inl rfl)
  | acceptError | disconnected => exact absurd rfl hl
  | received | healthClear | healthAck => exact h
  | ended hrecv =>
    exact Kept.disconnect (m := { m with sock := { m.sock with receiving := false } }) h _
      (hs.receiving hrecv)
  | disconnectError hd => exact .inr (.inl (hs.disconnecting hd).1)
  | healthTest hlist => exact h.disconnect _ (.inl hlist)

theorem not_kept_of_loses {m m' : Member} {e : SocketEvent} (hs : m.Sane)
    (hc : Change m e m') (hl : Loses e) : ¬m'.Kept := by
  cases hc with
  | acceptError hacc =>
    obtain ⟨hlist, -, hdisc⟩ := hs.accepting hacc
    simp [Kept, hlist, hdisc]
  | disconnected hd =>
    have hacc : m.sock.accepting ≠ true := fun hacc => by simp [(hs.accepting hacc).2.2] at hd
    simp [Kept, hacc]
  | accepted | disconnectError => cases hl
  | _ => exact hl.elim

/-- No event brings a socket back. -/
theorem not_kept_change {m m' : Member} {e : SocketEvent} (h : ¬m.Kept) (hs : m.Sane)
    (hc : Change m e m') : ¬m'.Kept := by
  simp only [Kept, not_or, Bool.not_eq_true] at h
  obtain ⟨hacc, hlist, hdisc⟩ := h
  cases hc with
  | ended hrecv =>
    have hcall := (hs.receiving hrecv).resolve_left (by simp [hlist])
    simp [Kept, PoolSocket.disconnect, hcall, hacc, hlist, hdisc]
  | _ => simp_all [Kept]

/-- A listed socket that is marked as disconnected is being disconnected. -/
def NoZombie (m : Member) : Prop :=
  m.listed = true → m.sock.disconnectCall = true → m.sock.disconnecting = true

/-- A socket that waits for a connection has not been marked as disconnected. -/
def Fresh (m : Member) : Prop := m.sock.accepting = true → m.sock.disconnectCall = false

/-- The event calls `Disconnect`. -/
def Ends : SocketEvent → Prop
  | .recvDone isError n _ => isError = true ∨ n = 0
  | .healthTest _ => True
  | _ => False

/-- What `TransmitFile` returns when the event calls it. -/
def posted? : SocketEvent → Bool
  | .recvDone _ _ posted => posted
  | .healthTest posted => posted
  | _ => true

/-- If the event comes to call `TransmitFile`, the call does not fail at once. -/
def DisconnectPosted (m : Member) (e : SocketEvent) : Prop :=
  Ends e → m.sock.disconnectCall = false → posted? e = true

instance (e : SocketEvent) : Decidable (Ends e) :=
  match e with
  | .recvDone isError n _ => inferInstanceAs (Decidable (isError = true ∨ n = 0))
  | .healthTest _ => isTrue trivial
  | .acceptDone .. => isFalse id
  | .disconnectDone _ => isFalse id
  | .healthClear => isFalse id
  | .healthAck => isFalse id

instance (m : Member) (e : SocketEvent) : Decidable (m.DisconnectPosted e) :=
  inferInstanceAs (Decidable (_ → _ → _))

theorem accepting_disconnect {sock : PoolSocket} {posted : Bool} :
    (sock.disconnect posted).accepting = sock.accepting := by
  unfold PoolSocket.disconnect
  split <;> rfl

theorem Fresh.change {m m' : Member} {e : SocketEvent} (h : m.Fresh) (hs : m.Sane)
    (hc : Change m e m') : m'.Fresh := by
  cases hc with
  | ended hrecv =>
    intro hacc
    rw [accepting_disconnect] at hacc
    exact absurd hrecv (by simp [(hs.accepting hacc).2.1])
  | healthTest hlist =>
    intro hacc
    rw [accepting_disconnect] at hacc
    exact absurd hlist (by simp [(hs.accepting hacc).1])
  | _ => simp_all [Fresh]

/-- A call of `Disconnect` leaves a zombie if it comes to call `TransmitFile` and that fails. -/
theorem noZombie_disconnect_iff {m : Member} {posted : Bool} (h : m.NoZombie)
    (hd : m.listed = true ∨ m.sock.disconnectCall = true) :
    NoZombie { m with sock := m.sock.disconnect posted } ↔
      (m.sock.disconnectCall = false → posted = true) := by
  unfold PoolSocket.disconnect
  split
  · rename_i hcall
    exact iff_of_true h fun hfalse => absurd hcall (by simp [hfalse])
  · rename_i hcall
    have hlisted : m.listed = true := hd.resolve_right hcall
    simp [NoZombie, hlisted, hcall]

theorem noZombie_change_iff {m m' : Member} {e : SocketEvent} (hs : m.Sane) (hf : m.Fresh)
    (hc : Change m e m') (h : m.NoZombie) : m'.NoZombie ↔ m.DisconnectPosted e := by
  cases hc with
  | accepted hacc => simp [NoZombie, DisconnectPosted, Ends, hf hacc]
  | received hrecv hn => exact iff_of_true h fun hends => absurd hends (by simp [Ends, hn])
  | ended hrecv hends =>
    have hd : m.listed = true ∨ m.sock.disconnectCall = true := hs.receiving hrecv
    have hstopped : NoZombie { m with sock := { m.sock with receiving := false } } := h
    rw [noZombie_disconnect_iff hstopped hd]
    exact ⟨fun hposted _ => hposted, fun hposted => hposted hends⟩
  | disconnected => exact iff_of_true (fun hlisted => by cases hlisted) fun hends => hends.elim
  | disconnectError => exact iff_of_true (fun _ hcall => by cases hcall) fun hends => hends.elim
  | healthTest hlist =>
    rw [noZombie_disconnect_iff h (.inl hlist)]
    exact ⟨fun hposted _ => hposted, fun hposted => hposted trivial⟩
  | acceptError | healthClear | healthAck => exact iff_of_true h fun hends => hends.elim

/-- A zombie stays one: its flag stands in the way of another `Disconnect`. -/
theorem not_noZombie_change {m m' : Member} {e : SocketEvent} (hs : m.Sane)
    (hc : Change m e m') (h : ¬m.NoZombie) : ¬m'.NoZombie := by
  simp only [NoZombie, Classical.not_imp, Bool.not_eq_true] at h
  obtain ⟨hlist, hcall, hdisc⟩ := h
  have hkept : ∀ {posted}, m.sock.disconnect posted = m.sock := if_pos hcall
  cases hc with
  | accepted hacc => exact absurd hlist (by simp [(hs.accepting hacc).1])
  | disconnected hd => exact absurd hd (by simp [hdisc])
  | disconnectError hd => exact absurd hd (by simp [hdisc])
  | ended hrecv =>
    simp [NoZombie, PoolSocket.disconnect, hcall, hlist, hdisc]
  | healthTest => simp [NoZombie, hkept, hcall, hlist, hdisc]
  | _ => simp [NoZombie, hcall, hlist, hdisc]

end Member

/-! ## The pool -/

namespace TcpServer

def member (s : TcpServer) (i : Nat) : Member := ⟨s.socket i, s.connList.contains i⟩

section member
variable {s : TcpServer} {i j : Nat} {sock : PoolSocket}

@[simp] theorem member_sock : (s.member i).sock = s.socket i := rfl

@[simp] theorem socket_set_self : (s.set i sock).socket i = sock := by simp [set]

@[simp] theorem socket_addSocket : (s.addSocket i).socket = s.socket := rfl

@[simp] theorem member_set_self : (s.set i sock).member i = { s.member i with sock } := by
  simp [member, set]

@[simp] theorem member_set_of_ne (h : j ≠ i) : (s.set i sock).member j = s.member j := by
  simp [member, set, h]

@[simp] theorem member_addSocket_self :
    (s.addSocket i).member i = { s.member i with listed := true } := by
  simp [member, addSocket]

@[simp] theorem member_addSocket_of_ne (h : j ≠ i) : (s.addSocket i).member j = s.member j := by
  simp [member, addSocket, h]

@[simp] theorem member_deleteSocket_self :
    (s.deleteSocket i).member i = { s.member i with listed := false } := by
  simp [member, deleteSocket]

@[simp] theorem member_deleteSocket_of_ne (h : j ≠ i) :
    (s.deleteSocket i).member j = s.member j := by
  simp [member, deleteSocket, h]

theorem listed_iff : (s.member i).listed = true ↔ i ∈ s.connList := by simp [member]

end member

/-- An event about one socket changes that socket alone. -/
structure ChangesOnly (s s' : TcpServer) (i : Nat) (e : SocketEvent) : Prop where
  change : (s.member i).Change e (s'.member i)
  other : ∀ j, j ≠ i → s'.member j = s.member j
  created : s'.created = s.created
  poolSize : s'.socketPoolSize_ = s.socketPoolSize_

theorem changesOnly_set {s : TcpServer} {i : Nat} {e : SocketEvent} {sock : PoolSocket}
    (h : (s.member i).Change e { s.member i with sock }) : ChangesOnly s (s.set i sock) i e :=
  ⟨by simpa using h, fun j hj => member_set_of_ne hj, rfl, rfl⟩

theorem step_on {s s' : TcpServer} {i : Nat} {e : SocketEvent}
    (hstep : machine.step s (.on i e) = some s') : ChangesOnly s s' i e := by
  cases e with
  | acceptDone isError posted =>
    simp only [machine, step, Option.ite_none_right_eq_some, Option.some.injEq] at hstep
    obtain ⟨hacc, rfl⟩ := hstep
    cases isError with
    | true => exact changesOnly_set (.acceptError hacc)
    | false =>
      refine ⟨?_, fun j hj => ?_, rfl, rfl⟩
      · have : (s.member i).Change (.acceptDone false posted) _ := .accepted hacc
        simpa [acceptProcess, PoolSocket.recv] using this
      · simp [acceptProcess, hj]
  | recvDone isError n posted =>
    simp only [machine, step, Option.ite_none_right_eq_some, Option.some.injEq] at hstep
    obtain ⟨hrecv, rfl⟩ := hstep
    refine changesOnly_set ?_
    unfold PoolSocket.recvProcess
    split
    · exact .ended hrecv (.inl ‹_›)
    · split
      · exact .ended hrecv (.inr ‹_›)
      · simp only [Bool.not_eq_true] at *
        subst isError
        exact .received hrecv ‹_›
  | disconnectDone isError =>
    simp only [machine, step, Option.ite_none_right_eq_some, Option.some.injEq] at hstep
    obtain ⟨hdisc, rfl⟩ := hstep
    cases isError with
    | true => exact changesOnly_set (by simpa using .disconnectError hdisc)
    | false =>
      refine ⟨?_, fun j hj => ?_, rfl, rfl⟩
      · have := Member.Change.disconnected (m := s.member i) hdisc
        simpa [disconnProcess] using this
      · simp [disconnProcess, hj]
  | healthClear =>
    simp only [machine, step, Option.ite_none_right_eq_some, Option.some.injEq] at hstep
    obtain ⟨-, rfl⟩ := hstep
    exact changesOnly_set .healthClear
  | healthAck =>
    simp only [machine, step, Option.ite_none_right_eq_some, Option.some.injEq] at hstep
    obtain ⟨-, rfl⟩ := hstep
    exact changesOnly_set .healthAck
  | healthTest posted =>
    simp only [machine, step, Option.ite_none_right_eq_some, Option.some.injEq] at hstep
    obtain ⟨hl, rfl⟩ := hstep
    exact changesOnly_set (.healthTest (listed_iff.mpr hl.1))

/-- Every socket is in a possible state, and those that are still to be created are idle. -/
def Sane (s : TcpServer) : Prop :=
  ∀ i, (s.member i).Sane ∧ (s.created ≤ i → (s.member i).Idle)

/-- Every socket created so far is registered with the acceptor, in the connection list, or being
disconnected. -/
def Kept (s : TcpServer) : Prop := ∀ i < s.created, (s.member i).Kept

/-- No `AcceptEx` fails, and no disconnect completes. -/
def KeepsSockets (_ : TcpServer) : PoolEvent → Prop
  | .create posted => posted = true
  | .on _ e => ¬Member.Loses e

theorem step_create {s s' : TcpServer} {posted : Bool} (h : s.Sane)
    (hstep : machine.step s (.create posted) = some s') :
    s'.member s.created = ⟨PoolSocket.init.register posted, false⟩ ∧
      (∀ j, j ≠ s.created → s'.member j = s.member j) ∧ s'.created = s.created + 1 := by
  simp only [machine, step, Option.ite_none_right_eq_some, Option.some.injEq] at hstep
  obtain ⟨-, rfl⟩ := hstep
  refine ⟨?_, fun j hj => ?_, rfl⟩
  · have hl := ((h s.created).2 (Nat.le_refl _)).2.2.2
    change (s.set s.created _).member s.created = _
    rw [member_set_self]
    simp only [hl]
  · exact member_set_of_ne hj

theorem Sane.step {s s' : TcpServer} {e : PoolEvent} (hstep : machine.step s e = some s')
    (h : s.Sane) : s'.Sane := by
  cases e with
  | create posted =>
    obtain ⟨hself, hother, hcreated⟩ := step_create h hstep
    intro j
    by_cases hj : j = s.created
    · subst hj
      rw [hself, hcreated]
      exact ⟨⟨fun _ => ⟨rfl, rfl, rfl⟩, (nomatch ·), (nomatch ·)⟩, fun hle => by omega⟩
    · rw [hother j hj, hcreated]
      exact ⟨(h j).1, fun hle => (h j).2 (by omega)⟩
  | on i e =>
    have hc := step_on hstep
    intro j
    by_cases hj : j = i
    · subst hj
      rw [hc.created]
      exact ⟨(h j).1.change hc.change, fun hle => ((h j).2 hle).change hc.change⟩
    · rw [hc.other j hj, hc.created]
      exact h j

theorem Kept.step {s s' : TcpServer} {e : PoolEvent} (hstep : machine.step s e = some s')
    (hs : s.Sane) (he : s.KeepsSockets e) (h : s.Kept) : s'.Kept := by
  cases e with
  | create posted =>
    obtain ⟨hself, hother, hcreated⟩ := step_create hs hstep
    intro j hj
    by_cases hjc : j = s.created
    · subst hjc
      rw [hself]
      exact .inl he
    · rw [hother j hjc]
      exact h j (by omega)
  | on i e =>
    have hc := step_on hstep
    intro j hj
    rw [hc.created] at hj
    by_cases hji : j = i
    · subst hji
      exact (h j hj).change (hs j).1 hc.change he
    · rw [hc.other j hji]
      exact h j hj

theorem not_kept_step_of_loses {s s' : TcpServer} {e : PoolEvent}
    (hstep : machine.step s e = some s') (hs : s.Sane) (he : ¬s.KeepsSockets e) : ¬s'.Kept := by
  cases e with
  | create posted =>
    obtain ⟨hself, -, hcreated⟩ := step_create hs hstep
    intro hkept
    have hk := hkept s.created (by omega)
    rw [hself] at hk
    simp only [KeepsSockets, Bool.not_eq_true] at he
    simp [Member.Kept, PoolSocket.register, PoolSocket.init, he] at hk
  | on i e =>
    have hc := step_on hstep
    intro hkept
    have hloses : Member.Loses e := Classical.not_not.mp he
    have hi : i < s.created := by
      by_contra hle
      exact ((hs i).2 (Nat.le_of_not_lt hle)).not_loses hc.change hloses
    exact Member.not_kept_of_loses (hs i).1 hc.change hloses (hkept i (by rw [hc.created]; exact hi))

theorem not_kept_step {s s' : TcpServer} {e : PoolEvent}
    (hstep : machine.step s e = some s') (hs : s.Sane) (h : ¬s.Kept) : ¬s'.Kept := by
  simp only [Kept, not_forall] at h
  obtain ⟨i, hi, hlost⟩ := h
  cases e with
  | create posted =>
    obtain ⟨-, hother, hcreated⟩ := step_create hs hstep
    exact fun hkept => hlost (hother i (by omega) ▸ hkept i (by omega))
  | on j e =>
    have hc := step_on hstep
    intro hkept
    have hk := hkept i (by rw [hc.created]; exact hi)
    by_cases hij : i = j
    · subst hij
      exact Member.not_kept_change hlost (hs i).1 hc.change hk
    · exact hlost (hc.other i hij ▸ hk)

/-- Every listed socket that is marked as disconnected is being disconnected. -/
def NoZombies (s : TcpServer) : Prop := ∀ i, (s.member i).NoZombie

/-- No call of `TransmitFile` fails at once. -/
def DisconnectsPosted (s : TcpServer) : PoolEvent → Prop
  | .create _ => True
  | .on i e => (s.member i).DisconnectPosted e

instance (s : TcpServer) (e : PoolEvent) : Decidable (s.DisconnectsPosted e) :=
  match e with
  | .create _ => isTrue trivial
  | .on i e => inferInstanceAs (Decidable ((s.member i).DisconnectPosted e))

/-- What the sockets rely on, whatever `TransmitFile` returns. -/
def Sound (s : TcpServer) : Prop := s.Sane ∧ ∀ i, (s.member i).Fresh

theorem Sound.step {s s' : TcpServer} {e : PoolEvent} (hstep : machine.step s e = some s')
    (h : s.Sound) : s'.Sound := by
  refine ⟨h.1.step hstep, ?_⟩
  cases e with
  | create posted =>
    obtain ⟨hself, hother, -⟩ := step_create h.1 hstep
    intro j
    by_cases hj : j = s.created
    · subst hj
      rw [hself]
      exact fun _ => rfl
    · rw [hother j hj]
      exact h.2 j
  | on i e =>
    have hc := step_on hstep
    intro j
    by_cases hj : j = i
    · subst hj
      exact (h.2 j).change (h.1 j).1 hc.change
    · rw [hc.other j hj]
      exact h.2 j

theorem noZombies_step_iff {s s' : TcpServer} {e : PoolEvent}
    (hstep : machine.step s e = some s') (hs : s.Sound) (h : s.NoZombies) :
    s'.NoZombies ↔ s.DisconnectsPosted e := by
  cases e with
  | create posted =>
    obtain ⟨hself, hother, -⟩ := step_create hs.1 hstep
    refine iff_of_true (fun j => ?_) trivial
    by_cases hj : j = s.created
    · subst hj
      rw [hself]
      exact fun hlisted => by cases hlisted
    · rw [hother j hj]
      exact h j
  | on i e =>
    have hc := step_on hstep
    rw [DisconnectsPosted, ← Member.noZombie_change_iff (hs.1 i).1 (hs.2 i) hc.change (h i)]
    refine ⟨fun h' => h' i, fun hi j => ?_⟩
    by_cases hj : j = i
    · subst hj
      exact hi
    · rw [hc.other j hj]
      exact h j

theorem not_noZombies_step {s s' : TcpServer} {e : PoolEvent}
    (hstep : machine.step s e = some s') (hs : s.Sound) (h : ¬s.NoZombies) : ¬s'.NoZombies := by
  simp only [NoZombies, not_forall] at h
  obtain ⟨i, hi⟩ := h
  cases e with
  | create posted =>
    obtain ⟨-, hother, -⟩ := step_create hs.1 hstep
    have hne : i ≠ s.created := by
      rintro rfl
      refine hi fun hlisted => absurd hlisted ?_
      simp [((hs.1 s.created).2 (Nat.le_refl _)).2.2.2]
    exact fun h' => hi (hother i hne ▸ h' i)
  | on j e =>
    have hc := step_on hstep
    intro h'
    by_cases hij : i = j
    · subst hij
      exact Member.not_noZombie_change (hs.1 i).1 hc.change hi (h' i)
    · exact hi (hc.other i hij ▸ h' i)

/-! ## Whole runs -/

theorem sane_init {n : Nat} : (init n).Sane :=
  fun _ => ⟨⟨(nomatch ·), (nomatch ·), (nomatch ·)⟩, fun _ => ⟨rfl, rfl, rfl, rfl⟩⟩

/-- All `socketPoolSize_` sockets wait for a connection. -/
def AllRegistered (s : TcpServer) : Prop :=
  s.created = s.socketPoolSize_ ∧ ∀ i < s.socketPoolSize_, (s.socket i).accepting = true

/-- The pool has been created, all connections are closed and their disconnects have completed. -/
def Quiet (s : TcpServer) : Prop :=
  s.created = s.socketPoolSize_ ∧ s.connList = [] ∧
    ∀ i < s.created, (s.socket i).disconnecting = false

theorem Kept.allRegistered {s : TcpServer} (h : s.Kept) (hq : s.Quiet) : s.AllRegistered := by
  obtain ⟨hcreated, hlist, hdisc⟩ := hq
  refine ⟨hcreated, fun i hi => ?_⟩
  rcases h i (by omega) with hacc | hl | hd
  · exact hacc
  · simp [member, hlist] at hl
  · exact absurd hd (by simp [hdisc i (by omega)])

/-- The pool is conserved in a run exactly when no `AcceptEx` fails in it and no disconnect
completes. -/
theorem pool_conserved_iff {n : Nat} {s : TcpServer} {es : List PoolEvent}
    (hrun : machine.run (init n) es = some s) :
    (s.Kept ∧ (s.Quiet → s.AllRegistered)) ↔ machine.Meets KeepsSockets (init n) es := by
  have hiff : s.Kept ↔ machine.Meets KeepsSockets (init n) es :=
    EventMachine.run_iff_meets Sane.step Kept.step
      (fun hstep hs he _ => not_kept_step_of_loses hstep hs he) not_kept_step
      sane_init (fun i hi => absurd hi (Nat.not_lt_zero i)) hrun
  rw [← hiff]
  exact ⟨And.left, fun h => ⟨h, h.allRegistered⟩⟩

/-- A pool of one socket: the connection is accepted, answers the heartbeat and fails. -/
theorem pool_conserved_iff_one : machine.Meets KeepsSockets (init 1)
    [.create true, .on 0 (.acceptDone false true), .on 0 .healthClear, .on 0 .healthAck,
      .on 0 (.recvDone false 8 true), .on 0 (.recvDone true 0 false)] := by
  refine (pool_conserved_iff rfl).mp ⟨fun i hi => ?_, fun hq => absurd hq.2.1 (by decide)⟩
  have hi : i = 0 := Nat.lt_one_iff.mp hi
  subst hi
  exact .inr (.inl (by decide))

/-- One connection, closed by the peer, and the pool of one socket is empty for good. -/
theorem not_pool_conserved : ∃ es s, machine.run (init 1) es = some s ∧ s.Quiet ∧
    ¬s.AllRegistered := by
  refine ⟨[.create true, .on 0 (.acceptDone false true), .on 0 (.recvDone false 0 true),
    .on 0 (.disconnectDone false)], _, rfl, ⟨rfl, by decide, fun i hi => ?_⟩,
    fun h => absurd (h.2 0 (by decide)) (by decide)⟩
  have hi : i = 0 := Nat.lt_one_iff.mp hi
  subst hi
  decide

/-- After a run every listed socket that is marked as disconnected is being disconnected if and only
if no call of `TransmitFile` in the run has failed at once. -/
theorem noZombies_iff {n : Nat} {s : TcpServer} {es : List PoolEvent}
    (hrun : machine.run (init n) es = some s) :
    s.NoZombies ↔ machine.Meets DisconnectsPosted (init n) es :=
  EventMachine.run_iff_meets Sound.step
    (fun hstep hs he h => (noZombies_step_iff hstep hs h).mpr he)
    (fun hstep hs he h => mt (noZombies_step_iff hstep hs h).mp he) not_noZombies_step
    ⟨sane_init, fun _ _ => rfl⟩ (fun _ hlisted => by cases hlisted) hrun

/-- A disconnect ends with an error, and the next round of the heartbeat tries again. -/
def retried : List PoolEvent :=
  [.create true, .on 0 (.acceptDone false true), .on 0 .healthClear, .on 0 (.healthTest true),
    .on 0 (.disconnectDone true), .on 0 .healthClear, .on 0 (.healthTest true)]

theorem noZombies_iff_retried : ∃ s, machine.run (init 1) retried = some s ∧ s.NoZombies := by
  obtain ⟨s, hs⟩ : ∃ s, machine.run (init 1) retried = some s := ⟨_, rfl⟩
  have hposted : machine.Meets DisconnectsPosted (init 1) retried := by decide
  exact ⟨s, hs, (noZombies_iff hs).mpr hposted⟩

/-- The receive fails and so does `TransmitFile`: the socket stays in the list. -/
theorem exists_zombie : ∃ es s, machine.run (init 1) es = some s ∧ 0 ∈ s.connList ∧
    (s.socket 0).disconnectCall = true ∧ (s.socket 0).disconnecting = false :=
  ⟨[.create true, .on 0 (.acceptDone false true), .on 0 (.recvDone true 0 false)], _, rfl,
    by decide, rfl, rfl⟩

end TcpServer

end PSM
