import PSM.RecvProcess

/-! The logic queue (`LogicHandle::EnqueueOper`, `LogicHandle::Process`).

Receiving threads push packets and signal an auto-reset event; the logic thread waits for the
event and takes one packet out for each time it wakes. The event is one bit, so a `SetEvent` that
finds it signalled is lost, and a packet is left behind for each of these (`blocked_iff`). -/

namespace PSM

/-- Where the logic thread is in the loop of `Process`. -/
inductive Phase where
  | loop
  | waiting
  | woken
  | popping
  | handling (packet : CPacket)
  | ended

/-- The queue, the event and the logic thread. `entering` counts the calls of `EnqueueOper` that
have pushed their packet but not yet signalled; `enqueued` and `handled` record the packets pushed
and passed to `PacketHandling` so far. -/
structure LogicHandle where
  operationQueue : List CPacket
  event_ : Bool
  isEnd : Bool
  phase : Phase
  entering : Nat
  enqueued : List CPacket
  handled : List CPacket

namespace LogicHandle

def init : LogicHandle := ⟨[], false, false, .loop, 0, [], []⟩

/-- The steps of the threads, each as one atomic action. -/
inductive Action where
  /-- `EnqueueOper`, up to `LeaveCriticalSection`. -/
  | push (msg : CPacket)
  /-- `EnqueueOper`, from there on. -/
  | setEvent
  | setEnd
  | testEnd
  | wake
  /-- `WaitForSingleObject` returns something else than `WAIT_OBJECT_0`. -/
  | waitError
  | testSize
  | pop
  | handle

/-- `operationQueue.front()` and `pop()` under the lock, if there is a packet. -/
def pop (h : LogicHandle) : LogicHandle :=
  match h.operationQueue with
  | [] => { h with phase := .loop }
  | packet :: queue => { h with operationQueue := queue, phase := .handling packet }

def step (h : LogicHandle) (a : Action) : Option LogicHandle :=
  match a, h.phase with
  | .push msg, _ => some { h with
      operationQueue := h.operationQueue ++ [msg]
      entering := h.entering + 1
      enqueued := h.enqueued ++ [msg] }
  | .setEvent, _ =>
    if h.entering = 0 then none else some { h with event_ := true, entering := h.entering - 1 }
  | .setEnd, _ => some { h with isEnd := true }
  | .testEnd, .loop => some { h with phase := if h.isEnd then .ended else .waiting }
  | .wake, .waiting => if h.event_ then some { h with event_ := false, phase := .woken } else none
  | .waitError, .waiting => some { h with phase := .loop }
  | .testSize, .woken =>
    some { h with phase := if h.operationQueue.length ≤ 0 then .loop else .popping }
  | .pop, .popping => some h.pop
  | .handle, .handling packet =>
    some { h with phase := .loop, handled := h.handled ++ [packet] }
  | _, _ => none

def machine : EventMachine LogicHandle Action := ⟨step⟩

/-- The logic thread is blocked in `WaitForSingleObject`. -/
def Blocked (h : LogicHandle) : Prop := h.phase = .waiting ∧ h.event_ = false

/-- A wake-up that the logic thread has consumed without having taken a packet for it yet. -/
def wakeUps (h : LogicHandle) : Nat :=
  match h.phase with
  | .woken | .popping => 1
  | _ => 0

/-- The packet that has been taken out but not handled. -/
def inHand (h : LogicHandle) : List CPacket :=
  match h.phase with
  | .handling packet => [packet]
  | _ => []

/-- A `SetEvent` on the signalled event is lost. -/
def Unsignalled (h : LogicHandle) : Action → Prop
  | .setEvent => h.event_ = false
  | _ => True

/-! ## One step -/

/-- The transitions, one by one. -/
inductive Step (h : LogicHandle) : Action → LogicHandle → Prop where
  | push : Step h (.push msg) { h with
      operationQueue := h.operationQueue ++ [msg]
      entering := h.entering + 1
      enqueued := h.enqueued ++ [msg] }
  | setEvent : 0 < h.entering →
      Step h .setEvent { h with event_ := true, entering := h.entering - 1 }
  | setEnd : Step h .setEnd { h with isEnd := true }
  | wait : h.phase = .loop → Step h .testEnd { h with phase := .waiting }
  | stop : h.phase = .loop → Step h .testEnd { h with phase := .ended }
  | wake : h.phase = .waiting → h.event_ = true →
      Step h .wake { h with event_ := false, phase := .woken }
  | waitError : h.phase = .waiting → Step h .waitError { h with phase := .loop }
  | empty : h.phase = .woken → h.operationQueue = [] → Step h .testSize { h with phase := .loop }
  | nonempty : h.phase = .woken → Step h .testSize { h with phase := .popping }
  | popNone : h.phase = .popping → h.operationQueue = [] → Step h .pop { h with phase := .loop }
  | pop : h.phase = .popping → h.operationQueue = packet :: queue →
      Step h .pop { h with operationQueue := queue, phase := .handling packet }
  | handle : h.phase = .handling packet →
      Step h .handle { h with phase := .loop, handled := h.handled ++ [packet] }

theorem step_cases {h h' : LogicHandle} {a : Action} (hstep : machine.step h a = some h') :
    Step h a h' := by
  simp only [machine, step] at hstep
  split at hstep
  case h_1 => cases hstep; exact .push
  case h_2 =>
    split at hstep <;> cases hstep
    exact .setEvent (by omega)
  case h_3 => cases hstep; exact .setEnd
  case h_4 hp =>
    cases hstep
    split
    · exact .stop hp
    · exact .wait hp
  case h_5 hp =>
    split at hstep <;> cases hstep
    exact .wake hp ‹_›
  case h_6 hp => cases hstep; exact .waitError hp
  case h_7 hp =>
    cases hstep
    split
    · exact .empty hp (List.length_eq_zero_iff.mp (by omega))
    · exact .nonempty hp
  case h_8 hp =>
    cases hstep
    unfold pop
    split
    · exact .popNone hp ‹_›
    · exact .pop hp ‹_›
  case h_9 hp => cases hstep; exact .handle hp
  case h_10 => cases hstep

/-- Nothing is lost or reordered on the way through the queue. -/
def Conserved (h : LogicHandle) : Prop :=
  h.enqueued = h.handled ++ h.inHand ++ h.operationQueue

theorem conserved_step {h h' : LogicHandle} {a : Action} (hc : h.Conserved)
    (hstep : machine.step h a = some h') : h'.Conserved := by
  unfold Conserved at hc ⊢
  cases step_cases hstep with
  | push => simp [hc, inHand]
  | setEvent | setEnd => exact hc
  | wait hp | stop hp | wake hp | waitError hp | empty hp | nonempty hp | popNone hp =>
    simpa [inHand, hp] using hc
  | pop hp hq => simp [hc, inHand, hp, hq]
  | handle hp => simp [hc, inHand, hp]

/-! ## The signals that are lost -/

/-- A `SetEvent` on the signalled event. -/
def lostSignal (h : LogicHandle) : Action → List Action
  | .setEvent => if h.event_ then [.setEvent] else []
  | _ => []

/-- How many signals are lost in a run. -/
def lost (h : LogicHandle) (as : List Action) : Nat := (machine.collect lostSignal h as).length

theorem lost_concat {h h' : LogicHandle} {as : List Action} {a : Action}
    (hrun : machine.run h as = some h') :
    lost h (as ++ [a]) = lost h as + (h'.lostSignal a).length := by
  rw [lost, EventMachine.collect_concat hrun, List.length_append]
  rfl

theorem lost_append {h h' : LogicHandle} {as bs : List Action} (hrun : machine.run h as = some h') :
    lost h (as ++ bs) = lost h as + lost h' bs := by
  rw [lost, EventMachine.collect_append hrun, List.length_append]
  rfl

/-- Each packet in the queue has its wake-up, apart from one for each signal that was lost. -/
def Balanced (h : LogicHandle) (lost : Nat) : Prop :=
  h.operationQueue.length = h.event_.toNat + h.entering + h.wakeUps + lost

/-- A wake-up that is consumed always finds a packet. -/
theorem Balanced.ne_nil {h : LogicHandle} {n : Nat} (hb : h.Balanced n) (hpos : 0 < h.wakeUps) :
    h.operationQueue ≠ [] := by
  intro hnil
  rw [Balanced, hnil, List.length_nil] at hb
  omega

theorem balanced_step {h h' : LogicHandle} {a : Action} {n : Nat}
    (hstep : machine.step h a = some h') (hb : h.Balanced n) :
    h'.Balanced (n + (h.lostSignal a).length) := by
  have hne := hb.ne_nil
  unfold Balanced at hb ⊢
  cases step_cases hstep with
  | push =>
    simp only [List.length_append, List.length_singleton, wakeUps, lostSignal, List.length_nil]
      at hb ⊢
    omega
  | setEvent hlt =>
    cases he : h.event_ with
    | false =>
      simp only [he, wakeUps, lostSignal, Bool.toNat_false, Bool.toNat_true, Bool.false_eq_true,
        if_false, List.length_nil] at hb ⊢
      omega
    | true =>
      simp only [he, wakeUps, lostSignal, Bool.toNat_true, if_true, List.length_singleton] at hb ⊢
      omega
  | setEnd => exact hb
  | wait hp | stop hp | waitError hp | nonempty hp | handle hp =>
    simpa [wakeUps, hp, lostSignal] using hb
  | wake hp he =>
    simp only [he, wakeUps, hp, lostSignal, Bool.toNat_true, Bool.toNat_false, List.length_nil]
      at hb ⊢
    omega
  | empty hp hq | popNone hp hq =>
    have hpos : 0 < h.wakeUps := by
      rw [wakeUps, hp]
      exact Nat.one_pos
    exact absurd hq (hne hpos)
  | pop hp hq =>
    simp only [hq, wakeUps, hp, lostSignal, List.length_cons, List.length_nil] at hb ⊢
    omega

/-! ## Whole runs -/

theorem init_run_conserved {h : LogicHandle} {as : List Action}
    (hrun : machine.run init as = some h) : h.Conserved :=
  EventMachine.run_invariant conserved_step (by rfl) hrun

theorem init_run_balanced {h : LogicHandle} {as : List Action}
    (hrun : machine.run init as = some h) : h.Balanced (lost init as) := by
  refine EventMachine.run_induction (P := fun as h => h.Balanced (lost init as)) rfl ?_ hrun
  intro as a h h' hrun hb hstep
  rw [lost_concat hrun]
  exact balanced_step hstep hb

theorem lost_eq_zero_iff {h h' : LogicHandle} {as : List Action}
    (hrun : machine.run h as = some h') : lost h as = 0 ↔ machine.Meets Unsignalled h as := by
  rw [lost, List.length_eq_zero_iff, EventMachine.collect_eq_nil_iff hrun]
  refine EventMachine.meets_congr (J := fun _ => True) (fun _ _ => trivial) (fun {h a} _ => ?_) trivial
  cases a <;> simp [lostSignal, Unsignalled]

/-- When the logic thread is blocked and the event is not signalled, only callers that still have
to signal may have a packet in the queue, and without such callers every packet enqueued has been
handled: exactly when no `SetEvent` has found the event signalled. -/
theorem blocked_iff {h : LogicHandle} {as : List Action} (hrun : machine.run init as = some h)
    (hblocked : h.Blocked) :
    (h.operationQueue.length ≤ h.entering ∧
        (h.entering = 0 → h.operationQueue = [] ∧ h.handled = h.enqueued)) ↔
      machine.Meets Unsignalled init as := by
  obtain ⟨hp, he⟩ := hblocked
  have hconserved := init_run_conserved hrun
  have hbalanced := init_run_balanced hrun
  rw [← lost_eq_zero_iff hrun]
  simp only [Balanced, Conserved, wakeUps, inHand, hp, he, Bool.toNat_false, Nat.zero_add,
    Nat.add_zero, List.append_nil] at hconserved hbalanced
  constructor
  · rintro ⟨hle, -⟩
    omega
  · refine fun hlost => ⟨by omega, fun h0 => ?_⟩
    have hq : h.operationQueue = [] := List.length_eq_zero_iff.mp (by omega)
    rw [hconserved, hq, List.append_nil]
    exact ⟨rfl, rfl⟩

/-- Two packets, each signalled and handled before the next one. -/
theorem blocked_iff_one_by_one :
    machine.Meets Unsignalled init [.push ⟨0, 3, [], some .agent⟩, .setEvent, .testEnd, .wake,
      .testSize, .pop, .handle, .testEnd, .push ⟨0, 4, [], some .agent⟩, .setEvent, .wake,
      .testSize, .pop, .handle, .testEnd] := by
  let packets : List CPacket := [⟨0, 3, [], some .agent⟩, ⟨0, 4, [], some .agent⟩]
  let h : LogicHandle := ⟨[], false, false, .waiting, 0, packets, packets⟩
  exact (blocked_iff (by rfl : machine.run init _ = some h) ⟨rfl, rfl⟩).mp
    ⟨Nat.le_refl 0, fun _ => ⟨rfl, rfl⟩⟩

/-- Two packets enqueued before the logic thread first waits: the second stays behind. -/
theorem exists_stranded : ∃ h, machine.run init [.push ⟨0, 3, [], some .agent⟩, .setEvent,
      .push ⟨0, 4, [], some .agent⟩, .setEvent, .testEnd, .wake, .testSize, .pop, .handle,
      .testEnd] = some h ∧
    h.Blocked ∧ h.entering = 0 ∧ h.operationQueue = [⟨0, 4, [], some .agent⟩] :=
  ⟨_, rfl, ⟨rfl, rfl⟩, rfl, rfl⟩

/-! ## The backlog -/

/-- The queue has a packet for every signal that was lost, beside those that will be taken. The
logic thread never wakes for nothing, and what has been left behind stays behind: whenever the logic
thread is blocked later on, the last packets that were enqueued are still in the queue, as many as
there have been lost signals. -/
theorem backlog_eq {h : LogicHandle} {as : List Action} (hrun : machine.run init as = some h) :
    h.operationQueue.length = h.event_.toNat + h.entering + h.wakeUps + lost init as ∧
    (0 < h.wakeUps → h.operationQueue ≠ []) ∧
    ∀ bs h', machine.run h bs = some h' → h'.Blocked → h'.entering = 0 →
      h'.operationQueue.length = lost init as + lost h bs ∧
      h'.handled = h'.enqueued.take (h'.enqueued.length - (lost init as + lost h bs)) := by
  have hb := init_run_balanced hrun
  refine ⟨hb, hb.ne_nil, fun bs h' hrun' hblocked hentering => ?_⟩
  obtain ⟨hp, he⟩ := hblocked
  have hruns : machine.run init (as ++ bs) = some h' := by
    rw [EventMachine.run_append, hrun]
    exact hrun'
  have hb' := init_run_balanced hruns
  have hconserved := init_run_conserved hruns
  rw [lost_append hrun] at hb'
  simp only [Balanced, wakeUps, inHand, hp, he, hentering, Bool.toNat_false, Nat.zero_add,
    List.append_nil, Conserved] at hb' hconserved
  refine ⟨hb', ?_⟩
  have hlength : h'.enqueued.length - (lost init as + lost h bs) = h'.handled.length := by
    rw [hconserved, List.length_append, ← hb', Nat.add_sub_cancel]
  rw [hlength, hconserved, List.take_left]

/-- The second signal is lost. -/
theorem backlog_eq_stranded : ∃ h, machine.run init [.push ⟨0, 3, [], some .agent⟩, .setEvent,
      .push ⟨0, 4, [], some .agent⟩, .setEvent] = some h ∧
    h.operationQueue.length = h.event_.toNat + h.entering + h.wakeUps + 1 := by
  let actions : List Action := [.push ⟨0, 3, [], some .agent⟩, .setEvent,
    .push ⟨0, 4, [], some .agent⟩, .setEvent]
  obtain ⟨h, hrun⟩ : ∃ h, machine.run init actions = some h := ⟨_, rfl⟩
  exact ⟨h, hrun, (backlog_eq hrun).1⟩

end LogicHandle
end PSM
