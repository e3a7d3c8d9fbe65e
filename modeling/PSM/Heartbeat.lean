import PSM.Lib.EventMachine
import Mathlib

/-! The heartbeat of `TcpAgentServer` and of `TcpWebCommandServer`.

In each round `HeartbeatCheck` clears the `healthCheck` of every listed socket and sends it a health
check, sleeps, and disconnects the sockets whose `healthCheck` is still false. It holds the lock of
the list in both loops, so sockets are not listed or delisted meanwhile, but `healthCheck` has no
lock: the logic thread sets it when it handles a `HealthAck`, and `AcceptProcess` sets it after it
has listed the socket. Each access is a step of its own here. A socket is accepted once, since
nothing registers it with the acceptor again. -/

namespace PSM

/-- Where the heartbeat thread is, with the sockets that it has still to visit. -/
inductive RoundPhase (ι : Type) where
  | idle
  | clearing (rest : List ι)
  /-- The flag has been cleared and the health check is next. -/
  | sending (i : ι) (rest : List ι)
  | sleeping
  | testing (rest : List ι)

namespace RoundPhase

variable {ι : Type}

/-- The heartbeat thread does not hold the lock. -/
def Unlocked : RoundPhase ι → Prop
  | idle => True
  | sleeping => True
  | _ => False

instance (p : RoundPhase ι) : Decidable p.Unlocked :=
  match p with
  | idle => isTrue trivial
  | clearing _ => isFalse id
  | sending .. => isFalse id
  | sleeping => isTrue trivial
  | testing _ => isFalse id

def rest : RoundPhase ι → List ι
  | clearing rest => rest
  | sending i rest => i :: rest
  | testing rest => rest
  | _ => []

theorem rest_of_unlocked {p : RoundPhase ι} (h : p.Unlocked) : p.rest = [] := by
  cases p <;> first | rfl | exact h.elim

/-- The first loop of the round is past the socket. -/
def Past (i : ι) : RoundPhase ι → Prop
  | idle => False
  | clearing rest => i ∉ rest
  | sending j rest => i ≠ j ∧ i ∉ rest
  | sleeping => True
  | testing _ => True

end RoundPhase

/-- `connList` is `agentList` or `webCommandList`. `AcceptProcess` has listed the sockets that are
`accepted`, and has still to set the flag of those that are `resetting`. -/
structure HeartbeatServer (ι : Type) where
  connList : List ι
  healthCheck : ι → Bool
  accepted : ι → Bool
  resetting : ι → Bool
  phase : RoundPhase ι

inductive HeartbeatEvent (ι : Type) where
  /-- `AcceptProcess` lists the socket. -/
  | add (i : ι)
  /-- `AcceptProcess` sets its flag. -/
  | reset (i : ι)
  /-- `DisconnProcess` delists the socket. -/
  | delete (i : ι)
  | healthAck (i : ι)
  | beginClear
  | clear
  | send
  | endClear
  | beginTest
  | test
  | endTest
  deriving DecidableEq

namespace HeartbeatServer

variable {ι : Type} [DecidableEq ι]

def init : HeartbeatServer ι := ⟨[], fun _ => true, fun _ => false, fun _ => false, .idle⟩

def step (s : HeartbeatServer ι) : HeartbeatEvent ι → Option (HeartbeatServer ι)
  | .add i =>
    if s.phase.Unlocked ∧ s.accepted i = false then some { s with
      connList := s.connList ++ [i]
      accepted := Function.update s.accepted i true
      resetting := Function.update s.resetting i true }
    else none
  | .reset i =>
    if s.resetting i then some { s with
      healthCheck := Function.update s.healthCheck i true
      resetting := Function.update s.resetting i false }
    else none
  | .delete i =>
    if s.phase.Unlocked then some { s with connList := s.connList.filter (· ≠ i) } else none
  | .healthAck i =>
    if s.accepted i then some { s with healthCheck := Function.update s.healthCheck i true }
    else none
  | .beginClear =>
    match s.phase with
    | .idle => some { s with phase := .clearing s.connList }
    | _ => none
  | .clear =>
    match s.phase with
    | .clearing (i :: rest) => some { s with
        healthCheck := Function.update s.healthCheck i false
        phase := .sending i rest }
    | _ => none
  | .send =>
    match s.phase with
    | .sending _ rest => some { s with phase := .clearing rest }
    | _ => none
  | .endClear =>
    match s.phase with
    | .clearing [] => some { s with phase := .sleeping }
    | _ => none
  | .beginTest =>
    match s.phase with
    | .sleeping => some { s with phase := .testing s.connList }
    | _ => none
  | .test =>
    match s.phase with
    | .testing (_ :: rest) => some { s with phase := .testing rest }
    | _ => none
  | .endTest =>
    match s.phase with
    | .testing [] => some { s with phase := .idle }
    | _ => none

def machine : EventMachine (HeartbeatServer ι) (HeartbeatEvent ι) := ⟨step⟩

/-- The next `test` calls `Disconnect` on the socket. -/
def CallsDisconnect (s : HeartbeatServer ι) (i : ι) : Prop :=
  (∃ rest, s.phase = .testing (i :: rest)) ∧ s.healthCheck i = false

/-! ## The steps -/

/-- What each step needs and does. -/
inductive Change (s : HeartbeatServer ι) : HeartbeatEvent ι → HeartbeatServer ι → Prop where
  | add : s.phase.Unlocked → s.accepted i = false → Change s (.add i) { s with
      connList := s.connList ++ [i]
      accepted := Function.update s.accepted i true
      resetting := Function.update s.resetting i true }
  | reset : s.resetting i = true → Change s (.reset i) { s with
      healthCheck := Function.update s.healthCheck i true
      resetting := Function.update s.resetting i false }
  | delete : s.phase.Unlocked →
      Change s (.delete i) { s with connList := s.connList.filter (· ≠ i) }
  | healthAck : Change s (.healthAck i)
      { s with healthCheck := Function.update s.healthCheck i true }
  | beginClear : s.phase = .idle →
      Change s .beginClear { s with phase := .clearing s.connList }
  | clear : s.phase = .clearing (i :: rest) → Change s .clear { s with
      healthCheck := Function.update s.healthCheck i false
      phase := .sending i rest }
  | send : s.phase = .sending i rest → Change s .send { s with phase := .clearing rest }
  | endClear : s.phase = .clearing [] → Change s .endClear { s with phase := .sleeping }
  | beginTest : s.phase = .sleeping →
      Change s .beginTest { s with phase := .testing s.connList }
  | test : s.phase = .testing (i :: rest) → Change s .test { s with phase := .testing rest }
  | endTest : s.phase = .testing [] → Change s .endTest { s with phase := .idle }

theorem change_of_step {s s' : HeartbeatServer ι} {e : HeartbeatEvent ι}
    (h : machine.step s e = some s') : s.Change e s' := by
  cases e with
  | add i =>
    obtain ⟨⟨hunlocked, hnew⟩, heq⟩ := Option.ite_none_right_eq_some.mp h
    cases heq
    exact .add hunlocked hnew
  | reset i =>
    obtain ⟨hreset, heq⟩ := Option.ite_none_right_eq_some.mp h
    cases heq
    exact .reset hreset
  | delete i =>
    obtain ⟨hunlocked, heq⟩ := Option.ite_none_right_eq_some.mp h
    cases heq
    exact .delete hunlocked
  | healthAck i =>
    obtain ⟨-, heq⟩ := Option.ite_none_right_eq_some.mp h
    cases heq
    exact .healthAck
  | beginClear =>
    simp only [machine, step] at h
    split at h <;> cases h
    exact .beginClear ‹_›
  | clear =>
    simp only [machine, step] at h
    split at h <;> cases h
    exact .clear ‹_›
  | send =>
    simp only [machine, step] at h
    split at h <;> cases h
    exact .send ‹_›
  | endClear =>
    simp only [machine, step] at h
    split at h <;> cases h
    exact .endClear ‹_›
  | beginTest =>
    simp only [machine, step] at h
    split at h <;> cases h
    exact .beginTest ‹_›
  | test =>
    simp only [machine, step] at h
    split at h <;> cases h
    exact .test ‹_›
  | endTest =>
    simp only [machine, step] at h
    split at h <;> cases h
    exact .endTest ‹_›

/-! ## Silent sockets -/

/-- The event is no answer of the socket, does not list it, and does not begin a round. -/
def Quiet (i : ι) (e : HeartbeatEvent ι) : Prop :=
  e ≠ .healthAck i ∧ e ≠ .add i ∧ e ≠ .beginClear

/-- The first loop of the round has come to the socket, which was listed, and has cleared its flag,
and all was quiet since. -/
def Cleared (es : List (HeartbeatEvent ι)) (i : ι) (rest : List ι) : Prop :=
  ∃ before after t, es = before ++ .clear :: after ∧ machine.run init before = some t ∧
    t.phase = .clearing (i :: rest) ∧ i ∈ t.connList ∧ ∀ e ∈ after, Quiet i e

/-- The first loop of the round has then also sent it a health check, and all was quiet since. -/
def Silent (es : List (HeartbeatEvent ι)) (i : ι) : Prop :=
  ∃ before after t rest, es = before ++ .send :: after ∧ machine.run init before = some t ∧
    t.phase = .sending i rest ∧ Cleared before i rest ∧ ∀ e ∈ after, Quiet i e

section
variable {es : List (HeartbeatEvent ι)} {s s' : HeartbeatServer ι} {e : HeartbeatEvent ι} {i : ι}
  {rest : List ι}

theorem Cleared.concat (h : Cleared es i rest) (he : Quiet i e) : Cleared (es ++ [e]) i rest := by
  obtain ⟨before, after, t, rfl, hrun, hphase, hmem, hquiet⟩ := h
  refine ⟨before, after ++ [e], t, by simp, hrun, hphase, hmem, fun f hf => ?_⟩
  rcases List.mem_append.mp hf with hf | hf
  · exact hquiet f hf
  · rwa [List.mem_singleton.mp hf]

theorem Silent.concat (h : Silent es i) (he : Quiet i e) : Silent (es ++ [e]) i := by
  obtain ⟨before, after, t, rest, rfl, hrun, hphase, hcleared, hquiet⟩ := h
  refine ⟨before, after ++ [e], t, rest, by simp, hrun, hphase, hcleared, fun f hf => ?_⟩
  rcases List.mem_append.mp hf with hf | hf
  · exact hquiet f hf
  · rwa [List.mem_singleton.mp hf]

/-- What holds after every run. -/
structure Inv (es : List (HeartbeatEvent ι)) (s : HeartbeatServer ι) : Prop where
  /-- The sockets to visit are listed. -/
  visited : ∀ i ∈ s.phase.rest, i ∈ s.connList
  listed : ∀ i ∈ s.connList, s.accepted i = true
  /-- No one clears the flag of a socket that has never been listed. -/
  fresh : ∀ i, s.accepted i = false → s.healthCheck i = true
  cleared : ∀ i rest, s.phase = .sending i rest → s.healthCheck i = false → Cleared es i rest
  silent : ∀ i ∈ s.connList, s.healthCheck i = false → s.phase.Past i → Silent es i

theorem inv_init : Inv [] (init : HeartbeatServer ι) where
  visited _ hi := absurd hi List.not_mem_nil
  listed _ hi := absurd hi List.not_mem_nil
  fresh _ _ := rfl
  cleared _ _ _ hcheck := by cases hcheck
  silent _ hi := absurd hi List.not_mem_nil

theorem Inv.step_add {j : ι} (h : Inv es s) (hunlocked : s.phase.Unlocked)
    (hnew : s.accepted j = false) : Inv (es ++ [.add j]) { s with
      connList := s.connList ++ [j]
      accepted := Function.update s.accepted j true
      resetting := Function.update s.resetting j true } where
  visited i hi := List.mem_append_left _ (h.visited i hi)
  listed i hi := by
    rcases List.mem_append.mp hi with hi | hi
    · by_cases hij : i = j
      · simp [hij]
      · simpa [hij] using h.listed i hi
    · simp [List.mem_singleton.mp hi]
  fresh i hi := by
    by_cases hij : i = j
    · simp [hij] at hi
    · exact h.fresh i (by simpa [hij] using hi)
  cleared i rest hphase := by
    replace hphase : s.phase = .sending i rest := hphase
    rw [hphase] at hunlocked
    exact hunlocked.elim
  silent i hi hcheck hpast := by
    -- the flag of the new socket has not been cleared
    have hij : i ≠ j := by
      rintro rfl
      exact Bool.false_ne_true (hcheck.symm.trans (h.fresh i hnew))
    have hmem : i ∈ s.connList :=
      (List.mem_append.mp hi).resolve_right fun hi => hij (List.mem_singleton.mp hi)
    exact (h.silent i hmem hcheck hpast).concat ⟨by simp, by simpa using hij.symm, by simp⟩

/-- A flag is set. -/
theorem Inv.step_set {j : ι} {resetting : ι → Bool} (h : Inv es s)
    (hquiet : ∀ i, i ≠ j → Quiet i e) : Inv (es ++ [e]) { s with
      healthCheck := Function.update s.healthCheck j true
      resetting } := by
  have hother : ∀ i, Function.update s.healthCheck j true i = false →
      i ≠ j ∧ s.healthCheck i = false := by
    intro i hi
    by_cases hij : i = j
    · simp [hij] at hi
    · exact ⟨hij, by simpa [hij] using hi⟩
  refine ⟨h.visited, h.listed, fun i hi => ?_, fun i rest hphase hcheck => ?_,
    fun i hi hcheck hpast => ?_⟩
  · by_contra hcheck
    have hfalse := (hother i (Bool.eq_false_of_not_eq_true hcheck)).2
    exact Bool.false_ne_true (hfalse.symm.trans (h.fresh i hi))
  · obtain ⟨hij, hcheck⟩ := hother i hcheck
    exact (h.cleared i rest hphase hcheck).concat (hquiet i hij)
  · obtain ⟨hij, hcheck⟩ := hother i hcheck
    exact (h.silent i hi hcheck hpast).concat (hquiet i hij)

/-- The list gets smaller, or the phase changes without the loop going past a socket. -/
theorem Inv.step_phase {connList : List ι} {phase : RoundPhase ι} (h : Inv es s)
    (hquiet : ∀ i, Quiet i e) (hlist : ∀ i ∈ connList, i ∈ s.connList)
    (hrest : ∀ i ∈ phase.rest, i ∈ connList)
    (hphase : ∀ i rest, phase = .sending i rest → s.phase = .sending i rest)
    (hpast : ∀ i ∈ connList, phase.Past i → s.phase.Past i) :
    Inv (es ++ [e]) { s with connList, phase } where
  visited := hrest
  listed i hi := h.listed i (hlist i hi)
  fresh := h.fresh
  cleared i rest hsending hcheck :=
    (h.cleared i rest (hphase i rest hsending) hcheck).concat (hquiet i)
  silent i hi hcheck hpast' :=
    (h.silent i (hlist i hi) hcheck (hpast i hi hpast')).concat (hquiet i)

theorem Inv.step_clear {j : ι} (hrun : machine.run init es = some s) (h : Inv es s)
    (hphase : s.phase = .clearing (j :: rest)) : Inv (es ++ [.clear]) { s with
      healthCheck := Function.update s.healthCheck j false
      phase := .sending j rest } := by
  have hvisited : ∀ i ∈ j :: rest, i ∈ s.connList := by
    intro i hi
    refine h.visited i ?_
    rw [hphase]
    exact hi
  refine ⟨hvisited, h.listed, fun i hi => ?_, fun i rest' hsending _ => ?_,
    fun i hi hcheck hpast => ?_⟩
  · have hij : i ≠ j := by
      rintro rfl
      exact Bool.false_ne_true (hi.symm.trans (h.listed i (hvisited i List.mem_cons_self)))
    simpa [hij] using h.fresh i hi
  · cases hsending
    exact ⟨es, [], s, rfl, hrun, hphase, hvisited j List.mem_cons_self, by simp⟩
  · obtain ⟨hij, hrest⟩ := hpast
    refine (h.silent i hi (by simpa [hij] using hcheck) ?_).concat (by simp [Quiet])
    rw [hphase]
    simp [RoundPhase.Past, hij, hrest]

theorem Inv.step_send {j : ι} (hrun : machine.run init es = some s) (h : Inv es s)
    (hphase : s.phase = .sending j rest) :
    Inv (es ++ [.send]) { s with phase := .clearing rest } := by
  have hvisited : ∀ i ∈ j :: rest, i ∈ s.connList := by
    intro i hi
    refine h.visited i ?_
    rw [hphase]
    exact hi
  refine ⟨fun i hi => hvisited i (List.mem_cons_of_mem _ hi), h.listed, h.fresh,
    fun i rest' hsending => (by cases hsending), fun i hi hcheck hpast => ?_⟩
  by_cases hij : i = j
  · subst hij
    exact ⟨es, [], s, rest, rfl, hrun, hphase, h.cleared i rest hphase hcheck, by simp⟩
  · refine (h.silent i hi hcheck ?_).concat (by simp [Quiet])
    rw [hphase]
    exact ⟨hij, hpast⟩

theorem Inv.step (hrun : machine.run init es = some s) (h : Inv es s)
    (hstep : machine.step s e = some s') : Inv (es ++ [e]) s' := by
  cases change_of_step hstep with
  | add hunlocked hnew => exact h.step_add hunlocked hnew
  | reset => exact h.step_set fun i _ => by simp [Quiet]
  | healthAck => exact h.step_set fun i hij => by simp [Quiet, hij.symm]
  | clear hphase => exact h.step_clear hrun hphase
  | send hphase => exact h.step_send hrun hphase
  | delete hunlocked =>
    refine h.step_phase (fun i => by simp [Quiet]) (fun i hi => List.mem_of_mem_filter hi)
      (fun i hi => ?_) (fun _ _ => id) fun _ _ => id
    rw [RoundPhase.rest_of_unlocked hunlocked] at hi
    cases hi
  | beginClear =>
    -- the loop is past no listed socket
    exact ⟨fun _ => id, h.listed, h.fresh, fun i rest hsending => (by cases hsending),
      fun i hi _ hpast => absurd hi hpast⟩
  | endClear hphase =>
    refine h.step_phase (fun i => by simp [Quiet]) (fun _ => id) (fun i hi => by cases hi)
      (fun i rest hsending => by cases hsending) fun i _ _ => ?_
    rw [hphase]
    exact List.not_mem_nil
  | beginTest hphase =>
    refine h.step_phase (fun i => by simp [Quiet]) (fun _ => id) (fun _ => id)
      (fun i rest hsending => by cases hsending) fun i _ _ => ?_
    rw [hphase]
    trivial
  | @test j rest hphase =>
    refine h.step_phase (fun i => by simp [Quiet]) (fun _ => id) (fun i hi => h.visited i ?_)
      (fun i rest hsending => by cases hsending) fun i _ _ => ?_
    · rw [hphase]
      exact List.mem_cons_of_mem _ hi
    · rw [hphase]
      trivial
  | endTest hphase =>
    exact h.step_phase (fun i => by simp [Quiet]) (fun _ => id) (fun i hi => by cases hi)
      (fun i rest hsending => by cases hsending) fun i _ hpast => hpast.elim

theorem inv_run (hrun : machine.run init es = some s) : Inv es s :=
  EventMachine.run_induction (P := Inv) inv_init
    (fun _ _ _ _ hrun h hstep => h.step hrun hstep) hrun

end

/-- A socket on which the second loop of a round calls `Disconnect` was listed when the first loop
of the round came to it and sent it a health check, and no answer of it has been handled since; nor
has it been accepted since. -/
theorem silent_of_callsDisconnect {es : List (HeartbeatEvent ι)} {s : HeartbeatServer ι} {i : ι}
    (hrun : machine.run init es = some s) (h : s.CallsDisconnect i) : Silent es i := by
  obtain ⟨⟨rest, hphase⟩, hcheck⟩ := h
  have hinv : Inv es s := inv_run hrun
  have hlisted : i ∈ s.connList := by
    refine hinv.visited i ?_
    rw [hphase]
    exact List.mem_cons_self
  refine hinv.silent i hlisted hcheck ?_
  rw [hphase]
  trivial

/-- Two sockets are listed and sent health checks, the second one answers, and a third one is
accepted before the heartbeat looks at the answers. -/
def oneAnswer : List (HeartbeatEvent Nat) :=
  [.add 0, .reset 0, .add 1, .beginClear, .clear, .send, .clear, .reset 1, .send, .endClear,
    .add 2, .healthAck 1, .beginTest]

theorem silent_of_callsDisconnect_oneAnswer : Silent oneAnswer 0 := by
  obtain ⟨s, hs, hcalls⟩ : ∃ s, machine.run init oneAnswer = some s ∧ s.CallsDisconnect 0 :=
    ⟨_, rfl, ⟨[1, 2], rfl⟩, rfl⟩
  exact silent_of_callsDisconnect hs hcalls

/-! ## Whole rounds -/

/-- In the run from `s`, the second loop has called `Disconnect` on the socket. -/
def Called (s : HeartbeatServer ι) (i : ι) (es : List (HeartbeatEvent ι)) : Prop :=
  ∃ before after t, es = before ++ .test :: after ∧ machine.run s before = some t ∧
    t.CallsDisconnect i

/-- The round is not over, and has still to come to the socket, or has cleared its flag. -/
def Due (i : ι) (s : HeartbeatServer ι) : Prop :=
  i ∈ s.connList ∧
    match s.phase with
    | .idle => False
    | .clearing rest => i ∈ rest ∨ s.healthCheck i = false
    | .sending _ rest => i ∈ rest ∨ s.healthCheck i = false
    | .sleeping => s.healthCheck i = false
    | .testing rest => i ∈ rest ∧ s.healthCheck i = false

/-- The event leaves the flag of the socket alone, and the socket in the list. -/
def Silences (i : ι) (e : HeartbeatEvent ι) : Prop :=
  e ≠ .healthAck i ∧ e ≠ .reset i ∧ e ≠ .delete i

instance (i : ι) (e : HeartbeatEvent ι) : Decidable (Silences i e) :=
  inferInstanceAs (Decidable (_ ∧ _ ∧ _))

section
variable {s s' t : HeartbeatServer ι} {es : List (HeartbeatEvent ι)} {e : HeartbeatEvent ι} {i : ι}

theorem Called.concat (h : Called s i es) : Called s i (es ++ [e]) := by
  obtain ⟨before, after, t, rfl, hrun, hcalls⟩ := h
  exact ⟨before, after ++ [e], t, by simp, hrun, hcalls⟩

theorem due_beginClear (hlisted : i ∈ s.connList) (h : machine.step s .beginClear = some s') :
    s'.Due i := by
  cases change_of_step h with
  | beginClear => exact ⟨hlisted, .inl hlisted⟩

/-- A flag that is set is not the one of the socket. -/
theorem Due.update {j : ι} {resetting : ι → Bool} (h : s.Due i) (hij : i ≠ j) :
    Due i { s with healthCheck := Function.update s.healthCheck j true, resetting } := by
  obtain ⟨hlisted, hphase⟩ := h
  refine ⟨hlisted, ?_⟩
  simp only [Function.update_of_ne hij]
  exact hphase

/-- One more step of the round, unless it calls `Disconnect` on the socket. -/
theorem Due.step (h : s.Due i) (he : Silences i e) (hstep : machine.step s e = some s') :
    s'.Due i ∨ e = .test ∧ s.CallsDisconnect i := by
  have hupdate : ∀ {j : ι}, e = .reset j ∨ e = .healthAck j → i ≠ j := by
    rintro j (rfl | rfl) rfl
    · exact he.2.1 rfl
    · exact he.1 rfl
  obtain ⟨hlisted, hphase⟩ := h
  cases change_of_step hstep with
  | add => exact .inl ⟨List.mem_append_left _ hlisted, hphase⟩
  | reset => exact .inl (Due.update ⟨hlisted, hphase⟩ (hupdate (.inl rfl)))
  | healthAck => exact .inl (Due.update ⟨hlisted, hphase⟩ (hupdate (.inr rfl)))
  | @delete j =>
    have hij : i ≠ j := by
      rintro rfl
      exact he.2.2 rfl
    exact .inl ⟨List.mem_filter.mpr ⟨hlisted, by simpa using hij⟩, hphase⟩
  | beginClear hidle =>
    rw [hidle] at hphase
    exact hphase.elim
  | @clear j rest hclearing =>
    rw [hclearing] at hphase
    refine .inl ⟨hlisted, ?_⟩
    by_cases hij : i = j
    · exact .inr (by simp [hij])
    · refine hphase.imp (fun hmem => (List.mem_cons.mp hmem).resolve_left hij) fun hcheck => ?_
      simp only [Function.update_of_ne hij]
      exact hcheck
  | send hsending =>
    rw [hsending] at hphase
    exact .inl ⟨hlisted, hphase⟩
  | endClear hclearing =>
    rw [hclearing] at hphase
    exact .inl ⟨hlisted, hphase.resolve_left List.not_mem_nil⟩
  | beginTest hsleeping =>
    rw [hsleeping] at hphase
    exact .inl ⟨hlisted, hlisted, hphase⟩
  | @test j rest htesting =>
    rw [htesting] at hphase
    obtain ⟨hmem, hcheck⟩ := hphase
    by_cases hij : i = j
    · exact .inr ⟨rfl, ⟨rest, hij ▸ htesting⟩, hcheck⟩
    · exact .inl ⟨hlisted, (List.mem_cons.mp hmem).resolve_left hij, hcheck⟩
  | endTest htesting =>
    rw [htesting] at hphase
    exact absurd hphase.1 List.not_mem_nil

/-- As long as it is silent, the socket is due, or `Disconnect` has been called on it. -/
theorem Due.run (h : s.Due i) (he : ∀ e ∈ es, Silences i e) (hrun : machine.run s es = some s') :
    s'.Due i ∨ Called s i es := by
  induction es using List.reverseRecOn generalizing s' with
  | nil =>
    cases hrun
    exact .inl h
  | append_singleton es e ih =>
    obtain ⟨t, hbefore, hstep⟩ := EventMachine.run_concat_iff.mp hrun
    rcases ih (fun e he' => he e (List.mem_append_left _ he')) hbefore with hdue | hcalled
    · refine (hdue.step (he e (by simp)) hstep).imp_right ?_
      rintro ⟨rfl, hcalls⟩
      exact ⟨es, [], t, rfl, hbefore, hcalls⟩
    · exact .inr hcalled.concat

/-- When a round is over, the socket is not due. -/
theorem Due.not_endTest (h : s.Due i) : machine.step s .endTest = none := by
  obtain ⟨hlisted, hphase⟩ := h
  cases hstep : machine.step s .endTest with
  | none => rfl
  | some s' =>
    cases change_of_step hstep with
    | endTest htesting =>
      rw [htesting] at hphase
      exact absurd hphase.1 List.not_mem_nil

end

/-- A peer that is listed when a round begins and stays silent in it is disconnected in it, in
whatever order sockets are listed and delisted and the others answer meanwhile. -/
theorem called_of_silences {s s' : HeartbeatServer ι} {es : List (HeartbeatEvent ι)} {i : ι}
    (hlisted : i ∈ s.connList) (hsilent : ∀ e ∈ es, Silences i e)
    (hrun : machine.run s (.beginClear :: es ++ [.endTest]) = some s') :
    Called s i (.beginClear :: es) := by
  obtain ⟨t, hrun, hend⟩ := EventMachine.run_concat_iff.mp hrun
  rw [EventMachine.run_cons, Option.bind_eq_some_iff] at hrun
  obtain ⟨s₁, hbegin, hrun⟩ := hrun
  rcases (due_beginClear hlisted hbegin).run hsilent hrun with hdue | hcalled
  · rw [hdue.not_endTest] at hend
    cases hend
  · obtain ⟨before, after, t', rfl, hbefore, hcalls⟩ := hcalled
    refine ⟨.beginClear :: before, after, t', rfl, ?_, hcalls⟩
    rw [EventMachine.run_cons, hbegin]
    exact hbefore

/-- The first of two sockets answers and the second does not, while a third one is accepted. -/
theorem called_of_silences_oneAnswer : ∃ s, machine.run init [.add 0, .reset 0, .add 1, .reset 1] =
    some s ∧ Called s (1 : Nat) [.beginClear, .clear, .send, .clear, .healthAck 0, .send, .endClear,
      .add 2, .reset 2, .beginTest, .test, .test, .test] := by
  obtain ⟨s, hs, hlisted, s', hs'⟩ : ∃ s, machine.run init [.add 0, .reset 0, .add 1, .reset 1] =
      some s ∧ (1 : Nat) ∈ s.connList ∧ ∃ s', machine.run s (.beginClear :: [.clear, .send, .clear,
        .healthAck 0, .send, .endClear, .add 2, .reset 2, .beginTest, .test, .test, .test] ++
        [.endTest]) = some s' := ⟨_, rfl, by decide, _, rfl⟩
  exact ⟨s, hs, called_of_silences hlisted (by decide) hs'⟩

end HeartbeatServer

end PSM
