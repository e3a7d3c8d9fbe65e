import Mathlib.Data.List.Infix
import Mathlib.Logic.Function.Iterate
import Mathlib.Logic.Relation

/-! Two parties that answer each other over two channels.

The client opens with a request. The server answers a request with a list of responses, and the
client replies to a response with a list of requests. Both channels keep their order. What the
client has heard is then always a prefix of one list, the least fixed point of `round`, and when no
message is left it is the whole of that list, whichever party has moved when. -/

structure Dialogue (Q : Type u) (P : Type v) where
  opening : Q
  answer : Q → List P
  reply : P → List Q

namespace Dialogue

variable {Q : Type u} {P : Type v} (d : Dialogue Q P)

/-- The requests of a client that has heard the responses `h`. -/
def asked (h : List P) : List Q := d.opening :: h.flatMap d.reply

/-- The responses to these requests. -/
def round (h : List P) : List P := (d.asked h).flatMap d.answer

/-- What has been said when the parties have taken turns `n` times. -/
def script (n : Nat) : List P := d.round^[n] []

/-- After `n` turns nothing more is said. -/
def EndsAfter (n : Nat) : Prop := d.round (d.script n) = d.script n

/-- `toServer` and `toClient` hold what is in flight. -/
structure State (Q : Type u) (P : Type v) where
  served : List Q
  toServer : List Q
  heard : List P
  toClient : List P

def init : State Q P := ⟨[], [d.opening], [], []⟩

inductive Step : State Q P → State Q P → Prop where
  | serve {served toServer : List Q} {heard toClient : List P} {q : Q} :
    Step ⟨served, q :: toServer, heard, toClient⟩
      ⟨served ++ [q], toServer, heard, toClient ++ d.answer q⟩
  | hear {served toServer : List Q} {heard toClient : List P} {p : P} :
    Step ⟨served, toServer, heard, p :: toClient⟩
      ⟨served, toServer ++ d.reply p, heard ++ [p], toClient⟩

def Reached : State Q P → Prop := Relation.ReflTransGen d.Step d.init

/-- All requests come from what has been heard, and all responses from what has been served. -/
structure Coherent (s : State Q P) : Prop where
  requests : s.served ++ s.toServer = d.asked s.heard
  responses : s.heard ++ s.toClient = s.served.flatMap d.answer

variable {d} {s s' : State Q P} {h h' : List P} {n : Nat}

theorem asked_append : d.asked (h ++ h') = d.asked h ++ h'.flatMap d.reply := by
  simp [asked]

theorem asked_mono (hh : h <+: h') : d.asked h <+: d.asked h' :=
  (List.prefix_cons_inj _).mpr (hh.flatMap _)

theorem round_mono (hh : h <+: h') : d.round h <+: d.round h' := (asked_mono hh).flatMap _

/-- The script is a prefix of everything that a round adds nothing to. -/
theorem script_le (hh : d.round h = h) (n : Nat) : d.script n <+: h := by
  induction n with
  | zero => exact List.nil_prefix
  | succ n ih =>
    have hround : d.round (d.script n) <+: d.round h := round_mono ih
    rw [hh] at hround
    rw [script, Function.iterate_succ_apply']
    exact hround

theorem coherent_init : d.Coherent d.init := ⟨rfl, rfl⟩

theorem Coherent.step (hs : d.Coherent s) (hstep : d.Step s s') : d.Coherent s' := by
  cases hstep with
  | serve =>
    refine ⟨?_, ?_⟩
    · rw [List.append_assoc]
      exact hs.requests
    · rw [← List.append_assoc, hs.responses, List.flatMap_append, List.flatMap_singleton]
  | hear =>
    refine ⟨?_, ?_⟩
    · rw [← List.append_assoc, hs.requests, asked_append, List.flatMap_singleton]
    · rw [List.append_assoc]
      exact hs.responses

theorem Reached.serve {q : Q} {rest : List Q} (hs : d.Reached s) (h : s.toServer = q :: rest) :
    d.Reached ⟨s.served ++ [q], rest, s.heard, s.toClient ++ d.answer q⟩ := by
  cases s
  cases h
  exact hs.tail .serve

theorem Reached.hear {p : P} {rest : List P} (hs : d.Reached s) (h : s.toClient = p :: rest) :
    d.Reached ⟨s.served, s.toServer ++ d.reply p, s.heard ++ [p], rest⟩ := by
  cases s
  cases h
  exact hs.tail .hear

theorem Reached.coherent (hs : d.Reached s) : d.Coherent s := by
  induction hs with
  | refl => exact coherent_init
  | tail _ hstep ih => exact ih.step hstep

/-- What has been heard and is still to be heard is part of the script. -/
theorem Reached.heard_within (hn : d.EndsAfter n) (hs : d.Reached s) :
    s.heard ++ s.toClient <+: d.script n := by
  induction hs with
  | refl => exact List.nil_prefix
  | @tail s s' hs hstep ih =>
    have hcoherent : d.Coherent s' := (Reached.coherent hs).step hstep
    have hheard : s'.heard <+: d.script n := by
      refine List.IsPrefix.trans ?_ ih
      cases hstep with
      | serve => exact List.prefix_append _ _
      | @hear _ _ heard toClient p => exact ⟨toClient, by simp⟩
    have hserved : s'.served <+: d.asked s'.heard := by
      rw [← hcoherent.requests]
      exact List.prefix_append _ _
    rw [hcoherent.responses, ← hn]
    exact (hserved.trans (asked_mono hheard)).flatMap _

theorem Reached.served_within (hn : d.EndsAfter n) (hs : d.Reached s) :
    s.served ++ s.toServer <+: d.asked (d.script n) := by
  rw [hs.coherent.requests]
  exact asked_mono ((List.prefix_append _ _).trans (hs.heard_within hn))

/-- When no message is left, all has been said. -/
theorem Reached.over (hn : d.EndsAfter n) (hs : d.Reached s) (hserver : s.toServer = [])
    (hclient : s.toClient = []) : s.heard = d.script n ∧ s.served = d.asked (d.script n) := by
  obtain ⟨hrequests, hresponses⟩ := hs.coherent
  rw [hserver, List.append_nil] at hrequests
  rw [hclient, List.append_nil] at hresponses
  have hheard : s.heard = d.script n := by
    have hfixed : d.round s.heard = s.heard := by
      rw [round, ← hrequests, ← hresponses]
    have hprefix := hs.heard_within hn
    rw [hclient, List.append_nil] at hprefix
    exact hprefix.eq_of_length_le (script_le hfixed n).length_le
  exact ⟨hheard, by rw [hrequests, hheard]⟩

/-- No more steps than the script has messages. -/
theorem Reached.length_le (hn : d.EndsAfter n) (hs : d.Reached s) :
    s.served.length ≤ (d.asked (d.script n)).length ∧ s.heard.length ≤ (d.script n).length :=
  ⟨((List.prefix_append _ _).trans (hs.served_within hn)).length_le,
    ((List.prefix_append _ _).trans (hs.heard_within hn)).length_le⟩

end Dialogue
