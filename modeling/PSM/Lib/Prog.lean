import Mathlib.Logic.Function.Basic
import PSM.Lib.EventMachine

/-! Programs that call a shared service, command by command.

A program is a tree: it returns, or calls a command and goes on depending on the reply, or dies.
It can be run on its own (`Prog.run`), or as one of several threads whose commands interleave
(`Threads`). For the latter there is a rely–guarantee rule (`Threads.run_invariant`): a program is
`Safe` when each of its commands keeps a promise, whatever the others, who keep theirs, do in
between. -/

inductive Prog (C R : Type) (α : Type) where
  | ret (a : α)
  | call (c : C) (k : R → Prog C R α)
  | die

namespace Prog

variable {C R α β σ : Type}

def bind : Prog C R α → (α → Prog C R β) → Prog C R β
  | ret a, f => f a
  | call c k, f => call c fun r => (k r).bind f
  | die, _ => die

instance : Monad (Prog C R) where
  pure := ret
  bind := bind

/-- One command, returning its reply. -/
def command (c : C) : Prog C R R := call c ret

/-- All commands of the program, with no one else's in between. There is no result when the program
dies. -/
def run (exec : C → σ → R × σ) : Prog C R α → σ → Option (α × σ)
  | ret a, s => some (a, s)
  | call c k, s => run exec (k (exec c s).1) (exec c s).2
  | die, _ => none

/-- The commands that the program calls on its own. -/
def commands (exec : C → σ → R × σ) : Prog C R α → σ → List C
  | ret _, _ => []
  | call c k, s => c :: commands exec (k (exec c s).1) (exec c s).2
  | die, _ => []

section run
variable {exec : C → σ → R × σ} {s : σ}

@[simp] theorem run_pure (a : α) : run exec (pure a) s = some (a, s) := rfl

@[simp] theorem run_die : run exec (die : Prog C R α) s = none := rfl

@[simp] theorem run_command (c : C) : run exec (command c) s = some (exec c s) := rfl

@[simp] theorem run_bind (p : Prog C R α) (f : α → Prog C R β) :
    run exec (p >>= f) s = (run exec p s).bind fun (a, s) => run exec (f a) s := by
  change run exec (p.bind f) s = _
  induction p generalizing s with
  | ret a => rfl
  | call c k ih => exact ih _
  | die => rfl

theorem commands_bind (p : Prog C R α) (f : α → Prog C R β) :
    commands exec (p >>= f) s = commands exec p s ++
      (run exec p s).elim [] fun (a, s) => commands exec (f a) s := by
  change commands exec (p.bind f) s = _
  induction p generalizing s with
  | ret a => rfl
  | call c k ih => exact congrArg (c :: ·) (ih _)
  | die => rfl

end run

/-- Every command that the program can come to call satisfies `Q`, whatever the replies are. -/
def Calls (Q : C → Prop) : Prog C R α → Prop
  | ret _ => True
  | call c k => Q c ∧ ∀ r, Calls Q (k r)
  | die => True

section Calls
variable {Q : C → Prop}

theorem Calls.command {c : C} (h : Q c) : (Prog.command c : Prog C R R).Calls Q :=
  ⟨h, fun _ => trivial⟩

theorem Calls.bind {p : Prog C R α} {f : α → Prog C R β} (hp : p.Calls Q)
    (hf : ∀ a, (f a).Calls Q) : (p >>= f).Calls Q := by
  change (p.bind f).Calls Q
  induction p with
  | ret a => exact hf a
  | call c k ih => exact ⟨hp.1, fun r => ih r (hp.2 r)⟩
  | die => trivial

/-- What the commands do to the state, taken together, the program does. -/
theorem Calls.run {exec : C → σ → R × σ} {p : Prog C R α} (h : p.Calls Q) {change : σ → σ → Prop}
    (hrefl : ∀ s, change s s)
    (hstep : ∀ {c s s'}, Q c → change (exec c s).2 s' → change s s') {a : α} {s s' : σ}
    (hrun : p.run exec s = some (a, s')) : change s s' := by
  induction p generalizing s with
  | ret a => cases hrun; exact hrefl _
  | call c k ih => exact hstep h.1 (ih _ (h.2 _) hrun)
  | die => cases hrun

end Calls

/-- Each command keeps the promise `guar`, the program does not die, and it returns with `post`,
when between its commands the state changes as `rely` allows. -/
def Safe (exec : C → σ → R × σ) (rely guar : σ → σ → Prop) (post : α → σ → Prop) :
    Prog C R α → σ → Prop
  | ret a, s => post a s
  | call c k, s => ∀ s', rely s s' →
    guar s' (exec c s').2 ∧ Safe exec rely guar post (k (exec c s').1) (exec c s').2
  | die, _ => False

section Safe
variable {exec : C → σ → R × σ} {rely guar : σ → σ → Prop} {s s' : σ}

theorem Safe.command {post : R → σ → Prop} {c : C}
    (h : ∀ s', rely s s' → guar s' (exec c s').2 ∧ post (exec c s').1 (exec c s').2) :
    (Prog.command c).Safe exec rely guar post s := h

/-- What the first program returns with is what the second can start from. -/
theorem Safe.bind {p : Prog C R α} {f : α → Prog C R β} (post : α → σ → Prop)
    {post' : β → σ → Prop} (hp : p.Safe exec rely guar post s)
    (hf : ∀ a s, post a s → (f a).Safe exec rely guar post' s) :
    (p >>= f).Safe exec rely guar post' s := by
  change (p.bind f).Safe exec rely guar post' s
  induction p generalizing s with
  | ret a => exact hf a s hp
  | call c k ih => exact fun s' hs' => ⟨(hp s' hs').1, ih _ (hp s' hs').2⟩
  | die => exact hp

/-- A safe program stays safe while the others change the state, if what it returns with is
stable. -/
theorem Safe.stable {p : Prog C R α} {post : α → σ → Prop} (h : p.Safe exec rely guar post s)
    (hrely : rely s s') (htrans : ∀ {s s' s''}, rely s s' → rely s' s'' → rely s s'')
    (hpost : ∀ a, post a s → post a s') : p.Safe exec rely guar post s' := by
  cases p with
  | ret a => exact hpost a h
  | call c k => exact fun s'' hs'' => h s'' (htrans hrely hs'')
  | die => exact h

/-- A safe program run on its own: the state changes as its promises, taken together, allow. -/
theorem Safe.run {p : Prog C R α} {post : α → σ → Prop} (h : p.Safe exec rely guar post s)
    (hrely : ∀ s, rely s s) {change : σ → σ → Prop} (hrefl : ∀ s, change s s)
    (hstep : ∀ {s s' s''}, guar s s' → change s' s'' → change s s'') {a : α}
    (hrun : p.run exec s = some (a, s')) : change s s' := by
  induction p generalizing s with
  | ret a => cases hrun; exact hrefl _
  | call c k ih => exact hstep (h s (hrely s)).1 (ih _ (h s (hrely s)).2 hrun)
  | die => cases hrun

end Safe

end Prog

/-! ## Threads -/

/-- The shared state, and what each thread still has to do. An idle thread has no program. -/
structure Threads (ι C R α σ : Type) where
  shared : σ
  running : ι → Option (Prog C R α)

/-- An idle thread makes one of the calls open to it, or a thread takes its next step: a command,
or its return. -/
inductive Threads.Event (κ : ι → Type) where
  | start (i : ι) (call : κ i)
  | step (i : ι)

namespace Threads

variable {ι C R α σ : Type} {κ : ι → Type} [DecidableEq ι]

/-- All threads idle. -/
def init (s : σ) : Threads ι C R α σ := ⟨s, fun _ => none⟩

/-- `body i call` is the program of a call that thread `i` may make. -/
def step (exec : C → σ → R × σ) (body : (i : ι) → κ i → Prog C R α) (t : Threads ι C R α σ) :
    Event κ → Option (Threads ι C R α σ)
  | .start i call =>
    match t.running i with
    | none => some { t with running := Function.update t.running i (some (body i call)) }
    | some _ => none
  | .step i =>
    match t.running i with
    | some (.call c k) => some {
        shared := (exec c t.shared).2
        running := Function.update t.running i (some (k (exec c t.shared).1)) }
    | some (.ret _) => some { t with running := Function.update t.running i none }
    | _ => none

def machine (exec : C → σ → R × σ) (body : (i : ι) → κ i → Prog C R α) :
    EventMachine (Threads ι C R α σ) (Event κ) := ⟨step exec body⟩

/-- A call is made only where its precondition holds. -/
def Allowed (pre : (i : ι) → κ i → σ → Prop) (t : Threads ι C R α σ) : Event κ → Prop
  | .start i call => pre i call t.shared
  | .step _ => True

/-- What the threads promise each other, the calls for which they do, and an invariant that their
promises keep. -/
structure Contract (exec : C → σ → R × σ) (body : (i : ι) → κ i → Prog C R α)
    (pre : (i : ι) → κ i → σ → Prop) (I : σ → Prop) (rely guar : ι → σ → σ → Prop) : Prop where
  refl : ∀ i s, rely i s s
  trans : ∀ {i s s' s''}, rely i s s' → rely i s' s'' → rely i s s''
  rely_of_guar : ∀ {i j s s'}, i ≠ j → I s → guar i s s' → rely j s s'
  keeps : ∀ {i s s'}, I s → guar i s s' → I s'
  safe : ∀ i call s, I s → pre i call s →
    (body i call).Safe exec (rely i) (guar i) (fun _ _ => True) s

/-- The invariant holds and the running programs are safe. -/
def Sound (exec : C → σ → R × σ) (I : σ → Prop) (rely guar : ι → σ → σ → Prop)
    (t : Threads ι C R α σ) : Prop :=
  I t.shared ∧ ∀ i p, t.running i = some p → p.Safe exec (rely i) (guar i) (fun _ _ => True) t.shared

section
variable {exec : C → σ → R × σ} {body : (i : ι) → κ i → Prog C R α}
  {pre : (i : ι) → κ i → σ → Prop} {I : σ → Prop} {rely guar : ι → σ → σ → Prop}
  {t t' : Threads ι C R α σ} {e : Event κ}

omit [DecidableEq ι] in
theorem init_sound {s : σ} (h : I s) :
    (init s : Threads ι C R α σ).Sound exec I rely guar := ⟨h, fun _ _ hp => nomatch hp⟩

theorem update_eq_some_iff {β : Type} {f : ι → Option β} {i j : ι} {x : Option β} {b : β} :
    Function.update f i x j = some b ↔ j = i ∧ x = some b ∨ j ≠ i ∧ f j = some b := by
  by_cases h : j = i
  · subst h; simp
  · simp [h]

/-- A step keeps the threads sound, and leaves the shared state alone or keeps a promise. -/
theorem Sound.step (hc : Contract exec body pre I rely guar) (h : t.Sound exec I rely guar)
    (hallowed : t.Allowed pre e) (hstep : (machine exec body).step t e = some t') :
    t'.Sound exec I rely guar ∧
      (t'.shared = t.shared ∨ ∃ i, guar i t.shared t'.shared) := by
  obtain ⟨hI, hsafe⟩ := h
  cases e with
  | start i call =>
    simp only [machine, Threads.step] at hstep
    split at hstep <;> cases hstep
    refine ⟨⟨hI, fun j p hp => ?_⟩, .inl rfl⟩
    simp only [update_eq_some_iff] at hp
    rcases hp with ⟨rfl, hp⟩ | ⟨-, hp⟩
    · cases hp
      exact hc.safe j call _ hI hallowed
    · exact hsafe j p hp
  | step i =>
    simp only [machine, Threads.step] at hstep
    split at hstep
    · rename_i c k hrun
      cases hstep
      obtain ⟨hguar, hnext⟩ := hsafe i _ hrun t.shared (hc.refl i _)
      refine ⟨⟨hc.keeps hI hguar, fun j p hp => ?_⟩, .inr ⟨i, hguar⟩⟩
      simp only [update_eq_some_iff] at hp
      rcases hp with ⟨rfl, hp⟩ | ⟨hj, hp⟩
      · cases hp
        exact hnext
      · exact (hsafe j p hp).stable (hc.rely_of_guar (Ne.symm hj) hI hguar) hc.trans
          fun _ _ => trivial
    · cases hstep
      refine ⟨⟨hI, fun j p hp => ?_⟩, .inl rfl⟩
      simp only [update_eq_some_iff] at hp
      rcases hp with ⟨-, hp⟩ | ⟨-, hp⟩
      · cases hp
      · exact hsafe j p hp
    · cases hstep

/-- The rely–guarantee rule: in every run of allowed calls the invariant holds, and the shared state
changes only as the promises, taken together, allow. -/
theorem Sound.run {change : σ → σ → Prop} (hc : Contract exec body pre I rely guar)
    (hrefl : ∀ s, change s s) (htrans : ∀ {s s' s''}, change s s' → change s' s'' → change s s'')
    (hchange : ∀ {i s s'}, I s → guar i s s' → change s s') {es : List (Event κ)}
    (h : t.Sound exec I rely guar) (hmeets : (machine exec body).Meets (Allowed pre) t es)
    (hrun : (machine exec body).run t es = some t') :
    t'.Sound exec I rely guar ∧ change t.shared t'.shared := by
  have halways : (machine exec body).Always
      (fun t' => t'.Sound exec I rely guar ∧ change t.shared t'.shared) t es := by
    refine hmeets.always ?_ id ⟨h, hrefl _⟩
    intro s e s' ⟨hs, hch⟩ hallowed hstep
    obtain ⟨hs', heq | ⟨i, hguar⟩⟩ := hs.step hc hallowed hstep
    · exact ⟨hs', heq ▸ hch⟩
    · exact ⟨hs', htrans hch (hchange hs.1 hguar)⟩
  exact halways.last hrun

end

end Threads
