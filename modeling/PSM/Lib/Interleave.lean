import PSM.Lib.Prog

/-! Two programs on one service.

A schedule says which of the two calls the next command. The result of a schedule is serializable
when one of the programs after the other would have given the same. That can be shown from promises
(`serializable_of_safe`), and for programs that read and write one value the result of every
schedule is given by where its commands stand (`interleave_updates`). -/

namespace Prog

variable {C R α β σ : Type}

inductive Side where
  | left
  | right
  deriving DecidableEq

/-- The commands of the two programs in the order of the schedule, which ends when both have
returned. -/
def interleave (exec : C → σ → R × σ) :
    List Side → Prog C R α → Prog C R β → σ → Option (α × β × σ)
  | [], ret a, ret b, s => some (a, b, s)
  | .left :: es, call c k, q, s => interleave exec es (k (exec c s).1) q (exec c s).2
  | .right :: es, p, call c k, s => interleave exec es p (k (exec c s).1) (exec c s).2
  | _, _, _, _ => none

/-- How many commands of the other side come before the given one of a side. -/
def commandsBefore (x : Side) : List Side → Nat → Nat
  | [], _ => 0
  | y :: es, n => if y = x then
      match n with
      | 0 => 0
      | n + 1 => commandsBefore x es n
    else commandsBefore x es n + 1

/-- One program and then the other. -/
def Serial (exec : C → σ → R × σ) (p : Prog C R α) (q : Prog C R β) (s s' : σ) : Prop :=
  ∃ a b s₁, p.run exec s = some (a, s₁) ∧ q.run exec s₁ = some (b, s')

/-- The state is the same as after one of the two orders. -/
def Serializable (exec : C → σ → R × σ) (same : σ → σ → Prop) (p : Prog C R α) (q : Prog C R β)
    (s s' : σ) : Prop :=
  ∃ t, (Serial exec p q s t ∨ Serial exec q p s t) ∧ same s' t

section
variable {exec : C → σ → R × σ} {es : List Side} {p : Prog C R α} {q : Prog C R β} {a : α} {b : β}
  {s s' : σ} {n : Nat}

@[simp] theorem commandsBefore_self_zero {x : Side} : commandsBefore x (x :: es) 0 = 0 := by
  simp [commandsBefore]

@[simp] theorem commandsBefore_self_succ {x : Side} :
    commandsBefore x (x :: es) (n + 1) = commandsBefore x es n := by
  simp [commandsBefore]

@[simp] theorem commandsBefore_right_left :
    commandsBefore .right (.left :: es) n = commandsBefore .right es n + 1 := by
  simp [commandsBefore]

@[simp] theorem commandsBefore_left_right :
    commandsBefore .left (.right :: es) n = commandsBefore .left es n + 1 := by
  simp [commandsBefore]

/-! ## When one has returned -/

theorem interleave_ret_right {b' : β} (h : interleave exec es p (ret b) s = some (a, b', s')) :
    p.run exec s = some (a, s') := by
  induction es generalizing p s with
  | nil =>
    cases p with
    | ret a' => cases h; rfl
    | _ => cases h
  | cons e es ih =>
    cases e with
    | left =>
      cases p with
      | call c k => exact ih (p := k (exec c s).1) h
      | _ => cases h
    | right => cases p <;> cases h

theorem exists_interleave_ret_left (h : q.run exec s = some (b, s')) :
    ∃ es, interleave exec es (ret a) q s = some (a, b, s') := by
  induction q generalizing s with
  | ret b' => cases h; exact ⟨[], rfl⟩
  | call c k ih =>
    obtain ⟨es, hes⟩ := ih _ h
    exact ⟨.right :: es, hes⟩
  | die => cases h

/-- A program and then the other is one of the schedules. -/
theorem Serial.exists_interleave (h : Serial exec p q s s') :
    ∃ es a b, interleave exec es p q s = some (a, b, s') := by
  obtain ⟨a, b, s₁, hp, hq⟩ := h
  induction p generalizing s with
  | ret a' =>
    cases hp
    obtain ⟨es, hes⟩ := exists_interleave_ret_left hq
    exact ⟨es, _, _, hes⟩
  | call c k ih =>
    obtain ⟨es, a', b', hes⟩ := ih _ hp
    exact ⟨.left :: es, a', b', hes⟩
  | die => cases hp

/-! ## Another service -/

/-- A service that does the same to the part of the state that the commands are about. -/
theorem run_map {exec' : C → τ → R × τ} {f : σ → τ} {Q : C → Prop} (hp : p.Calls Q)
    (hexec : ∀ c s, Q c → exec' c (f s) = ((exec c s).1, f (exec c s).2)) :
    p.run exec' (f s) = (p.run exec s).map fun (a, s) => (a, f s) := by
  induction p generalizing s with
  | ret a => rfl
  | call c k ih =>
    change (k (exec' c (f s)).1).run exec' (exec' c (f s)).2 = _
    rw [hexec c s hp.1]
    exact ih _ (hp.2 _)
  | die => rfl

theorem interleave_map {exec' : C → τ → R × τ} {f : σ → τ} {Q : C → Prop} (hp : p.Calls Q)
    (hq : q.Calls Q) (hexec : ∀ c s, Q c → exec' c (f s) = ((exec c s).1, f (exec c s).2)) :
    interleave exec' es p q (f s) = (interleave exec es p q s).map fun (a, b, s) => (a, b, f s) := by
  induction es generalizing p q s with
  | nil => cases p <;> cases q <;> rfl
  | cons e es ih =>
    cases e with
    | left =>
      cases p with
      | call c k =>
        change interleave exec' es (k (exec' c (f s)).1) q (exec' c (f s)).2 = _
        rw [hexec c s hp.1]
        exact ih (hp.2 _) hq
      | _ => rfl
    | right =>
      cases q with
      | call c k =>
        change interleave exec' es p (k (exec' c (f s)).1) (exec' c (f s)).2 = _
        rw [hexec c s hq.1]
        exact ih hp (hq.2 _)
      | _ => cases p <;> rfl

end

section
variable {exec : C → σ → R × σ} {exec' : C → τ → R × τ} {f : σ → τ} {Q : C → Prop}
  {p : Prog C R α} {q : Prog C R β} {s s' : σ}

theorem Serial.of_map (hp : p.Calls Q) (hq : q.Calls Q)
    (hexec : ∀ c s, Q c → exec' c (f s) = ((exec c s).1, f (exec c s).2)) {t : τ} :
    Serial exec' p q (f s) t ↔ ∃ s', Serial exec p q s s' ∧ t = f s' := by
  constructor
  · rintro ⟨a, b, t₁, hrun, hrun'⟩
    rw [run_map hp hexec] at hrun
    obtain ⟨⟨a', s₁⟩, hfirst, heq⟩ := Option.map_eq_some_iff.mp hrun
    cases heq
    rw [run_map hq hexec] at hrun'
    obtain ⟨⟨b', s'⟩, hsecond, heq⟩ := Option.map_eq_some_iff.mp hrun'
    cases heq
    exact ⟨s', ⟨a, b, s₁, hfirst, hsecond⟩, rfl⟩
  · rintro ⟨s', ⟨a, b, s₁, hrun, hrun'⟩, rfl⟩
    refine ⟨a, b, f s₁, ?_, ?_⟩
    · rw [run_map hp hexec, hrun]
      rfl
    · rw [run_map hq hexec, hrun']
      rfl

theorem serializable_map (hp : p.Calls Q) (hq : q.Calls Q)
    (hexec : ∀ c s, Q c → exec' c (f s) = ((exec c s).1, f (exec c s).2)) {same : τ → τ → Prop} :
    Serializable exec' same p q (f s) (f s') ↔
      Serializable exec (fun s s' => same (f s) (f s')) p q s s' := by
  unfold Serializable
  simp only [Serial.of_map hp hq hexec, Serial.of_map hq hp hexec]
  constructor
  · rintro ⟨t, ⟨t', h, rfl⟩ | ⟨t', h, rfl⟩, hsame⟩
    · exact ⟨t', .inl h, hsame⟩
    · exact ⟨t', .inr h, hsame⟩
  · rintro ⟨t, h | h, hsame⟩
    · exact ⟨f t, .inl ⟨t, h, rfl⟩, hsame⟩
    · exact ⟨f t, .inr ⟨t, h, rfl⟩, hsame⟩

end

/-! ## Promises -/

section promises
variable {exec : C → σ → R × σ} {G H : σ → σ → Prop} {post : α → σ → Prop} {post' : β → σ → Prop}
  {es : List Side} {p : Prog C R α} {q : Prog C R β} {a : α} {b : β} {s s' : σ}

/-- A safe program returns. -/
theorem Safe.exists_run (h : p.Safe exec H G post s) (hH : ∀ s, H s s) :
    ∃ a s', p.run exec s = some (a, s') ∧ post a s' := by
  induction p generalizing s with
  | ret a => exact ⟨a, s, rfl, h⟩
  | call c k ih => exact ih _ (h s (hH s)).2
  | die => cases h

/-- What two programs promise each other while they interleave, and what they return with. -/
structure Agreement (G H : σ → σ → Prop) (post : α → σ → Prop) (post' : β → σ → Prop) : Prop where
  refl_left : ∀ s, G s s
  trans_left : ∀ {s s' s''}, G s s' → G s' s'' → G s s''
  refl_right : ∀ s, H s s
  trans_right : ∀ {s s' s''}, H s s' → H s' s'' → H s s''
  stable_left : ∀ {a s s'}, post a s → H s s' → post a s'
  stable_right : ∀ {b s s'}, post' b s → G s s' → post' b s'

theorem Agreement.interleave (hc : Agreement G H post post') (hp : p.Safe exec H G post s)
    (hq : q.Safe exec G H post' s) (h : interleave exec es p q s = some (a, b, s')) :
    post a s' ∧ post' b s' := by
  induction es generalizing p q s with
  | nil =>
    cases p with
    | ret a =>
      cases q with
      | ret b => cases h; exact ⟨hp, hq⟩
      | _ => cases h
    | _ => cases h
  | cons e es ih =>
    cases e with
    | left =>
      cases p with
      | call c k =>
        obtain ⟨hguar, hnext⟩ := hp s (hc.refl_right s)
        exact ih hnext (hq.stable hguar hc.trans_left fun _ h => hc.stable_right h hguar) h
      | _ => cases h
    | right =>
      cases q with
      | call c k =>
        obtain ⟨hguar, hnext⟩ := hq s (hc.refl_left s)
        refine ih (hp.stable hguar hc.trans_right fun _ h => hc.stable_left h hguar) hnext ?_
        cases p <;> exact h
      | _ => cases p <;> cases h

/-- When what the programs return with settles what is observed, every schedule is as good as the
left program before the right one. -/
theorem Agreement.serializable (hc : Agreement G H post post') (hp : p.Safe exec H G post s)
    (hq : q.Safe exec G H post' s) {same : σ → σ → Prop}
    (hsame : ∀ {a a' b b' t t'}, post a t → post' b t → post a' t' → post' b' t' → same t t')
    (h : Prog.interleave exec es p q s = some (a, b, s')) : Serializable exec same p q s s' := by
  obtain ⟨a₁, s₁, hrun, -⟩ := hp.exists_run hc.refl_right
  have hchange : G s s₁ := hp.run hc.refl_right hc.refl_left hc.trans_left hrun
  have hq₁ := hq.stable hchange hc.trans_left fun _ h => hc.stable_right h hchange
  obtain ⟨b₁, s₂, hrun', -⟩ := hq₁.exists_run hc.refl_left
  have hserial : Serial exec p q s s₂ := ⟨a₁, b₁, s₁, hrun, hrun'⟩
  obtain ⟨es', a₂, b₂, hes'⟩ := hserial.exists_interleave
  obtain ⟨hpost, hpost'⟩ := hc.interleave hp hq h
  obtain ⟨hpost₂, hpost₂'⟩ := hc.interleave hp hq hes'
  exact ⟨s₂, .inl hserial, hsame hpost hpost' hpost₂ hpost₂'⟩

end promises

/-! ## Updates of one value -/

section updates
variable {X : Type} (exec : C → σ → R × σ) (Has : X → σ → Prop)

/-- The first command leaves the value as it is, and its reply is answered by what `next` says of
the value. -/
def Reads (next : X → Prog C R α → Prop) : Prog C R α → Prop
  | call c k => ∀ x s, Has x s → Has x (exec c s).2 ∧ next x (k (exec c s).1)
  | _ => False

/-- The first command sets the value. -/
def Writes (y : X) (next : Prog C R α → Prop) : Prog C R α → Prop
  | call c k => ∀ x s, Has x s → Has y (exec c s).2 ∧ next (k (exec c s).1)
  | _ => False

/-- The program reads the value and writes the changed one, for each of the changes. -/
def Updates : List (X → X) → Prog C R α → Prop
  | [], p => ∃ a, p = ret a
  | f :: fs, p => Reads exec Has (fun x => Writes exec Has (f x) (Updates fs)) p

/-- The value after all changes. -/
def applyAll (fs : List (X → X)) (x : X) : X := fs.foldl (fun x f => f x) x

/-- The value after the changes of one program, when another writes `w` after `n` of its commands. A
write that comes between the read and the write of a change is lost, and any other undoes the
changes before it. -/
def overwritten : List (X → X) → X → X → Nat → X
  | [], _, w, _ => w
  | f :: fs, _, w, 0 => applyAll (f :: fs) w
  | f :: fs, x, _, 1 => applyAll (f :: fs) x
  | f :: fs, x, w, n + 2 => overwritten fs (f x) w n

/-- The value after the changes of one program and the change `h` of another, which reads after `m`
and writes after `n` commands of the first. -/
def outcome (fs : List (X → X)) (h : X → X) (x : X) (m n : Nat) : X :=
  overwritten fs x (h (applyAll (fs.take (m / 2)) x)) n

section
variable {f : X → X} {fs : List (X → X)} {h : X → X} {x w : X} {m n : Nat}

@[simp] theorem applyAll_nil : applyAll [] x = x := rfl

@[simp] theorem applyAll_cons : applyAll (f :: fs) x = applyAll fs (f x) := rfl

@[simp] theorem overwritten_nil : overwritten [] x w n = w := rfl

@[simp] theorem overwritten_zero : overwritten fs x w 0 = applyAll fs w := by
  cases fs <;> rfl

@[simp] theorem overwritten_one : overwritten (f :: fs) x w 1 = applyAll fs (f x) := rfl

@[simp] theorem overwritten_add_two :
    overwritten (f :: fs) x w (n + 1 + 1) = overwritten fs (f x) w n := rfl

end

variable {exec Has} {fs : List (X → X)} {h : X → X} {es : List Side} {p : Prog C R α}
  {q : Prog C R β} {a : α} {b : β} {s s' : σ} {x w : X}

theorem Updates.exists_run (hp : Updates exec Has fs p) (hs : Has x s) :
    ∃ a s', p.run exec s = some (a, s') ∧ Has (applyAll fs x) s' := by
  induction fs generalizing p s x with
  | nil =>
    obtain ⟨a, rfl⟩ := hp
    exact ⟨a, s, rfl, hs⟩
  | cons f fs ih =>
    cases p with
    | call c k =>
      obtain ⟨hs₁, hwrite⟩ := hp x s hs
      revert hwrite
      cases hk : k (exec c s).1 with
      | call c' k' =>
        intro hwrite
        obtain ⟨hs₂, hrest⟩ := hwrite _ _ hs₁
        obtain ⟨a, s', hrun, hs'⟩ := ih hrest hs₂
        refine ⟨a, s', ?_, hs'⟩
        change (k (exec c s).1).run exec _ = _
        rw [hk]
        exact hrun
      | _ => exact False.elim
    | _ => cases hp

theorem Updates.run (hp : Updates exec Has fs p) (hs : Has x s) (hrun : p.run exec s = some (a, s')) :
    Has (applyAll fs x) s' := by
  obtain ⟨_, _, hrun', hs'⟩ := hp.exists_run hs
  cases hrun.symm.trans hrun'
  exact hs'

theorem Writes.run (hp : Writes exec Has w (Updates exec Has fs) p)
    (hs : Has x s) (hrun : p.run exec s = some (a, s')) : Has (applyAll fs w) s' := by
  cases p with
  | call c k =>
    obtain ⟨hs₁, hrest⟩ := hp _ _ hs
    exact hrest.run hs₁ hrun
  | _ => cases hp

/-! ### One command of a schedule -/

section
variable {r : α × β × σ}

theorem Reads.left {next : X → Prog C R α → Prop} (hp : Reads exec Has next p) (hs : Has x s)
    (hrun : interleave exec (.left :: es) p q s = some r) :
    ∃ p' s₁, next x p' ∧ Has x s₁ ∧ interleave exec es p' q s₁ = some r := by
  cases p with
  | call c k => exact ⟨_, _, (hp x s hs).2, (hp x s hs).1, hrun⟩
  | _ => cases hp

theorem Writes.left {next : Prog C R α → Prop} (hp : Writes exec Has w next p) (hs : Has x s)
    (hrun : interleave exec (.left :: es) p q s = some r) :
    ∃ p' s₁, next p' ∧ Has w s₁ ∧ interleave exec es p' q s₁ = some r := by
  cases p with
  | call c k => exact ⟨_, _, (hp x s hs).2, (hp x s hs).1, hrun⟩
  | _ => cases hp

theorem Reads.right {next : X → Prog C R β → Prop} (hq : Reads exec Has next q) (hs : Has x s)
    (hrun : interleave exec (.right :: es) p q s = some r) :
    ∃ q' s₁, next x q' ∧ Has x s₁ ∧ interleave exec es p q' s₁ = some r := by
  cases q with
  | call c k =>
    refine ⟨_, _, (hq x s hs).2, (hq x s hs).1, ?_⟩
    cases p <;> exact hrun
  | _ => cases hq

theorem Writes.right {next : Prog C R β → Prop} (hq : Writes exec Has w next q) (hs : Has x s)
    (hrun : interleave exec (.right :: es) p q s = some r) :
    ∃ q' s₁, next q' ∧ Has w s₁ ∧ interleave exec es p q' s₁ = some r := by
  cases q with
  | call c k =>
    refine ⟨_, _, (hq x s hs).2, (hq x s hs).1, ?_⟩
    cases p <;> exact hrun
  | _ => cases hq

/-- The schedule is not at its end before the right program has returned. -/
theorem Updates.not_nil (hq : Updates exec Has (h :: fs) q) : interleave exec [] p q s ≠ some r := by
  cases q with
  | call d l => cases p <;> exact nofun
  | _ => cases hq

theorem Writes.not_nil {next : Prog C R β → Prop} (hq : Writes exec Has w next q) :
    interleave exec [] p q s ≠ some r := by
  cases q with
  | call d l => cases p <;> exact nofun
  | _ => cases hq

end

/-- Once the right program has written and returned, the left one goes on alone. -/
theorem Writes.then_left (hq : Writes exec Has w (Updates exec Has []) q)
    (hp : Updates exec Has fs p) (hs : Has x s)
    (hrun : interleave exec (.right :: es) p q s = some (a, b, s')) : Has (applyAll fs w) s' := by
  obtain ⟨_, s₁, ⟨b', rfl⟩, hs₁, hrun⟩ := hq.right hs hrun
  exact hp.run hs₁ (interleave_ret_right hrun)

/-- The right program is about to write what it has made of the value it read. -/
theorem interleave_writes (hp : Updates exec Has fs p)
    (hq : Writes exec Has w (Updates exec Has []) q) (hs : Has x s)
    (hrun : interleave exec es p q s = some (a, b, s')) :
    Has (overwritten fs x w (commandsBefore .right es 0)) s' := by
  induction fs generalizing es p x s with
  | nil =>
    rcases es with _ | ⟨_ | _, es⟩
    · exact absurd hrun hq.not_nil
    · obtain ⟨a', rfl⟩ := hp
      cases hrun
    · simpa using hq.then_left hp hs hrun
  | cons f fs ih =>
    rcases es with _ | ⟨_ | _, es⟩
    · exact absurd hrun hq.not_nil
    · obtain ⟨p₁, s₁, hp₁, hs₁, hrun⟩ := Reads.left hp hs hrun
      rcases es with _ | ⟨_ | _, es⟩
      · exact absurd hrun hq.not_nil
      · obtain ⟨p₂, s₂, hp₂, hs₂, hrun⟩ := hp₁.left hs₁ hrun
        simpa using ih hp₂ hs₂ hrun
      · -- this write is overwritten
        obtain ⟨_, s₂, ⟨b', rfl⟩, hs₂, hrun⟩ := hq.right hs₁ hrun
        simpa using hp₁.run hs₂ (interleave_ret_right hrun)
    · simpa using hq.then_left hp hs hrun

/-- A change by one program while another makes a sequence of changes. -/
theorem interleave_updates (hp : Updates exec Has fs p) (hq : Updates exec Has [h] q) (hs : Has x s)
    (hrun : interleave exec es p q s = some (a, b, s')) :
    Has (outcome fs h x (commandsBefore .right es 0) (commandsBefore .right es 1)) s' := by
  -- the right program reads first
  have hread : ∀ {es fs p x s}, Updates exec Has fs p → Has x s →
      interleave exec (.right :: es) p q s = some (a, b, s') →
      Has (overwritten fs x (h x) (commandsBefore .right es 0)) s' := by
    intro es fs p x s hp hs hrun
    obtain ⟨q₁, s₁, hq₁, hs₁, hrun⟩ := Reads.right hq hs hrun
    exact interleave_writes hp hq₁ hs₁ hrun
  induction fs generalizing es p x s with
  | nil =>
    rcases es with _ | ⟨_ | _, es⟩
    · exact absurd hrun hq.not_nil
    · obtain ⟨a', rfl⟩ := hp
      cases hrun
    · simpa [outcome] using hread hp hs hrun
  | cons f fs ih =>
    rcases es with _ | ⟨_ | _, es⟩
    · exact absurd hrun hq.not_nil
    · obtain ⟨p₁, s₁, hp₁, hs₁, hrun⟩ := Reads.left hp hs hrun
      rcases es with _ | ⟨_ | _, es⟩
      · exact absurd hrun hq.not_nil
      · obtain ⟨p₂, s₂, hp₂, hs₂, hrun⟩ := hp₁.left hs₁ hrun
        simpa [outcome, Nat.add_div_right _ Nat.zero_lt_two] using ih hp₂ hs₂ hrun
      · -- the right program reads between the read and the write of `f`
        obtain ⟨q₁, s₂, hq₁, hs₂, hrun⟩ := Reads.right hq hs₁ hrun
        rcases es with _ | ⟨_ | _, es⟩
        · exact absurd hrun hq₁.not_nil
        · obtain ⟨p₂, s₃, hp₂, hs₃, hrun⟩ := hp₁.left hs₂ hrun
          simpa [outcome] using interleave_writes hp₂ hq₁ hs₃ hrun
        · obtain ⟨_, s₃, ⟨b', rfl⟩, hs₃, hrun⟩ := hq₁.right hs₂ hrun
          simpa [outcome] using hp₁.run hs₃ (interleave_ret_right hrun)
    · simpa [outcome] using hread hp hs hrun

/-- If what is observed of the state is the value, a schedule is serializable exactly when its
outcome is that of one of the two orders. -/
theorem serializable_updates_iff {same : σ → σ → Prop}
    (hsame : ∀ {x y s s'}, Has x s → Has y s' → (same s s' ↔ x = y))
    (hp : Updates exec Has fs p) (hq : Updates exec Has [h] q) (hs : Has x s)
    (hrun : interleave exec es p q s = some (a, b, s')) :
    Serializable exec same p q s s' ↔
      let y := outcome fs h x (commandsBefore .right es 0) (commandsBefore .right es 1)
      y = h (applyAll fs x) ∨ y = applyAll fs (h x) := by
  have hs' := interleave_updates hp hq hs hrun
  constructor
  · rintro ⟨t, ⟨a₁, b₁, s₁, hrun₁, hrun₂⟩ | ⟨b₁, a₁, s₁, hrun₁, hrun₂⟩, heq⟩
    · exact .inl ((hsame hs' (hq.run (hp.run hs hrun₁) hrun₂)).mp heq)
    · exact .inr ((hsame hs' (hp.run (hq.run hs hrun₁) hrun₂)).mp heq)
  · rintro (heq | heq)
    · obtain ⟨a₁, s₁, hrun₁, hs₁⟩ := hp.exists_run hs
      obtain ⟨b₁, t, hrun₂, ht⟩ := hq.exists_run hs₁
      exact ⟨t, .inl ⟨a₁, b₁, s₁, hrun₁, hrun₂⟩, (hsame hs' ht).mpr heq⟩
    · obtain ⟨b₁, s₁, hrun₁, hs₁⟩ := hq.exists_run hs
      obtain ⟨a₁, t, hrun₂, ht⟩ := hp.exists_run hs₁
      exact ⟨t, .inr ⟨b₁, a₁, s₁, hrun₁, hrun₂⟩, (hsame hs' ht).mpr heq⟩

end updates

end Prog
