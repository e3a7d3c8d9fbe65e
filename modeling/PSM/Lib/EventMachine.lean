import Mathlib.Data.List.Induction
import Mathlib.Logic.Relation

/-! Machines driven by events, and their runs.

A machine takes one step for each event. The step is a partial function: an event that is not
enabled in a state, or that the modelled program cannot survive there, has no successor. A run is
a list of events. Properties of runs are obtained from one-step properties by the induction rules
below; `Meets` says that each step of a run meets a condition on the state before it. -/

structure EventMachine (σ : Type u) (ε : Type v) where
  step : σ → ε → Option σ

namespace EventMachine

variable {σ : Type u} {ε : Type v} (M : EventMachine σ ε)

/-- The state after a run, if every event of it is enabled in turn. -/
def run : σ → List ε → Option σ
  | s, [] => some s
  | s, e :: es => (M.step s e).bind fun s' => run s' es

/-- Every step of the run meets the condition `C` in the state it starts from. -/
def Meets (C : σ → ε → Prop) : σ → List ε → Prop
  | _, [] => True
  | s, e :: es => C s e ∧ ∀ s', M.step s e = some s' → Meets C s' es

/-- `P` holds in every state of the run. -/
def Always (P : σ → Prop) : σ → List ε → Prop
  | s, [] => P s
  | s, e :: es => P s ∧ ∀ s', M.step s e = some s' → Always P s' es

instance decidableMeets (C : σ → ε → Prop) [∀ s e, Decidable (C s e)] :
    ∀ s es, Decidable (M.Meets C s es)
  | _, [] => isTrue trivial
  | s, e :: es =>
    match h : M.step s e with
    | none => decidable_of_iff (C s e) ⟨fun hC => ⟨hC, fun s' hs' => by rw [h] at hs'; cases hs'⟩,
        fun hC => hC.1⟩
    | some s' =>
      have := decidableMeets C s' es
      decidable_of_iff (C s e ∧ Meets M C s' es) (by simp [Meets, h])

/-- What the steps of a run yield, in order. -/
def collect (f : σ → ε → List α) : σ → List ε → List α
  | _, [] => []
  | s, e :: es => f s e ++ (M.step s e).elim [] fun s' => collect f s' es

/-- The machine gets from one state to another when `next` chooses each event. -/
def Follows (next : σ → ε) : σ → σ → Prop :=
  Relation.ReflTransGen fun s s' => M.step s (next s) = some s'

variable {M} {C : σ → ε → Prop} {s s' s'' : σ} {e : ε} {es fs : List ε}

@[simp] theorem run_nil : M.run s [] = some s := rfl

@[simp] theorem run_cons : M.run s (e :: es) = (M.step s e).bind (M.run · es) := rfl

theorem run_append : M.run s (es ++ fs) = (M.run s es).bind (M.run · fs) := by
  induction es generalizing s with
  | nil => rfl
  | cons e es ih =>
    simp only [List.cons_append, run_cons, Option.bind_assoc]
    exact congrArg _ (funext fun _ => ih)

/-- A run that ends with the event `e` is a run followed by one step. -/
theorem run_concat_iff :
    M.run s (es ++ [e]) = some s'' ↔ ∃ s', M.run s es = some s' ∧ M.step s' e = some s'' := by
  rw [run_append, Option.bind_eq_some_iff]
  simp

@[simp] theorem meets_nil : M.Meets C s [] := trivial

theorem meets_concat_iff (h : M.run s es = some s') :
    M.Meets C s (es ++ [e]) ↔ M.Meets C s es ∧ C s' e := by
  induction es generalizing s with
  | nil => cases h; simp [Meets]
  | cons f es ih =>
    rw [run_cons, Option.bind_eq_some_iff] at h
    obtain ⟨t, hstep, hrun⟩ := h
    simp [Meets, hstep, ih hrun, and_assoc]

/-- A condition on the events alone. -/
theorem meets_const_iff {D : ε → Prop} (h : M.run s es = some s') :
    M.Meets (fun _ => D) s es ↔ ∀ e ∈ es, D e := by
  induction es generalizing s with
  | nil => simp
  | cons e es ih =>
    rw [run_cons, Option.bind_eq_some_iff] at h
    obtain ⟨t, hstep, hrun⟩ := h
    simp [Meets, hstep, ih hrun]

theorem meets_of_forall (h : ∀ s e, C s e) : M.Meets C s es := by
  induction es generalizing s with
  | nil => trivial
  | cons e es ih => exact ⟨h s e, fun _ _ => ih⟩

theorem Meets.of_append (h : M.Meets C s (es ++ fs)) : M.Meets C s es := by
  induction es generalizing s with
  | nil => trivial
  | cons e es ih => exact ⟨h.1, fun s' hstep => ih (h.2 s' hstep)⟩

/-- Conditions that an invariant makes equivalent are met by the same runs. -/
theorem meets_congr {D : σ → ε → Prop} {J : σ → Prop}
    (inv : ∀ {s e s'}, J s → M.step s e = some s' → J s') (h : ∀ {s e}, J s → (C s e ↔ D s e))
    (hJ : J s) : M.Meets C s es ↔ M.Meets D s es := by
  induction es generalizing s with
  | nil => exact .rfl
  | cons e es ih => exact and_congr (h hJ) (forall₂_congr fun s' hstep => ih (inv hJ hstep))

/-- The same for the conditions that are equivalent where a step is taken. -/
theorem meets_congr_of_run {D : σ → ε → Prop} {J : σ → Prop}
    (inv : ∀ {s e s'}, J s → M.step s e = some s' → J s')
    (h : ∀ {s e s'}, J s → M.step s e = some s' → (C s e ↔ D s e))
    (hJ : J s) (hrun : M.run s es = some s') : M.Meets C s es ↔ M.Meets D s es := by
  induction es generalizing s with
  | nil => exact .rfl
  | cons e es ih =>
    rw [run_cons, Option.bind_eq_some_iff] at hrun
    obtain ⟨t, hstep, hrun⟩ := hrun
    simp only [Meets, hstep, Option.some.injEq, forall_eq']
    exact and_congr (h hJ hstep) (ih (inv hJ hstep) hrun)

/-- Conditions that are equivalent as long as one of them has been met. -/
theorem meets_congr_of_keeps {D : σ → ε → Prop} {J : σ → Prop}
    (inv : ∀ {s e s'}, J s → C s e → M.step s e = some s' → J s')
    (h : ∀ {s e}, J s → (D s e ↔ C s e)) (hJ : J s) : M.Meets D s es ↔ M.Meets C s es := by
  induction es generalizing s with
  | nil => exact .rfl
  | cons e es ih =>
    constructor
    · intro ⟨hD, hrest⟩
      have hC := (h hJ).mp hD
      exact ⟨hC, fun s' hstep => (ih (inv hJ hC hstep)).mp (hrest s' hstep)⟩
    · intro ⟨hC, hrest⟩
      exact ⟨(h hJ).mpr hC, fun s' hstep => (ih (inv hJ hC hstep)).mpr (hrest s' hstep)⟩

/-- Induction along a run, for properties of the state and of the events that led to it. -/
theorem run_induction {P : List ε → σ → Prop} (start : P [] s)
    (next : ∀ es e s' s'', M.run s es = some s' → P es s' → M.step s' e = some s'' →
      P (es ++ [e]) s'') (h : M.run s es = some s') : P es s' := by
  induction es using List.reverseRecOn generalizing s' with
  | nil => cases h; exact start
  | append_singleton es e ih =>
    obtain ⟨t, hrun, hstep⟩ := run_concat_iff.mp h
    exact next es e t s' hrun (ih hrun) hstep

/-- What every step preserves holds in every state of a run that starts with it. -/
theorem run_invariant {I : σ → Prop} (next : ∀ {s e s'}, I s → M.step s e = some s' → I s')
    (hs : I s) (h : M.run s es = some s') : I s' :=
  run_induction (P := fun _ s => I s) hs (fun _ _ _ _ _ hI hstep => next hI hstep) h

/-- What a conditioned step can rely on, along with an invariant that such steps keep. -/
theorem Meets.imp {D : σ → ε → Prop} {I : σ → Prop}
    (next : ∀ {s e s'}, I s → C s e → M.step s e = some s' → I s')
    (himp : ∀ {s e}, I s → C s e → D s e) (hs : I s) (h : M.Meets C s es) : M.Meets D s es := by
  induction es generalizing s with
  | nil => trivial
  | cons e es ih => exact ⟨himp hs h.1, fun s' hstep => ih (next hs h.1 hstep) (h.2 s' hstep)⟩

/-- An invariant of the conditioned steps holds in every state of a run of them. -/
theorem Meets.always {I P : σ → Prop}
    (next : ∀ {s e s'}, I s → C s e → M.step s e = some s' → I s') (himp : ∀ {s}, I s → P s)
    (hs : I s) (h : M.Meets C s es) : M.Always P s es := by
  induction es generalizing s with
  | nil => exact himp hs
  | cons e es ih => exact ⟨himp hs, fun s' hstep => ih (next hs h.1 hstep) (h.2 s' hstep)⟩

/-- A property that the conditioned steps keep, and that every other step breaks for good,
characterises the runs whose steps all meet the condition. The steps may rely on an invariant `J`
that holds anyway. -/
theorem run_iff_meets {I J : σ → Prop} (inv : ∀ {s e s'}, M.step s e = some s' → J s → J s')
    (keep : ∀ {s e s'}, M.step s e = some s' → J s → C s e → I s → I s')
    (lose : ∀ {s e s'}, M.step s e = some s' → J s → ¬C s e → I s → ¬I s')
    (lost : ∀ {s e s'}, M.step s e = some s' → J s → ¬I s → ¬I s')
    (hJ : J s) (hs : I s) (h : M.run s es = some s') : I s' ↔ M.Meets C s es := by
  refine (run_induction (P := fun es s' => J s' ∧ (I s' ↔ M.Meets C s es)) ⟨hJ, by simp [hs]⟩ ?_
    h).2
  intro es e t t' hrun ⟨hJt, ih⟩ hstep
  refine ⟨inv hstep hJt, ?_⟩
  rw [meets_concat_iff hrun, ← ih]
  constructor
  · intro hI
    have ht : I t := by_contra fun ht => lost hstep hJt ht hI
    exact ⟨ht, by_contra fun hC => lose hstep hJt hC ht hI⟩
  · exact fun ⟨ht, hC⟩ => keep hstep hJt hC ht

theorem Follows.head {next : σ → ε} (hstep : M.step s (next s) = some s')
    (h : M.Follows next s' s'') : M.Follows next s s'' :=
  Relation.ReflTransGen.head hstep h

theorem Follows.trans {next : σ → ε} (h : M.Follows next s s') (h' : M.Follows next s' s'') :
    M.Follows next s s'' :=
  Relation.ReflTransGen.trans h h'

theorem Follows.refl {next : σ → ε} : M.Follows next s s := Relation.ReflTransGen.refl

theorem follows_iff_run {next : σ → ε} : M.Follows next s s' ↔
    ∃ es, M.run s es = some s' ∧ M.Meets (fun s e => e = next s) s es := by
  constructor
  · intro h
    induction h with
    | refl => exact ⟨[], rfl, trivial⟩
    | tail _ hstep ih =>
      obtain ⟨es, hrun, hmeets⟩ := ih
      exact ⟨es ++ [_], run_concat_iff.mpr ⟨_, hrun, hstep⟩,
        (meets_concat_iff hrun).mpr ⟨hmeets, rfl⟩⟩
  · intro ⟨es, hrun, hmeets⟩
    induction es generalizing s with
    | nil =>
      cases hrun
      exact .refl
    | cons e es ih =>
      rw [run_cons, Option.bind_eq_some_iff] at hrun
      obtain ⟨t, hstep, hrun⟩ := hrun
      have hnext : e = next s := hmeets.1
      exact .head (hnext ▸ hstep) (ih hrun (hmeets.2 t hstep))

/-- What the chosen steps preserve holds in every state that they lead to. -/
theorem Follows.invariant {next : σ → ε} {I : σ → Prop}
    (inv : ∀ {s s'}, I s → M.step s (next s) = some s' → I s') (hs : I s)
    (h : M.Follows next s s') : I s' := by
  induction h with
  | refl => exact hs
  | tail _ hstep ih => exact inv ih hstep

/-- What the conditioned steps leave alone is the same after a run of them. -/
theorem Meets.run_view (view : σ → β)
    (next : ∀ {s e s'}, C s e → M.step s e = some s' → view s' = view s) (h : M.Meets C s es)
    (hrun : M.run s es = some s') : view s' = view s := by
  induction es generalizing s with
  | nil => cases hrun; rfl
  | cons e es ih =>
    rw [run_cons, Option.bind_eq_some_iff] at hrun
    obtain ⟨t, hstep, hrun⟩ := hrun
    exact (ih (h.2 t hstep) hrun).trans (next h.1 hstep)

theorem Always.first {P : σ → Prop} (h : M.Always P s es) : P s := by
  cases es <;> [exact h; exact h.1]

theorem Always.imp {P Q : σ → Prop} (himp : ∀ s, P s → Q s) (h : M.Always P s es) :
    M.Always Q s es := by
  induction es generalizing s with
  | nil => exact himp s h
  | cons e es ih => exact ⟨himp s h.1, fun s' hstep => ih (h.2 s' hstep)⟩

theorem Always.last {P : σ → Prop} (h : M.Always P s es) (hrun : M.run s es = some s') : P s' := by
  induction es generalizing s with
  | nil => cases hrun; exact h
  | cons e es ih =>
    rw [run_cons, Option.bind_eq_some_iff] at hrun
    obtain ⟨t, hstep, hrun⟩ := hrun
    exact ih (h.2 t hstep) hrun

/-- What a conditioned step can rely on, where a property holds throughout. -/
theorem Always.meets_imp {P : σ → Prop} {D : σ → ε → Prop} (himp : ∀ {s e}, P s → C s e → D s e)
    (hP : M.Always P s es) (h : M.Meets C s es) : M.Meets D s es := by
  induction es generalizing s with
  | nil => trivial
  | cons e es ih =>
    exact ⟨himp hP.1 h.1, fun s' hstep => ih (hP.2 s' hstep) (h.2 s' hstep)⟩

/-- A property that a step keeps exactly when it meets a condition holds throughout the runs whose
steps all meet the condition, and no others. -/
theorem always_iff_meets {I J : σ → Prop} (inv : ∀ {s e s'}, M.step s e = some s' → J s → J s')
    (exact : ∀ {s e s'}, M.step s e = some s' → J s → I s → (I s' ↔ C s e))
    (hJ : J s) (hs : I s) (h : M.run s es = some s') : M.Always I s es ↔ M.Meets C s es := by
  induction es generalizing s with
  | nil => exact ⟨fun _ => trivial, fun _ => hs⟩
  | cons e es ih =>
    rw [run_cons, Option.bind_eq_some_iff] at h
    obtain ⟨t, hstep, hrun⟩ := h
    simp only [Always, Meets, hs, hstep, Option.some.injEq, forall_eq', true_and]
    constructor
    · intro halways
      have ht : I t := halways.first
      exact ⟨(exact hstep hJ hs).mp ht, (ih (inv hstep hJ) ht hrun).mp halways⟩
    · intro ⟨hC, hmeets⟩
      exact (ih (inv hstep hJ) ((exact hstep hJ hs).mpr hC) hrun).mpr hmeets

/-- A part of the state to which every step adds what it yields has, after a run, all of it. -/
theorem run_collect {f : σ → ε → List α} (view : σ → β) (add : β → List α → β)
    (hnil : ∀ b, add b [] = b) (happend : ∀ b xs ys, add b (xs ++ ys) = add (add b xs) ys)
    (hstep : ∀ {s e s'}, M.step s e = some s' → view s' = add (view s) (f s e))
    (h : M.run s es = some s') : view s' = add (view s) (M.collect f s es) := by
  induction es generalizing s with
  | nil => cases h; exact (hnil _).symm
  | cons e es ih =>
    rw [run_cons, Option.bind_eq_some_iff] at h
    obtain ⟨t, hs, hrun⟩ := h
    rw [collect, hs, Option.elim_some, happend, ← hstep hs]
    exact ih hrun

theorem collect_append {f : σ → ε → List α} (h : M.run s es = some s') :
    M.collect f s (es ++ fs) = M.collect f s es ++ M.collect f s' fs := by
  induction es generalizing s with
  | nil => cases h; rfl
  | cons e es ih =>
    rw [run_cons, Option.bind_eq_some_iff] at h
    obtain ⟨t, hstep, hrun⟩ := h
    rw [List.cons_append, collect, collect, hstep, Option.elim_some, Option.elim_some, ih hrun,
      List.append_assoc]

theorem collect_concat {f : σ → ε → List α} (h : M.run s es = some s') :
    M.collect f s (es ++ [e]) = M.collect f s es ++ f s' e := by
  rw [collect_append h, collect]
  cases M.step s' e <;> simp [collect]

/-- A run yields nothing exactly when none of its steps does. -/
theorem collect_eq_nil_iff {f : σ → ε → List α} (h : M.run s es = some s') :
    M.collect f s es = [] ↔ M.Meets (fun s e => f s e = []) s es := by
  induction es generalizing s with
  | nil => exact ⟨fun _ => trivial, fun _ => rfl⟩
  | cons e es ih =>
    rw [run_cons, Option.bind_eq_some_iff] at h
    obtain ⟨t, hstep, hrun⟩ := h
    simp only [collect, Meets, hstep, Option.elim_some, List.append_eq_nil_iff, Option.some.injEq,
      forall_eq', ih hrun]

/-- What holds of all that any step yields holds of what a run yields. -/
theorem forall_mem_collect {f : σ → ε → List α} {P : α → Prop} (h : ∀ s e, ∀ x ∈ f s e, P x)
    (s : σ) (es : List ε) : ∀ x ∈ M.collect f s es, P x := by
  induction es generalizing s with
  | nil => exact fun x hx => absurd hx List.not_mem_nil
  | cons e es ih =>
    intro x hx
    rcases List.mem_append.mp hx with hx | hx
    · exact h s e x hx
    · cases hstep : M.step s e with
      | none =>
        rw [hstep] at hx
        exact absurd hx List.not_mem_nil
      | some s' =>
        rw [hstep] at hx
        exact ih s' x hx

/-- A run whose steps are each matched by a run of another machine is matched by a run of it. -/
theorem Meets.run_simulation {N : EventMachine σ' ε'} {R : σ → σ' → Prop} (f : ε → List ε')
    (hstep : ∀ {s t e s'}, R s t → C s e → M.step s e = some s' →
      ∃ t', N.run t (f e) = some t' ∧ R s' t')
    {t : σ'} (h : M.Meets C s es) (hR : R s t) (hrun : M.run s es = some s') :
    ∃ t', N.run t (es.flatMap f) = some t' ∧ R s' t' := by
  induction es generalizing s t with
  | nil =>
    cases hrun
    exact ⟨t, rfl, hR⟩
  | cons e es ih =>
    rw [run_cons, Option.bind_eq_some_iff] at hrun
    obtain ⟨s₁, hs₁, hrun⟩ := hrun
    obtain ⟨t₁, ht₁, hR₁⟩ := hstep hR h.1 hs₁
    obtain ⟨t', ht', hR'⟩ := ih (h.2 s₁ hs₁) hR₁ hrun
    refine ⟨t', ?_, hR'⟩
    rw [List.flatMap_cons, run_append, ht₁]
    exact ht'

end EventMachine
