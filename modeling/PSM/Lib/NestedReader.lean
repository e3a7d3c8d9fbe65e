import Mathlib.Data.List.Basic

/-! Reading nested values, symbol by symbol.

A scanner reads one value that is no list, and says when a list of known length begins. Lists may
contain lists, so the reader keeps a frame for each list that is not complete, the innermost first.
Nothing else is kept between two symbols, so a stream can be read piece by piece
(`NestedReader.read_append`), and what is read inside a list does not depend on what is around it
(`NestedReader.read_frames`). -/

/-- What one more symbol leads to. -/
inductive Scanned (σ ρ : Type) where
  | more (s : σ)
  | value (r : ρ)
  /-- A list begins. It has this many values after its first one. -/
  | list (after : Nat)
  | error

structure NestedReader (β σ ρ : Type) where
  start : σ
  scan : σ → β → Scanned σ ρ
  list : List ρ → ρ

namespace NestedReader

/-- A list that is not complete: the values it has already, and how many come after the one that
is being read. -/
structure Frame (ρ : Type) where
  after : Nat
  values : List ρ

inductive Outcome (σ ρ : Type) where
  | more (s : σ) (frames : List (Frame ρ))
  | done (r : ρ)
  | error

variable {β σ ρ : Type} (R : NestedReader β σ ρ)

/-- A value for the innermost list. -/
def give (r : ρ) : List (Frame ρ) → Outcome σ ρ
  | [] => .done r
  | ⟨0, values⟩ :: frames => give (R.list (values ++ [r])) frames
  | ⟨after + 1, values⟩ :: frames => .more R.start (⟨after, values ++ [r]⟩ :: frames)

def outcome (frames : List (Frame ρ)) : Scanned σ ρ → Outcome σ ρ
  | .more s => .more s frames
  | .value r => R.give r frames
  | .list after => .more R.start (⟨after, []⟩ :: frames)
  | .error => .error

def step (s : σ) (frames : List (Frame ρ)) (b : β) : Outcome σ ρ := R.outcome frames (R.scan s b)

/-- Reads until the value is complete. What it has not read is the rest. -/
def read (s : σ) (frames : List (Frame ρ)) : List β → Outcome σ ρ × List β
  | [] => (.more s frames, [])
  | b :: bs =>
    match R.step s frames b with
    | .more s' frames' => read s' frames' bs
    | .done r => (.done r, bs)
    | .error => (.error, bs)

/-- Goes on with what comes next. -/
def resume (o : Outcome σ ρ) (bs : List β) : Outcome σ ρ × List β :=
  match o with
  | .more s frames => R.read s frames bs
  | .done r => (.done r, bs)
  | .error => (.error, bs)

/-- The outcome inside more lists. -/
def Outcome.within (o : Outcome σ ρ) (frames : List (Frame ρ)) : Outcome σ ρ :=
  match o with
  | .more s inner => .more s (inner ++ frames)
  | .done r => R.give r frames
  | .error => .error

variable {R} {s : σ} {r : ρ} {frames frames' : List (Frame ρ)} {b : β} {xs ys : List β}

@[simp] theorem read_nil : R.read s frames [] = (.more s frames, []) := rfl

theorem read_cons : R.read s frames (b :: xs) = R.resume (R.step s frames b) xs := by
  rw [read]
  cases R.step s frames b <;> rfl

/-! ## Piece by piece -/

theorem read_append :
    R.read s frames (xs ++ ys) =
      R.resume (R.read s frames xs).1 ((R.read s frames xs).2 ++ ys) := by
  induction xs generalizing s frames with
  | nil => rfl
  | cons b xs ih =>
    rw [List.cons_append, read_cons, read_cons]
    cases R.step s frames b with
    | more s' frames' => exact ih
    | done r => rfl
    | error => rfl

/-- What is read comes first, and all of it is read unless the value ends. -/
theorem exists_read : ∃ zs, xs = zs ++ (R.read s frames xs).2 := by
  induction xs generalizing s frames with
  | nil => exact ⟨[], rfl⟩
  | cons b xs ih =>
    rw [read_cons]
    cases R.step s frames b with
    | more s' frames' =>
      obtain ⟨zs, hzs⟩ := @ih s' frames'
      exact ⟨b :: zs, congrArg (b :: ·) hzs⟩
    | done r => exact ⟨[b], rfl⟩
    | error => exact ⟨[b], rfl⟩

theorem rest_of_more {s' : σ} (h : (R.read s frames xs).1 = .more s' frames') :
    (R.read s frames xs).2 = [] := by
  induction xs generalizing s frames with
  | nil => rfl
  | cons b xs ih =>
    rw [read_cons] at h ⊢
    cases hstep : R.step s frames b with
    | more s'' frames'' =>
      rw [hstep] at h
      exact ih h
    | done r =>
      rw [hstep] at h
      cases h
    | error =>
      rw [hstep] at h
      cases h

/-- A complete value has a symbol at least. -/
theorem length_rest_lt (h : (R.read s frames xs).1 = .done r) :
    (R.read s frames xs).2.length < xs.length := by
  cases xs with
  | nil => cases h
  | cons b xs =>
    rw [read_cons] at h ⊢
    cases hstep : R.step s frames b with
    | more s' frames' =>
      obtain ⟨zs, hzs⟩ := @exists_read _ _ _ R s' frames' xs
      have := congrArg List.length hzs
      rw [List.length_append] at this
      exact Nat.lt_succ_of_le (by rw [this]; exact Nat.le_add_left ..)
    | done r => exact Nat.lt_succ_self _
    | error => exact Nat.lt_succ_self _

/-! ## Inside a list -/

theorem give_append : R.give r (frames ++ frames') = (R.give r frames).within R frames' := by
  induction frames generalizing r with
  | nil => rfl
  | cons frame frames ih =>
    obtain ⟨after, values⟩ := frame
    cases after with
    | zero => exact ih
    | succ after => rfl

theorem step_append : R.step s (frames ++ frames') b = (R.step s frames b).within R frames' := by
  rw [step, step]
  cases R.scan s b with
  | more s' => rfl
  | value r => exact give_append
  | list after => rfl
  | error => rfl

/-- The lists around it see no more than the value that has been read. -/
theorem read_frames : R.read s (frames ++ frames') xs =
    R.resume ((R.read s frames xs).1.within R frames') (R.read s frames xs).2 := by
  induction xs generalizing s frames with
  | nil => rfl
  | cons b xs ih =>
    rw [read_cons, read_cons, step_append]
    cases R.step s frames b with
    | more s' frames'' => exact ih
    | done r => rfl
    | error => rfl

/-! ## Texts of values -/

/-- The text is one of the value, whatever comes after it. -/
def IsText (R : NestedReader β σ ρ) (xs : List β) (r : ρ) : Prop :=
  ∀ ys, R.read R.start [] (xs ++ ys) = (.done r, ys)

theorem IsText.read_frames (h : R.IsText xs r) :
    R.read R.start frames (xs ++ ys) = R.resume (R.give r frames) ys := by
  rw [← List.nil_append frames, NestedReader.read_frames, h ys]
  rfl

/-- The values of a list, one after the other. -/
theorem read_elements {texts : List (List β)} {values before : List ρ} {after : Nat}
    (h : List.Forall₂ R.IsText texts values) (hlen : texts.length = after + 1) :
    R.read R.start (⟨after, before⟩ :: frames) (texts.flatten ++ ys) =
      R.resume (R.give (R.list (before ++ values)) frames) ys := by
  induction h generalizing before after with
  | nil => cases hlen
  | cons htext htexts ih =>
    rw [List.flatten_cons, List.append_assoc, htext.read_frames]
    cases after with
    | zero =>
      obtain rfl := List.length_eq_zero_iff.mp (Nat.succ.inj hlen)
      cases htexts
      rfl
    | succ after =>
      refine (ih (Nat.succ.inj hlen)).trans ?_
      rw [List.append_assoc, List.singleton_append]

/-- A header and the values that it announces. -/
theorem isText_list {header : List β} {texts : List (List β)} {values : List ρ} {after : Nat}
    (hheader : ∀ ys, R.read R.start [] (header ++ ys) = R.read R.start [⟨after, []⟩] ys)
    (h : List.Forall₂ R.IsText texts values) (hlen : texts.length = after + 1) :
    R.IsText (header ++ texts.flatten) (R.list values) := by
  intro ys
  rw [List.append_assoc, hheader, read_elements h hlen]
  rfl

end NestedReader
