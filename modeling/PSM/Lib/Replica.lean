import Mathlib.Data.Set.Basic

/-! A replica of a set that is kept up to date by messages.

The source is a set of items; the replica is to hold what a reading makes of them. The messages are
updates: some elements to add, or one to remove. `Follows` relates the source and the replica as it
will be when all messages have arrived: it never holds more than the source, and once the source has
been sent as a whole it holds the same. Adding an item keeps this; removing one keeps it exactly
when no other item has the same reading. -/

namespace Replica

variable {τ κ : Type*}

inductive Update (κ : Type*) where
  | keep
  | add (xs : List κ)
  | remove (x : κ)

def Update.apply : Update κ → Set κ → Set κ
  | keep, V => V
  | add xs, V => V ∪ {x | x ∈ xs}
  | remove x, V => V \ {x}

/-- What a replica becomes when the updates arrive in order. -/
def replay (us : List (Update κ)) (V : Set κ) : Set κ := us.foldl (fun V u => u.apply V) V

@[simp] theorem replay_nil (V : Set κ) : replay [] V = V := rfl

@[simp] theorem replay_cons (u : Update κ) (us : List (Update κ)) (V : Set κ) :
    replay (u :: us) V = replay us (u.apply V) := rfl

@[simp] theorem Update.apply_add_singleton (x : κ) (V : Set κ) :
    (Update.add [x]).apply V = V ∪ {x} := by
  simp only [Update.apply, List.mem_singleton]
  rfl

theorem replay_append (us us' : List (Update κ)) (V : Set κ) :
    replay (us ++ us') V = replay us' (replay us V) := List.foldl_append

/-- The readings of the items; an item may have none. -/
def readings (read : τ → Option κ) (S : Set τ) : Set κ := {x | ∃ v ∈ S, read v = some x}

structure Follows (read : τ → Option κ) (S : Set τ) (answered : Prop) (V : Set κ) : Prop where
  sub : V ⊆ readings read S
  sup : answered → readings read S ⊆ V

section
variable {read : τ → Option κ} {S S' : Set τ} {answered : Prop} {V : Set κ} {v : τ} {x : κ}

theorem Follows.eq (h : Follows read S answered V) (ha : answered) : V = readings read S :=
  h.sub.antisymm (h.sup ha)

theorem Follows.imp {answered' : Prop} (h : Follows read S answered V)
    (ha : answered' → answered) : Follows read S answered' V := ⟨h.sub, fun h' => h.sup (ha h')⟩

/-- Nothing is promised before the first answer but that the replica has not too much. -/
theorem follows_empty (h : ¬answered) : Follows read S answered ∅ :=
  ⟨Set.empty_subset _, fun ha => absurd ha h⟩

theorem Follows.add (h : Follows read S answered V) (hv : read v = some x) :
    Follows read (insert v S) answered (V ∪ {x}) where
  sub := by
    rintro y (hy | rfl)
    · obtain ⟨w, hw, hread⟩ := h.sub hy
      exact ⟨w, .inr hw, hread⟩
    · exact ⟨v, .inl rfl, hv⟩
  sup ha := by
    rintro y ⟨w, rfl | hw, hread⟩
    · exact .inr (Option.some.inj (hread.symm.trans hv))
    · exact .inl (h.sup ha ⟨w, hw, hread⟩)

/-- The source is sent as a whole. -/
theorem Follows.answer (h : Follows read S answered V) {xs : List κ}
    (hxs : ∀ x, x ∈ xs ↔ x ∈ readings read S) : Follows read S True (V ∪ {x | x ∈ xs}) where
  sub := Set.union_subset h.sub fun x hx => (hxs x).mp hx
  sup _ x hx := .inr ((hxs x).mpr hx)

/-- An empty source is filled, and what it is filled with is sent. -/
theorem Follows.fill (h : Follows read S answered V) (hS : S = ∅) {xs : List κ}
    (hxs : ∀ x, x ∈ xs ↔ x ∈ readings read S') : Follows read S' True (V ∪ {x | x ∈ xs}) where
  sub := Set.union_subset (fun x hx => by
    obtain ⟨w, hw, -⟩ := h.sub hx
    exact absurd hw (hS ▸ Set.notMem_empty w)) fun x hx => (hxs x).mp hx
  sup _ x hx := .inr ((hxs x).mpr hx)

/-- A replica from which all readings of the removed items are taken stays within the source. -/
theorem sdiff_subset_readings {R : Set κ} (h : V ⊆ readings read S)
    (hgone : ∀ v ∈ S, v ∉ S' → ∃ x ∈ R, read v = some x) : V \ R ⊆ readings read S' := by
  rintro y ⟨hy, hR⟩
  obtain ⟨w, hw, hread⟩ := h hy
  refine ⟨w, ?_, hread⟩
  by_contra hw'
  obtain ⟨x, hx, hread'⟩ := hgone w hw hw'
  exact hR (Option.some.inj (hread.symm.trans hread') ▸ hx)

/-- With readings that determine the item, removing one keeps the replica up to date. -/
theorem Follows.remove (h : Follows read S answered V) (hv : read v = some x)
    (hinj : ∀ w ∈ S, read w = some x → w = v) :
    Follows read (S \ {v}) answered (V \ {x}) where
  sub := by
    refine sdiff_subset_readings h.sub fun w hw hw' => ⟨x, rfl, ?_⟩
    rw [show w = v from not_not.mp fun hne => hw' ⟨hw, hne⟩, hv]
  sup ha := by
    rintro y ⟨w, ⟨hw, hne⟩, hread⟩
    refine ⟨h.sup ha ⟨w, hw, hread⟩, ?_⟩
    rintro rfl
    exact hne (hinj w hw hread)

/-- Several items are removed from the source, and their readings from a replica that held the same:
they still agree exactly when no item that is left has one of these readings. -/
theorem sdiff_eq_readings_iff {R : Set κ} (hV : V = readings read S) (hsub : S' ⊆ S)
    (hgone : ∀ v ∈ S, v ∉ S' → ∃ x ∈ R, read v = some x) :
    V \ R = readings read S' ↔ ∀ v ∈ S', ∀ x, read v = some x → x ∉ R := by
  constructor
  · intro h v hv x hread
    exact (h.symm ▸ ⟨v, hv, hread⟩ : x ∈ V \ R).2
  · intro h
    refine (sdiff_subset_readings hV.subset hgone).antisymm ?_
    rintro y ⟨w, hw, hread⟩
    exact ⟨hV ▸ ⟨w, hsub hw, hread⟩, h w hw y hread⟩

end

end Replica
