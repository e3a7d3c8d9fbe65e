import Mathlib.Data.List.Basic

/-! Lists mapped by functions that can fail. -/

section
variable {α : Type u} {β : Type v} {γ : Type w} {f : α → Option β} {xs : List α} {ys : List β}

theorem mapM_eq_some_iff : xs.mapM f = some ys ↔ xs.map f = ys.map some := by
  induction xs generalizing ys with
  | nil => cases ys <;> simp
  | cons x xs ih =>
    rw [List.mapM_cons, List.map_cons]
    cases f x with
    | none => cases ys <;> simp
    | some y => cases ys <;> simp [Option.bind_eq_some_iff, ih, and_comm]

theorem mapM_eq_some_map {g : α → β} (h : ∀ x ∈ xs, f x = some (g x)) :
    xs.mapM f = some (xs.map g) := by
  rw [mapM_eq_some_iff, List.map_map]
  exact List.map_congr_left h

theorem mapM_map_eq_some {g : β → Option γ} {f : α → β} {h : α → γ}
    (hg : ∀ x ∈ xs, g (f x) = some (h x)) : (xs.map f).mapM g = some (xs.map h) := by
  rw [List.mapM_map]
  exact mapM_eq_some_map hg

theorem length_of_mapM (h : xs.mapM f = some ys) : ys.length = xs.length := by
  have hlength := congrArg List.length (mapM_eq_some_iff.mp h)
  rw [List.length_map, List.length_map] at hlength
  exact hlength.symm

theorem mapM_eq_filterMap (h : xs.mapM f = some ys) : xs.filterMap f = ys := by
  have hid : xs.filterMap f = (xs.map f).filterMap id := by
    rw [List.filterMap_map]
    rfl
  rw [hid, mapM_eq_some_iff.mp h, List.filterMap_map]
  exact List.filterMap_some

/-- What is in the result comes from the list. -/
theorem exists_of_mem_mapM {y : β} (h : xs.mapM f = some ys) (hy : y ∈ ys) :
    ∃ x ∈ xs, f x = some y := by
  rw [← mapM_eq_filterMap h] at hy
  exact List.mem_filterMap.mp hy

/-- What is in the list has its image in the result. -/
theorem exists_mem_of_mapM {x : α} (h : xs.mapM f = some ys) (hx : x ∈ xs) :
    ∃ y, f x = some y ∧ y ∈ ys := by
  have hmem : f x ∈ ys.map some := by
    rw [← mapM_eq_some_iff.mp h]
    exact List.mem_map_of_mem hx
  obtain ⟨y, hy, heq⟩ := List.mem_map.mp hmem
  exact ⟨y, heq.symm, hy⟩

theorem isSome_mapM_iff : (xs.mapM f).isSome ↔ ∀ x ∈ xs, f x ≠ none := by
  induction xs with
  | nil => simp
  | cons x xs ih =>
    rw [List.mapM_cons, List.forall_mem_cons, ← ih]
    cases f x with
    | none => simp
    | some y => cases xs.mapM f <;> simp

theorem exists_mapM (h : ∀ x ∈ xs, f x ≠ none) : ∃ ys, xs.mapM f = some ys :=
  Option.isSome_iff_exists.mp (isSome_mapM_iff.mpr h)

end
