import Mathlib

/-! Length-prefixed frames.

A frame is a header of fixed size, from which the length of the payload can be read, followed by
that many elements. `FrameFormat.split` cuts a stream into its complete frames and the unfinished
rest; `FrameFormat.split_append` says that a stream can be cut piece by piece, keeping only the
rest between the pieces. -/

structure FrameFormat (α : Type u) where
  headerSize : Nat
  headerSize_pos : 0 < headerSize
  /-- The announced payload length. It is only read when the whole header is there. -/
  payloadLength : List α → Nat
  payloadLength_append : ∀ {xs : List α}, headerSize ≤ xs.length → ∀ ys,
    payloadLength (xs ++ ys) = payloadLength xs

namespace FrameFormat

variable {α : Type u} (F : FrameFormat α)

/-- How long a frame that begins with `xs` is known to be: at least a header, and a whole frame
once the header is there. -/
def needed (xs : List α) : Nat :=
  if xs.length < F.headerSize then F.headerSize else F.headerSize + F.payloadLength xs

theorem needed_pos (xs : List α) : 0 < F.needed xs := by
  have := F.headerSize_pos
  unfold needed
  split <;> omega

/-- The complete frames of a stream and the unfinished rest. -/
def split (xs : List α) : List (List α) × List α :=
  if F.needed xs ≤ xs.length then
    let tail := split (xs.drop (F.needed xs))
    (xs.take (F.needed xs) :: tail.1, tail.2)
  else ([], xs)
termination_by xs.length
decreasing_by
  have := F.needed_pos xs
  simp only [List.length_drop]
  omega

/-- A complete frame. -/
def IsFrame (f : List α) : Prop := f.length = F.headerSize + F.payloadLength f

/-- The payload lengths that the headers of a stream announce. -/
def announced (xs : List α) : List Nat :=
  (F.split xs).1.map F.payloadLength ++
    if F.headerSize ≤ (F.split xs).2.length then [F.payloadLength (F.split xs).2] else []

variable {F} {xs ys f : List α} {fs : List (List α)}

theorem needed_of_lt (h : xs.length < F.headerSize) : F.needed xs = F.headerSize := if_pos h

theorem needed_of_le (h : F.headerSize ≤ xs.length) :
    F.needed xs = F.headerSize + F.payloadLength xs := if_neg (by omega)

theorem needed_append (h : F.headerSize ≤ xs.length) (ys : List α) :
    F.needed (xs ++ ys) = F.needed xs := by
  rw [needed_of_le h, needed_of_le (by simp; omega), F.payloadLength_append h]

theorem headerSize_le_of_needed_le (h : F.needed xs ≤ xs.length) : F.headerSize ≤ xs.length := by
  by_contra hlt
  rw [needed_of_lt (by omega)] at h
  exact hlt h

theorem split_of_lt (h : xs.length < F.needed xs) : F.split xs = ([], xs) := by
  rw [split, if_neg (by omega)]

theorem split_of_le (h : F.needed xs ≤ xs.length) :
    F.split xs = (xs.take (F.needed xs) :: (F.split (xs.drop (F.needed xs))).1,
      (F.split (xs.drop (F.needed xs))).2) := by
  rw [split, if_pos h]

@[simp] theorem split_nil : F.split [] = ([], []) := split_of_lt (F.needed_pos [])

/-- What is left over is not a complete frame. -/
theorem rest_lt (xs : List α) : (F.split xs).2.length < F.needed (F.split xs).2 := by
  induction xs using FrameFormat.split.induct F with
  | case1 xs h ih => rw [split_of_le h]; exact ih
  | case2 xs h => rw [split_of_lt (by omega)]; simp only; omega

theorem split_append (xs ys : List α) :
    F.split (xs ++ ys) = ((F.split xs).1 ++ (F.split ((F.split xs).2 ++ ys)).1,
      (F.split ((F.split xs).2 ++ ys)).2) := by
  induction xs using FrameFormat.split.induct F with
  | case1 xs h ih =>
    have hhead := headerSize_le_of_needed_le h
    have hle : F.needed (xs ++ ys) ≤ (xs ++ ys).length := by
      rw [needed_append hhead]
      simp only [List.length_append]
      omega
    rw [split_of_le hle, needed_append hhead, List.take_append_of_le_length h,
      List.drop_append_of_le_length h, ih, split_of_le h]
    rfl
  | case2 xs h =>
    have hlt : xs.length < F.needed xs := by omega
    rw [split_of_lt hlt]
    rfl

/-- The first frame, and the stream after it. -/
theorem split_eq_cons (h : F.split xs = (f :: fs, rest)) :
    ∃ ys, xs = f ++ ys ∧ F.split ys = (fs, rest) := by
  by_cases hle : F.needed xs ≤ xs.length
  · rw [split_of_le hle, Prod.mk.injEq, List.cons.injEq] at h
    obtain ⟨⟨rfl, hfs⟩, hrest⟩ := h
    exact ⟨xs.drop (F.needed xs), (List.take_append_drop ..).symm, Prod.ext hfs hrest⟩
  · rw [split_of_lt (Nat.lt_of_not_le hle)] at h
    cases h

/-! ## Complete frames -/

theorem IsFrame.needed (h : F.IsFrame f) : F.needed f = f.length := by
  rw [needed_of_le (by rw [h]; omega), h]

theorem IsFrame.split_append (h : F.IsFrame f) (xs : List α) :
    F.split (f ++ xs) = (f :: (F.split xs).1, (F.split xs).2) := by
  have hn : F.needed (f ++ xs) = f.length := by
    rw [needed_append (by rw [h]; omega), h.needed]
  rw [split_of_le (by rw [hn]; simp), hn, List.take_left, List.drop_left]

/-- Cutting a concatenation of frames gives the frames back. -/
theorem split_flatten (h : ∀ f ∈ fs, F.IsFrame f) : F.split fs.flatten = (fs, []) := by
  induction fs with
  | nil => exact split_nil
  | cons f fs ih =>
    rw [List.flatten_cons, (h f (by simp)).split_append, ih fun g hg => h g (by simp [hg])]

theorem isFrame_of_mem_split (h : f ∈ (F.split xs).1) : F.IsFrame f := by
  induction xs using FrameFormat.split.induct F with
  | case1 xs hle ih =>
    rw [split_of_le hle] at h
    rcases List.mem_cons.mp h with rfl | h
    · have hhead := headerSize_le_of_needed_le hle
      have hn := needed_of_le hhead
      have hlen : (xs.take (F.needed xs)).length = F.needed xs := by simp [hle]
      have hcut : F.headerSize ≤ (xs.take (F.needed xs)).length := by omega
      have hp := F.payloadLength_append hcut (xs.drop (F.needed xs))
      rw [List.take_append_drop] at hp
      rw [IsFrame, hlen, hn, ← hn, ← hp]
      exact hn
    · exact ih h
  | case2 xs hle =>
    have hlt : xs.length < F.needed xs := by omega
    simp [split_of_lt hlt] at h

/-! ## Growing an unfinished frame -/

theorem isFrame_of_needed (h : F.needed xs = xs.length) : F.IsFrame xs := by
  rw [IsFrame, ← needed_of_le (headerSize_le_of_needed_le h.le), h]

/-- An unfinished frame that grows, but not past what it needs, is at most complete. -/
theorem needed_grow (h : (xs ++ ys).length ≤ F.needed xs)
    (hle : F.needed (xs ++ ys) ≤ (xs ++ ys).length) :
    F.needed (xs ++ ys) = (xs ++ ys).length := by
  have hhead : F.headerSize ≤ (xs ++ ys).length := headerSize_le_of_needed_le hle
  by_cases hx : F.headerSize ≤ xs.length
  · rw [needed_append hx] at hle ⊢
    omega
  · rw [needed_of_lt (by omega)] at h
    rw [needed_of_le hhead] at hle ⊢
    omega

theorem split_grow (h : (xs ++ ys).length ≤ F.needed xs) :
    F.split (xs ++ ys) =
      if (xs ++ ys).length < F.needed (xs ++ ys) then ([], xs ++ ys) else ([xs ++ ys], []) := by
  split
  · rename_i hlt
    exact split_of_lt hlt
  · rename_i hle
    have hn := needed_grow h (Nat.le_of_not_lt hle)
    rw [split_of_le hn.le, hn]
    simp

/-! ## Announced lengths -/

theorem announced_append (xs ys : List α) :
    F.announced (xs ++ ys) =
      (F.split xs).1.map F.payloadLength ++ F.announced ((F.split xs).2 ++ ys) := by
  simp only [announced, split_append xs ys, List.map_append, List.append_assoc]

theorem announced_of_lt (h : xs.length < F.needed xs) :
    F.announced xs = if F.headerSize ≤ xs.length then [F.payloadLength xs] else [] := by
  simp [announced, split_of_lt h]

/-- A longer stream announces at least the same lengths. -/
theorem announced_subset_append (xs ys : List α) : F.announced xs ⊆ F.announced (xs ++ ys) := by
  rw [announced_append]
  refine List.append_subset.mpr ⟨List.subset_append_left _ _, ?_⟩
  split
  · rename_i hhead
    intro n hn
    cases List.mem_singleton.mp hn
    refine List.mem_append_right _ ?_
    have hp := F.payloadLength_append hhead ys
    generalize (F.split xs).2 = rest at hhead hp ⊢
    by_cases hle : F.needed (rest ++ ys) ≤ (rest ++ ys).length
    · have hlen : F.headerSize ≤ ((rest ++ ys).take (F.needed (rest ++ ys))).length := by
        rw [List.length_take, Nat.min_eq_left hle, needed_append hhead, needed_of_le hhead]
        omega
      have hcut := F.payloadLength_append hlen ((rest ++ ys).drop (F.needed (rest ++ ys)))
      rw [List.take_append_drop, hp] at hcut
      simp [announced, split_of_le hle, hcut]
    · rw [announced_of_lt (by omega), if_pos (by simp; omega), hp]
      simp
  · simp

end FrameFormat
