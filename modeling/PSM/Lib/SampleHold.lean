import Mathlib

/-! Samples of a value over time, thinned out and filled in again.

A list of samples, with increasing times, is thinned out by leaving out those whose value is that of
the last one kept (`changed`), and filled in by holding each value until the next sample, for a
limited time (`expand`). The last sample kept at or before a time has the value of the sample at
that time (`changed_latest`), and filling in gives exactly this value there (`filter_expand`). -/

namespace SampleHold

/-! ## Intervals -/

/-- The integers from `a` up to, and not including, `b`. -/
def range (a b : Int) : List Int := (List.range (b - a).toNat).map fun i : Nat => a + i

section
variable {a b c t : Int}

@[simp] theorem mem_range : t ∈ range a b ↔ a ≤ t ∧ t < b := by
  simp only [range, List.mem_map, List.mem_range]
  constructor
  · rintro ⟨i, hi, rfl⟩
    omega
  · rintro ⟨ha, hb⟩
    exact ⟨(t - a).toNat, by omega, by omega⟩

theorem nodup_range : (range a b).Nodup :=
  List.nodup_range.map fun _ _ h => Int.ofNat_inj.mp (Int.add_left_cancel h)

@[simp] theorem length_range : (range a b).length = (b - a).toNat := by
  rw [range, List.length_map, List.length_range]

theorem range_append (hab : a ≤ b) (hbc : b ≤ c) : range a b ++ range b c = range a c := by
  obtain ⟨m, rfl⟩ := Int.le.dest hab
  obtain ⟨n, rfl⟩ := Int.le.dest hbc
  have hm : (a + m - a).toNat = m := by omega
  have hn : (a + m + n - (a + m)).toNat = n := by omega
  have hmn : (a + m + n - a).toNat = m + n := by omega
  rw [range, range, range, hm, hn, hmn, List.range_add, List.map_append, List.map_map]
  refine congrArg _ (List.map_congr_left fun i _ => ?_)
  simp [Int.add_assoc]

end

/-! ## The last sample before a time -/

variable {α β : Type}

/-- The times of the samples increase. -/
def Increasing (xs : List (Int × α)) : Prop := xs.Pairwise fun x y => x.1 < y.1

instance (xs : List (Int × α)) : Decidable (Increasing xs) :=
  inferInstanceAs (Decidable (List.Pairwise _ _))

/-- The times of the samples do not decrease. -/
def OldestFirst (xs : List (Int × α)) : Prop := xs.Pairwise fun x y => x.1 ≤ y.1

/-- The times of the samples do not increase. -/
def NewestFirst (xs : List (Int × α)) : Prop := xs.Pairwise fun x y => y.1 ≤ x.1

instance (xs : List (Int × α)) : Decidable (NewestFirst xs) :=
  inferInstanceAs (Decidable (List.Pairwise _ _))

/-- The sample is the last one at or before the time. -/
structure IsLatest (xs : List (Int × α)) (t : Int) (x : Int × α) : Prop where
  mem : x ∈ xs
  le : x.1 ≤ t
  last : ∀ y ∈ xs, y.1 ≤ t → y.1 ≤ x.1

section
variable {xs : List (Int × α)} {t start : Int} {x y : Int × α}

theorem IsLatest.filter (h : IsLatest xs t x) (hstart : start ≤ x.1) :
    IsLatest (xs.filter (start ≤ ·.1)) t x where
  mem := List.mem_filter.mpr ⟨h.mem, decide_eq_true hstart⟩
  le := h.le
  last y hy := h.last y (List.mem_filter.mp hy).1

theorem IsLatest.map (h : IsLatest xs t x) (f : α → β) :
    IsLatest (xs.map fun x => (x.1, f x.2)) t (x.1, f x.2) where
  mem := List.mem_map_of_mem h.mem
  le := h.le
  last y hy hyt := by
    obtain ⟨z, hz, rfl⟩ := List.mem_map.mp hy
    exact h.last z hz hyt

/-- From the front, the samples from a time on come first. -/
theorem NewestFirst.takeWhile_eq_filter (hxs : NewestFirst xs) :
    xs.takeWhile (start ≤ ·.1) = xs.filter (start ≤ ·.1) := by
  induction xs with
  | nil => rfl
  | cons x xs ih =>
    obtain ⟨hx, hxs⟩ := List.pairwise_cons.mp hxs
    by_cases hstart : start ≤ x.1
    · rw [List.takeWhile_cons_of_pos (by simpa using hstart),
        List.filter_cons_of_pos (by simpa using hstart), ih hxs]
    · rw [List.takeWhile_cons_of_neg (by simpa using hstart),
        List.filter_cons_of_neg (by simpa using hstart), List.filter_eq_nil_iff.mpr]
      intro y hy hystart
      have := hx y hy
      have := of_decide_eq_true hystart
      omega

theorem Increasing.newestFirst_reverse (hxs : Increasing xs) : NewestFirst xs.reverse :=
  List.pairwise_reverse.mpr (hxs.imp Int.le_of_lt)

theorem Increasing.nodup_times (hxs : Increasing xs) : (xs.map Prod.fst).Nodup :=
  List.pairwise_map.mpr (hxs.imp Int.ne_of_lt)

theorem Increasing.oldestFirst (hxs : Increasing xs) : OldestFirst xs := hxs.imp Int.le_of_lt

theorem NewestFirst.oldestFirst_reverse (hxs : NewestFirst xs) : OldestFirst xs.reverse :=
  List.pairwise_reverse.mpr hxs

/-- There is no more than one sample for each time. -/
theorem length_filter_le {stop : Int} (hxs : Increasing xs) (hstop : ∀ x ∈ xs, x.1 < stop) :
    (xs.filter (start ≤ ·.1)).length ≤ (stop - start).toNat := by
  have hnodup : ((xs.filter (start ≤ ·.1)).map Prod.fst).Nodup :=
    Increasing.nodup_times (hxs.filter _)
  have hsubset : (xs.filter (start ≤ ·.1)).map Prod.fst ⊆ range start stop := by
    intro t ht
    obtain ⟨x, hx, rfl⟩ := List.mem_map.mp ht
    obtain ⟨hx, hstart⟩ := List.mem_filter.mp hx
    exact mem_range.mpr ⟨of_decide_eq_true hstart, hstop x hx⟩
  have := (hnodup.subperm hsubset).length_le
  rwa [List.length_map, length_range] at this

theorem IsLatest.cons (h : IsLatest xs t x) (hy : y.1 < x.1) : IsLatest (y :: xs) t x where
  mem := List.mem_cons_of_mem _ h.mem
  le := h.le
  last z hz hzt := by
    rcases List.mem_cons.mp hz with rfl | hz
    · exact Int.le_of_lt hy
    · exact h.last z hz hzt

end

/-! ## Thinning out -/

/-- The samples whose value is not the same as that of the last one kept, which is `cur` before. -/
def changed (same : α → α → Bool) (cur : α) : List (Int × α) → List (Int × α)
  | [] => []
  | x :: xs => if same cur x.2 then changed same cur xs else x :: changed same x.2 xs

section
variable {same : α → α → Bool} {cur : α} {xs : List (Int × α)} {x : Int × α}

theorem changed_sublist : (changed same cur xs).Sublist xs := by
  induction xs generalizing cur with
  | nil => exact .slnil
  | cons x xs ih =>
    unfold changed
    split
    · exact ih.cons x
    · exact ih.cons_cons x

/-- A sample is left out when its value is the one that was there before the first one kept, or that
of the last one kept. -/
theorem changed_latest (hxs : Increasing xs) (hsame : ∀ x ∈ xs, same x.2 x.2) (hx : x ∈ xs) :
    (same cur x.2 ∧ ∀ y ∈ changed same cur xs, x.1 < y.1) ∨
      ∃ y, IsLatest (changed same cur xs) x.1 y ∧ same y.2 x.2 := by
  induction xs generalizing cur with
  | nil => cases hx
  | cons z zs ih =>
    obtain ⟨hz, hzs⟩ := List.pairwise_cons.mp hxs
    have hlater : ∀ {cur}, ∀ y ∈ changed same cur zs, z.1 < y.1 :=
      fun y hy => hz y (changed_sublist.subset hy)
    have hsame' : ∀ x ∈ zs, same x.2 x.2 := fun x hx => hsame x (List.mem_cons_of_mem _ hx)
    unfold changed
    split
    · rename_i hcur
      rcases List.mem_cons.mp hx with rfl | hx
      · exact .inl ⟨hcur, hlater⟩
      · exact ih hzs hsame' hx
    · right
      rcases List.mem_cons.mp hx with rfl | hx
      · refine ⟨x, ⟨List.mem_cons_self, le_rfl, fun y hy hyx => ?_⟩, hsame x List.mem_cons_self⟩
        rcases List.mem_cons.mp hy with rfl | hy
        · exact le_rfl
        · exact absurd hyx (Int.not_le.mpr (hlater y hy))
      · rcases ih hzs hsame' hx with ⟨hzx, hnone⟩ | ⟨y, hy, hyx⟩
        · refine ⟨z, ⟨List.mem_cons_self, Int.le_of_lt (hz x hx), fun y hy hyx => ?_⟩, hzx⟩
          rcases List.mem_cons.mp hy with rfl | hy
          · exact le_rfl
          · exact absurd hyx (Int.not_le.mpr (hnone y hy))
        · exact ⟨y, hy.cons (hlater y hy.mem), hyx⟩

/-- Among the samples kept of several batches, the last one before a time of a batch is that of the
batch. -/
theorem IsLatest.flatMap {batches : List (List (Int × α))} {batch : List (Int × α)} {y : Int × α}
    (hall : Increasing batches.flatten) (hbatch : batch ∈ batches) (hx : x ∈ batch)
    (h : IsLatest (changed same cur batch) x.1 y) :
    IsLatest (batches.flatMap (changed same cur)) x.1 y where
  mem := List.mem_flatMap.mpr ⟨batch, hbatch, h.mem⟩
  le := h.le
  last z hz hzx := by
    obtain ⟨other, hother, hkept⟩ := List.mem_flatMap.mp hz
    have hy : y ∈ batch := changed_sublist.subset h.mem
    have hz' : z ∈ other := changed_sublist.subset hkept
    obtain ⟨-, hbetween⟩ := List.pairwise_flatten.mp hall
    obtain ⟨before, after, rfl⟩ := List.append_of_mem hbatch
    obtain ⟨-, hafter, hbefore⟩ := List.pairwise_append.mp hbetween
    rcases List.mem_append.mp hother with hother | hother
    · exact Int.le_of_lt (hbefore other hother batch List.mem_cons_self z hz' y hy)
    · rcases List.mem_cons.mp hother with rfl | hother
      · exact h.last z hkept hzx
      · have hlt := (List.pairwise_cons.mp hafter).1 other hother x hx z hz'
        omega

theorem increasing_flatMap_changed {batches : List (List (Int × α))}
    (h : Increasing batches.flatten) : Increasing (batches.flatMap (changed same cur)) := by
  refine List.Pairwise.sublist ?_ h
  induction batches with
  | nil => exact .slnil
  | cons batch batches ih =>
    rw [List.flatMap_cons, List.flatten_cons]
    exact changed_sublist.append (ih (List.pairwise_append.mp h).2.1)

end

/-! ## Filling in -/

/-- The value of a sample at each time before the next, as long as it is not older than the
limit. -/
def hold (limit : Int) (default : α) (x : Int × α) (next : Int) : List (Int × α) :=
  (range x.1 next).map fun t => (t, if t - x.1 ≤ limit then x.2 else default)

def expand (limit : Int) (default : α) (stop : Int) : List (Int × α) → List (Int × α)
  | [] => []
  | [x] => hold limit default x stop
  | x :: y :: xs => hold limit default x y.1 ++ expand limit default stop (y :: xs)

section
variable {limit stop t : Int} {default : α} {x : Int × α} {xs : List (Int × α)}

theorem times_hold {next : Int} :
    (hold limit default x next).map Prod.fst = range x.1 next := by
  rw [hold, List.map_map]
  exact List.map_id _

/-- The times are filled in without a gap. -/
theorem times_expand (hxs : OldestFirst (x :: xs)) (hstop : ∀ y ∈ x :: xs, y.1 ≤ stop) :
    (expand limit default stop (x :: xs)).map Prod.fst = range x.1 stop := by
  induction xs generalizing x with
  | nil => exact times_hold
  | cons y xs ih =>
    obtain ⟨hx, hys⟩ := List.pairwise_cons.mp hxs
    rw [expand, List.map_append, times_hold,
      ih hys fun z hz => hstop z (List.mem_cons_of_mem _ hz)]
    exact range_append (hx y List.mem_cons_self)
      (hstop y (List.mem_cons_of_mem _ List.mem_cons_self))

theorem nodup_times_expand (hxs : OldestFirst xs) (hstop : ∀ y ∈ xs, y.1 ≤ stop) :
    ((expand limit default stop xs).map Prod.fst).Nodup := by
  cases xs with
  | nil => exact List.nodup_nil
  | cons x xs =>
    rw [times_expand hxs hstop]
    exact nodup_range

/-- At a time that is not too far from the last sample before it, that sample's value is filled
in. -/
theorem mem_expand (hxs : Increasing xs) (h : IsLatest xs t x) (ht : t < stop)
    (hlimit : t - x.1 ≤ limit) : (t, x.2) ∈ expand limit default stop xs := by
  have hhold : ∀ {next}, t < next → (t, x.2) ∈ hold limit default x next := fun hnext =>
    List.mem_map.mpr ⟨t, mem_range.mpr ⟨h.le, hnext⟩, by rw [if_pos hlimit]⟩
  induction xs with
  | nil => cases h.mem
  | cons y xs ih =>
    obtain ⟨hy, hxs'⟩ := List.pairwise_cons.mp hxs
    cases xs with
    | nil =>
      obtain rfl := List.mem_singleton.mp h.mem
      exact hhold ht
    | cons z xs =>
      rw [expand, List.mem_append]
      rcases List.mem_cons.mp h.mem with rfl | hx
      · refine .inl (hhold ?_)
        by_contra hzt
        have := h.last z (List.mem_cons_of_mem _ List.mem_cons_self) (Int.not_lt.mp hzt)
        have := hy z List.mem_cons_self
        omega
      · exact .inr (ih hxs' ⟨hx, h.le, fun w hw => h.last w (List.mem_cons_of_mem _ hw)⟩)

theorem filter_eq_singleton {ys : List (Int × α)} {y : Int × α} (hnodup : (ys.map Prod.fst).Nodup)
    (hy : y ∈ ys) : ys.filter (·.1 = y.1) = [y] := by
  induction ys with
  | nil => cases hy
  | cons z ys ih =>
    obtain ⟨hz, hys⟩ := List.nodup_cons.mp hnodup
    rcases List.mem_cons.mp hy with rfl | hy
    · rw [List.filter_cons_of_pos (by simp), List.filter_eq_nil_iff.mpr]
      intro w hw hwy
      exact hz (List.mem_map.mpr ⟨w, hw, of_decide_eq_true hwy⟩)
    · rw [List.filter_cons_of_neg, ih hys hy]
      intro hzy
      exact hz (List.mem_map.mpr ⟨y, hy, (of_decide_eq_true hzy).symm⟩)

/-- And no other value. -/
theorem filter_expand (hxs : Increasing xs) (hstop : ∀ y ∈ xs, y.1 ≤ stop) (h : IsLatest xs t x)
    (ht : t < stop) (hlimit : t - x.1 ≤ limit) :
    (expand limit default stop xs).filter (·.1 = t) = [(t, x.2)] :=
  filter_eq_singleton (nodup_times_expand hxs.oldestFirst hstop) (mem_expand hxs h ht hlimit)

end

/-! ## Gaps -/

/-- The values with the time that each one lasts, until the next one or the end. -/
def gaps (stop : Int) : List (Int × α) → List (Int × α)
  | [] => []
  | [x] => [(stop - x.1, x.2)]
  | x :: y :: xs => (y.1 - x.1, x.2) :: gaps stop (y :: xs)

/-- The values that are filled in because a sample is held. -/
def held (limit stop : Int) (xs : List (Int × α)) : List α :=
  (expand limit none stop (xs.map fun x => (x.1, some x.2))).filterMap Prod.snd

section
variable {limit stop : Int} {x : Int × α} {xs : List (Int × α)}

theorem gaps_nonneg (hxs : OldestFirst xs) (hstop : ∀ y ∈ xs, y.1 ≤ stop) :
    ∀ g ∈ gaps stop xs, 0 ≤ g.1 := by
  induction xs with
  | nil => exact fun g hg => absurd hg List.not_mem_nil
  | cons x xs ih =>
    obtain ⟨hx, hxs⟩ := List.pairwise_cons.mp hxs
    cases xs with
    | nil =>
      have := hstop x List.mem_cons_self
      simp only [gaps, List.forall_mem_singleton]
      omega
    | cons y xs =>
      have := hx y List.mem_cons_self
      rw [gaps, List.forall_mem_cons]
      exact ⟨by dsimp only; omega, ih hxs fun z hz => hstop z (List.mem_cons_of_mem _ hz)⟩

/-- The last sample lasts until the end. -/
theorem exists_gaps_eq_concat (stop : Int) (hxs : xs ≠ []) :
    ∃ gs, ∃ y ∈ xs, gaps stop xs = gs ++ [(stop - y.1, y.2)] := by
  induction xs with
  | nil => exact absurd rfl hxs
  | cons x xs ih =>
    cases xs with
    | nil => exact ⟨[], x, List.mem_cons_self, rfl⟩
    | cons y xs =>
      obtain ⟨gs, z, hz, heq⟩ := ih (List.cons_ne_nil y xs)
      exact ⟨(y.1 - x.1, x.2) :: gs, z, List.mem_cons_of_mem _ hz, by rw [gaps, heq]; rfl⟩

theorem filterMap_range_le (n : Nat) (v : α) (hlimit : 0 ≤ limit) :
    (List.range n).filterMap (fun i : Nat => if (i : Int) ≤ limit then some v else none) =
      List.replicate (min (n : Int) (limit + 1)).toNat v := by
  induction n with
  | zero => simp [Int.min_eq_left (show (0 : Int) ≤ limit + 1 by omega)]
  | succ n ih =>
    rw [List.range_succ, List.filterMap_append, ih]
    by_cases h : (n : Int) ≤ limit
    · have hn : (min ((n + 1 : Nat) : Int) (limit + 1)).toNat = (min (n : Int) (limit + 1)).toNat + 1 := by
        omega
      rw [hn, List.replicate_succ']
      simp [h]
    · have hn : (min ((n + 1 : Nat) : Int) (limit + 1)).toNat = (min (n : Int) (limit + 1)).toNat := by
        omega
      rw [hn]
      simp [h]

theorem held_hold {next : Int} (hlimit : 0 ≤ limit) (hnext : x.1 ≤ next) :
    (hold limit none (x.1, some x.2) next).filterMap Prod.snd =
      List.replicate (min (next - x.1) (limit + 1)).toNat x.2 := by
  have hn : ((next - x.1).toNat : Int) = next - x.1 := Int.toNat_of_nonneg (by omega)
  rw [hold, range, List.map_map, List.filterMap_map, ← hn, ← filterMap_range_le _ x.2 hlimit]
  refine List.filterMap_congr fun i _ => ?_
  have hi : x.1 + (i : Int) - x.1 = i := by omega
  simp only [Function.comp_apply, hi]

/-- A value is held as long as it lasts, but for no more than one second beyond the limit. -/
theorem held_eq (hxs : OldestFirst xs) (hstop : ∀ y ∈ xs, y.1 ≤ stop) (hlimit : 0 ≤ limit) :
    held limit stop xs =
      (gaps stop xs).flatMap fun g => List.replicate (min g.1 (limit + 1)).toNat g.2 := by
  induction xs with
  | nil => rfl
  | cons x xs ih =>
    obtain ⟨hx, hxs⟩ := List.pairwise_cons.mp hxs
    have hrest := ih hxs fun z hz => hstop z (List.mem_cons_of_mem _ hz)
    cases xs with
    | nil =>
      rw [gaps, List.flatMap_singleton]
      exact held_hold hlimit (hstop x List.mem_cons_self)
    | cons y xs =>
      rw [gaps, List.flatMap_cons, ← hrest, held, List.map_cons, List.map_cons, expand,
        List.filterMap_append]
      exact congrArg (· ++ _) (held_hold hlimit (hx y List.mem_cons_self))

theorem held_ne_nil (hxs : OldestFirst xs) (hstop : ∀ y ∈ xs, y.1 < stop) (hlimit : 0 ≤ limit)
    (hne : xs ≠ []) : held limit stop xs ≠ [] := by
  obtain ⟨gs, y, hy, heq⟩ := exists_gaps_eq_concat stop hne
  rw [held_eq hxs (fun z hz => Int.le_of_lt (hstop z hz)) hlimit, heq, List.flatMap_append]
  intro hnil
  have hlast := (List.append_eq_nil_iff.mp hnil).2
  rw [List.flatMap_singleton, List.replicate_eq_nil_iff] at hlast
  have := hstop y hy
  omega

end

/-! ## Sums of series -/

/-- The value of a series at a time, and 0 where there is none. -/
def valueAt [Zero α] (xs : List (Int × α)) (t : Int) : α := (xs.lookup t).getD 0

/-- The series at each time that one of them has, in order, with the sum of their values there. -/
structure IsSum [AddCommMonoid α] (series : List (List (Int × α))) (total : List (Int × α)) :
    Prop where
  increasing : Increasing total
  mem_times : ∀ t, t ∈ total.map Prod.fst ↔ ∃ xs ∈ series, t ∈ xs.map Prod.fst
  value : ∀ x ∈ total, x.2 = (series.map fun xs => valueAt xs x.1).sum

section
variable [AddCommMonoid α] {series series' : List (List (Int × α))}
  {total total' xs : List (Int × α)} {x : Int × α} {t : Int}

theorem valueAt_of_notMem (h : t ∉ xs.map Prod.fst) : valueAt xs t = 0 := by
  induction xs with
  | nil => rfl
  | cons x xs ih =>
    rw [List.map_cons, List.mem_cons, not_or] at h
    rw [valueAt, List.lookup_cons, beq_eq_false_iff_ne.mpr h.1]
    exact ih h.2

theorem valueAt_cons_self : valueAt (x :: xs) x.1 = x.2 := by
  rw [valueAt, List.lookup_cons, beq_self_eq_true]
  rfl

theorem valueAt_cons_of_ne (h : t ≠ x.1) : valueAt (x :: xs) t = valueAt xs t := by
  rw [valueAt, List.lookup_cons, beq_eq_false_iff_ne.mpr h, valueAt]

theorem valueAt_of_mem (h : (xs.map Prod.fst).Nodup) (hx : x ∈ xs) : valueAt xs x.1 = x.2 := by
  induction xs with
  | nil => cases hx
  | cons y xs ih =>
    obtain ⟨hy, hxs⟩ := List.nodup_cons.mp h
    rcases List.mem_cons.mp hx with rfl | hx
    · exact valueAt_cons_self
    · rw [valueAt_cons_of_ne fun heq => hy (heq ▸ List.mem_map_of_mem hx), ih hxs hx]

/-- At every time the value is the sum. -/
theorem IsSum.valueAt_eq (h : IsSum series total) (t : Int) :
    valueAt total t = (series.map fun xs => valueAt xs t).sum := by
  by_cases ht : t ∈ total.map Prod.fst
  · obtain ⟨x, hx, rfl⟩ := List.mem_map.mp ht
    rw [valueAt_of_mem h.increasing.nodup_times hx, h.value x hx]
  · rw [valueAt_of_notMem ht, List.sum_eq_zero]
    intro v hv
    obtain ⟨xs, hxs, rfl⟩ := List.mem_map.mp hv
    exact valueAt_of_notMem fun hmem => ht ((h.mem_times t).mpr ⟨xs, hxs, hmem⟩)

theorem IsSum.nil : IsSum ([] : List (List (Int × α))) [] :=
  ⟨List.Pairwise.nil, by simp, by simp⟩

theorem IsSum.perm (h : IsSum series total) (hperm : series.Perm series') :
    IsSum series' total where
  increasing := h.increasing
  mem_times t := (h.mem_times t).trans (exists_congr fun _ => and_congr_left' hperm.mem_iff)
  value x hx := (h.value x hx).trans (hperm.map _).sum_eq

theorem IsSum.mem_iff (h : IsSum series total) : x ∈ total ↔
    (∃ xs ∈ series, x.1 ∈ xs.map Prod.fst) ∧ x.2 = (series.map fun xs => valueAt xs x.1).sum := by
  constructor
  · exact fun hx => ⟨(h.mem_times x.1).mp (List.mem_map_of_mem hx), h.value x hx⟩
  · rintro ⟨htime, hvalue⟩
    obtain ⟨y, hy, hyx⟩ := List.mem_map.mp ((h.mem_times x.1).mpr htime)
    have hyvalue := h.value y hy
    rw [hyx, ← hvalue] at hyvalue
    exact Prod.ext hyx hyvalue ▸ hy

/-- There is only one sum. -/
theorem IsSum.unique (h : IsSum series total) (h' : IsSum series total') : total = total' := by
  have hperm : total.Perm total' := (List.perm_ext_iff_of_nodup h.increasing.nodup_times.of_map
    h'.increasing.nodup_times.of_map).mpr fun x => h.mem_iff.trans h'.mem_iff.symm
  exact hperm.eq_of_pairwise (fun _ _ _ _ hlt hlt' => absurd hlt (Int.lt_asymm hlt')) h.increasing
    h'.increasing

end

end SampleHold
