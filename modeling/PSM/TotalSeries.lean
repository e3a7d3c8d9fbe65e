import Mathlib.Data.List.AList
import PSM.RecentValue

/-! The series of a process, summed over its instances.

`PRedis` adds up the series of the keys that Redis lists, in the order in which it lists them.
`CombineList` takes the later value for a time that comes twice in its first argument, and adds up
those of the second. Its results have each time once, and so do the series (`nodup_series`), and then
the order makes no difference (`totalData_perm`). -/

namespace PSM
open ByteStr Redis RedisManager SampleHold

namespace RedisJob

section
variable {V : Type}

/-- `{k: v for k, v in l1}`: a later value replaces an earlier one. -/
def dictOf (l1 : List (Int × V)) : AList fun _ : Int => V :=
  l1.foldl (fun D x => D.insert x.1 x.2) ∅

def addItem [Add V] (D : AList fun _ : Int => V) (x : Int × V) : AList fun _ : Int => V :=
  match D.lookup x.1 with
  | some value => D.insert x.1 (value + x.2)
  | none => D.insert x.1 x.2

/-- The items of a dictionary, sorted. Their keys differ, so that the values are not compared. -/
def sortedItems (D : AList fun _ : Int => V) : List (Int × V) :=
  (D.entries.map fun e => (e.1, e.2)).mergeSort fun x y => x.1 ≤ y.1

def combineList [Add V] (l1 l2 : List (Int × V)) : List (Int × V) :=
  sortedItems (l2.foldl addItem (dictOf l1))

/-- The loop of `PRedis` over the keys of a counter. -/
def totalData [Zero V] [Add V] (float : ByteStr → Option V) (s : Store HashValue)
    (responseTime interval curTime : Int) (keys : List ByteStr) : Option (List (Int × V)) :=
  keys.foldlM (fun totaldata key => do
    let data ← getValueList_detail float s key responseTime interval curTime
    some (combineList totaldata data)) []

end

/-! ## Dictionaries -/

section
variable {V : Type} {D : AList fun _ : Int => V} {x : Int × V} {xs : List (Int × V)} {t : Int}

theorem mem_sortedItems : x ∈ sortedItems D ↔ D.lookup x.1 = some x.2 := by
  rw [sortedItems, List.mem_mergeSort, ← Option.mem_def, AList.mem_lookup_iff, List.mem_map]
  constructor
  · rintro ⟨e, he, rfl⟩
    exact he
  · exact fun h => ⟨_, h, rfl⟩

theorem mem_times_sortedItems : t ∈ (sortedItems D).map Prod.fst ↔ t ∈ D := by
  rw [← AList.lookup_isSome, Option.isSome_iff_exists, List.mem_map]
  constructor
  · rintro ⟨x, hx, rfl⟩
    exact ⟨x.2, mem_sortedItems.mp hx⟩
  · rintro ⟨v, hv⟩
    exact ⟨(t, v), mem_sortedItems.mpr hv, rfl⟩

theorem increasing_sortedItems : Increasing (sortedItems D) := by
  have hsorted : (sortedItems D).Pairwise fun x y => x.1 ≤ y.1 := by
    refine (List.pairwise_mergeSort ?_ ?_ _).imp of_decide_eq_true
    · intro a b c hab hbc
      exact decide_eq_true (Int.le_trans (of_decide_eq_true hab) (of_decide_eq_true hbc))
    · intro a b
      simpa using Int.le_total a.1 b.1
  have hkeys : ((sortedItems D).map Prod.fst).Nodup := by
    refine ((List.mergeSort_perm _ _).map _).nodup_iff.mpr ?_
    rw [List.map_map]
    exact D.nodupKeys
  have hdiffer : (sortedItems D).Pairwise fun x y => x.1 ≠ y.1 := List.pairwise_map.mp hkeys
  exact hsorted.imp₂ (fun _ _ hle hne => lt_of_le_of_ne hle hne) hdiffer

theorem mem_insertAll : t ∈ xs.foldl (fun D x => D.insert x.1 x.2) D ↔
    t ∈ D ∨ t ∈ xs.map Prod.fst := by
  induction xs generalizing D with
  | nil => simp
  | cons x xs ih =>
    rw [List.foldl_cons, ih, AList.mem_insert, List.map_cons, List.mem_cons, or_comm (a := t = x.1),
      or_assoc]

theorem mem_addItem [Add V] : t ∈ addItem D x ↔ t ∈ D ∨ t = x.1 := by
  unfold addItem
  split <;> rw [AList.mem_insert, or_comm]

theorem mem_addAll [Add V] : t ∈ xs.foldl addItem D ↔ t ∈ D ∨ t ∈ xs.map Prod.fst := by
  induction xs generalizing D with
  | nil => simp
  | cons x xs ih => rw [List.foldl_cons, ih, mem_addItem, List.map_cons, List.mem_cons, or_assoc]

variable [AddCommMonoid V]

/-- The value of a key, and 0 for one that is not there. -/
def dictValue (D : AList fun _ : Int => V) (t : Int) : V := (D.lookup t).getD 0

theorem dictValue_insert {t' : Int} {v : V} :
    dictValue (D.insert t v) t' = if t' = t then v else dictValue D t' := by
  unfold dictValue
  split
  · rename_i h
    rw [h, AList.lookup_insert]
    rfl
  · rename_i h
    rw [AList.lookup_insert_ne h]

theorem dictValue_addItem :
    dictValue (addItem D x) t = if t = x.1 then dictValue D t + x.2 else dictValue D t := by
  unfold addItem
  split
  · rename_i value hvalue
    rw [dictValue_insert]
    refine if_ctx_congr .rfl (fun ht => ?_) fun _ => rfl
    rw [ht, dictValue, hvalue]
    rfl
  · rename_i hnone
    rw [dictValue_insert]
    refine if_ctx_congr .rfl (fun ht => ?_) fun _ => rfl
    rw [ht, dictValue, hnone]
    exact (zero_add x.2).symm

/-- With each time once, an item of the list has replaced what was there. -/
theorem dictValue_insertAll (h : (xs.map Prod.fst).Nodup) :
    dictValue (xs.foldl (fun D x => D.insert x.1 x.2) D) t =
      if t ∈ xs.map Prod.fst then valueAt xs t else dictValue D t := by
  induction xs generalizing D with
  | nil => rfl
  | cons x xs ih =>
    obtain ⟨hx, hxs⟩ := List.nodup_cons.mp h
    rw [List.foldl_cons, ih hxs, dictValue_insert, List.map_cons]
    by_cases ht : t = x.1
    · rw [ht, if_neg hx, if_pos rfl, if_pos List.mem_cons_self, valueAt_cons_self]
    · simp only [List.mem_cons, ht, false_or, if_false, valueAt_cons_of_ne ht]

/-- With each time once, an item of the list has been added to what was there. -/
theorem dictValue_addAll (h : (xs.map Prod.fst).Nodup) :
    dictValue (xs.foldl addItem D) t = dictValue D t + valueAt xs t := by
  induction xs generalizing D with
  | nil => exact (add_zero _).symm
  | cons x xs ih =>
    obtain ⟨hx, hxs⟩ := List.nodup_cons.mp h
    rw [List.foldl_cons, ih hxs, dictValue_addItem]
    by_cases ht : t = x.1
    · rw [ht, if_pos rfl, valueAt_cons_self, valueAt_of_notMem hx, add_zero]
    · rw [if_neg ht, valueAt_cons_of_ne ht]

/-! ## Combining two lists -/

variable {l1 l2 : List (Int × V)}

theorem mem_times_combineList :
    t ∈ (combineList l1 l2).map Prod.fst ↔ t ∈ l1.map Prod.fst ∨ t ∈ l2.map Prod.fst := by
  rw [combineList, mem_times_sortedItems, mem_addAll, dictOf, mem_insertAll]
  exact or_congr_left (or_iff_right (AList.notMem_empty t))

theorem value_combineList (h1 : (l1.map Prod.fst).Nodup) (h2 : (l2.map Prod.fst).Nodup)
    (hx : x ∈ combineList l1 l2) : x.2 = valueAt l1 x.1 + valueAt l2 x.1 := by
  have hvalue : dictValue (l2.foldl addItem (dictOf l1)) x.1 = x.2 :=
    congrArg (Option.getD · 0) (mem_sortedItems.mp hx)
  rw [← hvalue, dictValue_addAll h2, dictOf, dictValue_insertAll h1]
  split
  · rfl
  · rename_i hnotMem
    rw [valueAt_of_notMem hnotMem]
    rfl

theorem isSum_combineList {series : List (List (Int × V))} {total : List (Int × V)}
    (h : IsSum series total) (hxs : (xs.map Prod.fst).Nodup) :
    IsSum (series ++ [xs]) (combineList total xs) where
  increasing := increasing_sortedItems
  mem_times t := by
    rw [mem_times_combineList, h.mem_times]
    simp [or_and_right, exists_or]
  value x hx := by
    rw [value_combineList h.increasing.nodup_times hxs hx, h.valueAt_eq, List.map_append,
      List.sum_append, List.map_singleton, List.sum_singleton]

end

/-! ## The series of the keys -/

section
variable {V : Type} {float : ByteStr → Option V} {s : Store HashValue} {key : ByteStr}
  {entries : List (Int × V)} {responseTime interval curTime : Int}

/-- A series can be read, and has no time twice. -/
theorem nodup_series [Zero V] (h : Reads float (s.list key) entries)
    (hentries : NewestFirst entries) (responseTime interval curTime : Int) :
    ∃ xs, getValueList_detail float s key responseTime interval curTime = some xs ∧
      (xs.map Prod.fst).Nodup := by
  obtain ⟨n, hn, -⟩ := lrange_zero (s.list key)
    (curTime - responseTime - (curTime - responseTime - interval))
  have hnewest := hentries.sublist (List.take_sublist n _)
  unfold getValueList_detail getCounterValue
  dsimp only
  rw [hn, counterValues_eq_filter (List.forall₂_take n h) hnewest]
  refine ⟨_, rfl, nodup_times_expand (NewestFirst.oldestFirst_reverse (hnewest.filter _)) ?_⟩
  intro x hx
  have hwindow := of_decide_eq_true (List.mem_filter.mp (List.mem_reverse.mp hx)).2
  exact Int.le_of_lt hwindow.2

variable [AddCommMonoid V]

theorem totalData_isSum {keys : List ByteStr} {series : List (List (Int × V))}
    (h : List.Forall₂ (fun key xs =>
      getValueList_detail float s key responseTime interval curTime = some xs) keys series)
    (hnodup : ∀ xs ∈ series, (xs.map Prod.fst).Nodup) :
    ∃ total, totalData float s responseTime interval curTime keys = some total ∧
      IsSum series total := by
  -- what has been added up so far is the sum of the series before
  suffices hfold : ∀ {before total}, IsSum before total → ∃ total',
      keys.foldlM (fun totaldata key => do
        let data ← getValueList_detail float s key responseTime interval curTime
        some (combineList totaldata data)) total = some total' ∧ IsSum (before ++ series) total' from
    hfold IsSum.nil
  induction h with
  | nil => exact fun htotal => ⟨_, rfl, by rwa [List.append_nil]⟩
  | @cons key xs keys series hxs _ ih =>
    intro before total htotal
    obtain ⟨hx, hrest⟩ := List.forall_mem_cons.mp hnodup
    obtain ⟨total', htotal', hsum⟩ := ih hrest (isSum_combineList htotal hx)
    refine ⟨total', ?_, by rwa [List.append_assoc] at hsum⟩
    rw [List.foldlM_cons, hxs]
    exact htotal'

end

/-- In every order of the keys the total is the same: the sum of their series, each of which has no
time twice. -/
theorem totalData_perm {V : Type} [AddCommMonoid V] {float : ByteStr → Option V}
    {s : Store HashValue} {keys keys' : List ByteStr} (hperm : keys.Perm keys')
    (hkeys : ∀ key ∈ keys, ∃ entries, Reads float (s.list key) entries ∧ NewestFirst entries)
    (responseTime interval curTime : Int) :
    ∃ series total,
      List.Forall₂ (fun key xs =>
        getValueList_detail float s key responseTime interval curTime = some xs) keys series ∧
      (∀ xs ∈ series, (xs.map Prod.fst).Nodup) ∧
      totalData float s responseTime interval curTime keys = some total ∧
      totalData float s responseTime interval curTime keys' = some total ∧
      IsSum series total := by
  obtain ⟨f, hf⟩ : ∃ f : ByteStr → List (Int × V), ∀ key ∈ keys,
      getValueList_detail float s key responseTime interval curTime = some (f key) ∧
        ((f key).map Prod.fst).Nodup := by
    refine ⟨fun key => (getValueList_detail float s key responseTime interval curTime).getD [],
      fun key hkey => ?_⟩
    obtain ⟨entries, hreads, hentries⟩ := hkeys key hkey
    obtain ⟨xs, hxs, hnodup⟩ := nodup_series hreads hentries responseTime interval curTime
    dsimp only
    rw [hxs]
    exact ⟨rfl, hnodup⟩
  have hforall : ∀ keys' : List ByteStr, keys' ⊆ keys → List.Forall₂ (fun key xs =>
      getValueList_detail float s key responseTime interval curTime = some xs) keys'
      (keys'.map f) := by
    intro keys' hsub
    rw [List.forall₂_map_right_iff, List.forall₂_same]
    exact fun key hkey => (hf key (hsub hkey)).1
  have hnodup : ∀ xs ∈ keys.map f, (xs.map Prod.fst).Nodup :=
    List.forall_mem_map.mpr fun key hkey => (hf key hkey).2
  obtain ⟨total, htotal, hsum⟩ := totalData_isSum (hforall keys (List.Subset.refl _)) hnodup
  obtain ⟨total', htotal', hsum'⟩ := totalData_isSum (hforall keys' hperm.symm.subset)
    fun xs hxs => hnodup xs ((hperm.map f).mem_iff.mpr hxs)
  obtain rfl := hsum.unique (hsum'.perm (hperm.map f).symm)
  exact ⟨keys.map f, total, hforall keys (List.Subset.refl _), hnodup, htotal, htotal', hsum⟩

/-- Two instances, one of which has two samples of a second. -/
def twoInstances : Store HashValue :=
  { Store.empty with
    list := fun key => (if key = ascii "0:CPUTime:a:1" then [3, 3, 1] else [(2 : Int)]).map fun n =>
      decimal n ++ ascii " " ++ ascii "1.000000" }

theorem reads_twoInstances (key : ByteStr) : Reads floatOfOne (twoInstances.list key)
    ((if key = ascii "0:CPUTime:a:1" then [3, 3, 1] else [(2 : Int)]).map fun n => (n, 1)) :=
  reads_onesAt _ []

theorem totalData_perm_twoInstances : ∃ series total,
    List.Forall₂ (fun key xs => getValueList_detail floatOfOne twoInstances key 2 5 7 = some xs)
      [ascii "0:CPUTime:a:1", ascii "0:CPUTime:a:2"] series ∧
    (∀ xs ∈ series, (xs.map Prod.fst).Nodup) ∧
    totalData floatOfOne twoInstances 2 5 7 [ascii "0:CPUTime:a:1", ascii "0:CPUTime:a:2"] =
      some total ∧
    totalData floatOfOne twoInstances 2 5 7 [ascii "0:CPUTime:a:2", ascii "0:CPUTime:a:1"] =
      some total ∧
    IsSum series total := by
  refine totalData_perm (.swap _ _ _) (fun key _ => ?_) 2 5 7
  refine ⟨_, reads_twoInstances key, List.pairwise_map.mpr ?_⟩
  split <;> decide

end RedisJob

end PSM
