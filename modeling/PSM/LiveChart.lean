import PSM.DrawChart
import PSM.Lib.EventMachine

/-! The series of a live chart, over the calls of `DrawChart` and the answers that come in between.

The points before the window are trimmed, and the seconds up to the newest sample are filled in, each
once. What the last loop adds has each second once exactly when no second of it is more than the
response time after the newest sample. -/

namespace PSM.Chart
open SampleHold

/-! ## The page -/

section
variable (V : Type)

/-- The page with the series, the last answer, and the clock at the last call of `DrawChart`. -/
structure Page where
  datas : List (Series V)
  jsonData : Option (Response V)
  lastCall : Option Int

inductive PageEvent where
  | dataReceived (data : Response V)
  | drawChart (curTime : Int)

end

section
variable {V : Type}

instance (xs : List (Int × V)) : Decidable (OldestFirst xs) :=
  inferInstanceAs (Decidable (List.Pairwise _ _))

namespace Page

/-- The page when it has been loaded. -/
def loaded (V : Type) (counters : Nat) : Page V := ⟨List.replicate counters [], none, none⟩

/-- An answer has an array for each counter, which is not empty and sorted by time. -/
def IsAnswer (p : Page V) (data : Response V) : Prop :=
  data.length = p.datas.length ∧ ∀ xs ∈ data, xs.isEmpty = false ∧ OldestFirst xs

/-- The clock does not go back. -/
def Enabled (p : Page V) : PageEvent V → Prop
  | .dataReceived data => p.IsAnswer data
  | .drawChart curTime => ∀ t ∈ p.lastCall, t ≤ curTime

instance (p : Page V) (e : PageEvent V) : Decidable (p.Enabled e) :=
  match e with
  | .dataReceived data => inferInstanceAs (Decidable (_ ∧ ∀ xs ∈ data, _))
  | .drawChart _ => inferInstanceAs (Decidable (∀ t ∈ p.lastCall, _))

variable [Zero V]

def next (responseTime : Int) (p : Page V) : PageEvent V → Page V
  | .dataReceived data => { p with jsonData := some data }
  | .drawChart curTime =>
    { p with
      datas := (Chart.drawChart responseTime curTime p.jsonData p.datas).1
      lastCall := some curTime }

def machine (V : Type) [Zero V] (responseTime : Int) : EventMachine (Page V) (PageEvent V) :=
  ⟨fun p e => if p.Enabled e then some (p.next responseTime e) else none⟩

end Page

/-! ## What is claimed of a series -/

/-- The seconds from `a` up to `b`, in milliseconds. -/
def seconds (a b : Int) : List Int := (range a b).map (· * 1000)

/-- The times of the points. -/
def times (xs : Series V) : List Int := xs.map Prod.fst

/-- The points are at consecutive seconds of the window, each once. -/
def OnePerSecond (t₀ t₁ : Int) (xs : Series V) : Prop :=
  ∃ a b, t₀ ≤ a ∧ b ≤ t₁ ∧ times xs = seconds a b

namespace Page

/-- In every series there is one point per second, in the window of the last call. -/
def OnePointPerSecond (responseTime : Int) (p : Page V) : Prop :=
  ∀ curTime ∈ p.lastCall, ∀ xs ∈ p.datas,
    OnePerSecond (startTime responseTime curTime) (endTime responseTime curTime) xs

/-- The points are those of all seconds of the window of the last call, once there are any. -/
def CoversWindow (responseTime : Int) (p : Page V) : Prop :=
  ∀ curTime ∈ p.lastCall, ∀ xs ∈ p.datas, xs = [] ∨
    times xs = seconds (startTime responseTime curTime) (endTime responseTime curTime)

end Page

/-- The first second that is not drawn yet. -/
def firstNew (t₀ : Int) (curData : Series V) : Int :=
  curData.getLast?.elim t₀ fun x => max t₀ (x.1 / 1000 + 1)

/-- The time of the newest sample before the end, or `time` if there is none after it. -/
def newest (time t₁ : Int) (data : List (Int × V)) : Int :=
  ((data.map Prod.fst).filter (· < t₁)).foldl max time

/-- The end of the window is at most a second more than the response time after the newest sample,
or after the points that are there. -/
def KeepsUp (responseTime t₀ t₁ : Int) (curData : Series V) (data : List (Int × V)) : Prop :=
  t₁ - newest (firstNew t₀ curData) t₁ data ≤ max 0 (responseTime + 1)

instance (responseTime t₀ t₁ : Int) (curData : Series V) (data : List (Int × V)) :
    Decidable (KeepsUp responseTime t₀ t₁ curData data) := inferInstanceAs (Decidable (_ ≤ _))

/-- The samples of every counter keep up with the clock. -/
def Page.KeepsUp (responseTime : Int) (p : Page V) : PageEvent V → Prop
  | .dataReceived _ => True
  | .drawChart curTime => ∀ jsonData ∈ p.jsonData, ∀ x ∈ p.datas.zip jsonData,
    Chart.KeepsUp responseTime (startTime responseTime curTime) (endTime responseTime curTime)
      x.1 x.2

instance (responseTime : Int) (p : Page V) (e : PageEvent V) :
    Decidable (p.KeepsUp responseTime e) :=
  match e with
  | .dataReceived _ => inferInstanceAs (Decidable True)
  | .drawChart _ => inferInstanceAs (Decidable (∀ jsonData ∈ p.jsonData, ∀ x ∈ _, _))

/-! ## Seconds -/

section
variable {a b c t : Int}

theorem mem_seconds : t ∈ seconds a b ↔ ∃ k, (a ≤ k ∧ k < b) ∧ k * 1000 = t := by
  simp [seconds]

theorem nodup_seconds : (seconds a b).Nodup :=
  nodup_range.map fun _ _ h => by simpa using h

theorem seconds_append (hab : a ≤ b) (hbc : b ≤ c) : seconds a b ++ seconds b c = seconds a c := by
  rw [seconds, seconds, ← List.map_append, range_append hab hbc]
  rfl

theorem seconds_eq_nil_iff : seconds a b = [] ↔ b ≤ a := by
  rw [seconds, List.map_eq_nil_iff, ← List.length_eq_zero_iff, length_range]
  omega

/-- The last of the seconds is the one before the end. -/
theorem getLast?_seconds (h : a < b) : (seconds a b).getLast? = some ((b - 1) * 1000) := by
  have hsingle : seconds (b - 1) b = [(b - 1) * 1000] := by
    have hone : b - (b - 1) = 1 := by omega
    rw [seconds, range, hone]
    simp
  rw [← seconds_append (by omega : a ≤ b - 1) (by omega), hsingle, List.getLast?_concat]

end

/-! ## The loops -/

section
variable {rt t₀ t₁ time a b : Int} {cur : V} {curData : Series V} {data : List (Int × V)}

theorem rtakeWhile_append {α : Type} {p : α → Bool} {xs ys : List α} (hxs : ∀ x ∈ xs, ¬p x)
    (hys : ∀ y ∈ ys, p y) : (xs ++ ys).rtakeWhile p = ys := by
  have hnone : xs.reverse.takeWhile p = [] := by
    cases h : xs.reverse with
    | nil => rfl
    | cons x rest =>
      have hx : x ∈ xs := List.mem_reverse.mp (h ▸ List.mem_cons_self)
      rw [List.takeWhile_cons_of_neg (hxs x hx)]
  rw [List.rtakeWhile, List.reverse_append,
    List.takeWhile_append_of_pos fun y hy => hys y (List.mem_reverse.mp hy), hnone,
    List.append_nil, List.reverse_reverse]

theorem times_trim : times (trim t₀ curData) =
    (times curData).rtakeWhile fun t => ¬t₀ > t / 1000 := by
  change (curData.reverse.takeWhile _).reverse.map Prod.fst =
    ((curData.map Prod.fst).reverse.takeWhile _).reverse
  rw [← List.map_reverse, List.takeWhile_map, List.map_reverse]
  rfl

/-- What is left of consecutive seconds. -/
theorem times_trim_of_seconds (h : times curData = seconds a b) :
    times (trim t₀ curData) = seconds (max a t₀) b := by
  have hthousand : ∀ k : Int, k * 1000 / 1000 = k := fun k => Int.mul_ediv_cancel k (by decide)
  rw [times_trim, h]
  by_cases hb : max a t₀ ≤ b
  · rw [← seconds_append (le_max_left a t₀) hb]
    apply rtakeWhile_append
    · intro t ht
      obtain ⟨k, hk, rfl⟩ := mem_seconds.mp ht
      rw [hthousand]
      simp
      omega
    · intro t ht
      obtain ⟨k, hk, rfl⟩ := mem_seconds.mp ht
      rw [hthousand]
      simp
      omega
  · have hnil : seconds (max a t₀) b = [] := seconds_eq_nil_iff.mpr (by omega)
    rw [hnil, List.rtakeWhile_eq_nil_iff]
    intro hne
    obtain ⟨k, hk, heq⟩ := mem_seconds.mp (List.getLast_mem hne)
    rw [← heq, hthousand]
    simp
    omega

/-- What is made of the second after the last point. -/
theorem elim_getLast? (h : times curData = seconds a b) (d : Int) (f : Int → Int) :
    (curData.getLast?.elim d fun x => f (x.1 / 1000 + 1)) = if a < b then f b else d := by
  have hlast : curData.getLast?.map Prod.fst = (seconds a b).getLast? := by
    rw [← List.getLast?_map, ← h]
    rfl
  by_cases hab : a < b
  · rw [getLast?_seconds hab, Option.map_eq_some_iff] at hlast
    obtain ⟨x, hx, htime⟩ := hlast
    have hnext : x.1 / 1000 + 1 = b := by omega
    rw [if_pos hab, hx, Option.elim_some, hnext]
  · rw [seconds_eq_nil_iff.mpr (by omega), List.getLast?_nil, Option.map_eq_none_iff] at hlast
    rw [if_neg hab, hlast, Option.elim_none]

theorem firstNew_of_seconds (h : times curData = seconds a b) :
    firstNew t₀ curData = if a < b then max t₀ b else t₀ := elim_getLast? h t₀ (max t₀)

theorem resume_of_seconds [Zero V] (h : times curData = seconds a b) :
    (resume t₀ curData).1 = if a < b then b else t₀ := by
  have hnext := elim_getLast? h t₀ id
  rw [id] at hnext
  rw [← hnext, resume]
  cases curData.getLast? <;> rfl

/-- The drawing goes on at the first new second, where the points that are left end. -/
theorem trim_spec [Zero V] (h : times curData = seconds a b) :
    (resume t₀ (trim t₀ curData)).1 = firstNew t₀ curData ∧
    ∃ a', t₀ ≤ a' ∧ a' ≤ firstNew t₀ curData ∧
      times (trim t₀ curData) = seconds a' (firstNew t₀ curData) ∧ (a ≤ t₀ → a' = t₀) := by
  have htrim : times (trim t₀ curData) = seconds (max a t₀) b := times_trim_of_seconds h
  rw [resume_of_seconds htrim, firstNew_of_seconds h, htrim]
  by_cases hb : max a t₀ < b
  · rw [if_pos hb, if_pos (by omega), max_eq_right (by omega : t₀ ≤ b)]
    exact ⟨rfl, max a t₀, by omega, by omega, rfl, by omega⟩
  · have hfirst : (if a < b then max t₀ b else t₀) = t₀ := by split <;> omega
    rw [if_neg hb, hfirst, seconds_eq_nil_iff.mpr (by omega)]
    exact ⟨rfl, t₀, le_rfl, le_rfl, (seconds_eq_nil_iff.mpr le_rfl).symm, fun _ => rfl⟩

theorem newest_nil : newest time t₁ ([] : List (Int × V)) = time := rfl

theorem newest_cons_of_lt {x : Int × V} (hx : x.1 < t₁) :
    newest time t₁ (x :: data) = newest (max time x.1) t₁ data := by
  simp [newest, hx]

theorem newest_cons_of_not_lt {x : Int × V} (hx : ¬x.1 < t₁) :
    newest time t₁ (x :: data) = newest time t₁ data := by
  simp [newest, hx]

/-- The skipped samples are not newer. -/
theorem newest_dropWhile : newest time t₁ (data.dropWhile (·.1 < time)) = newest time t₁ data := by
  induction data with
  | nil => rfl
  | cons x data ih =>
    by_cases hx : x.1 < time
    · rw [List.dropWhile_cons_of_pos (by simpa using hx), ih]
      by_cases hlt : x.1 < t₁
      · rw [newest_cons_of_lt hlt, max_eq_left (by omega)]
      · rw [newest_cons_of_not_lt hlt]
    · rw [List.dropWhile_cons_of_neg (by simpa using hx)]

theorem newest_eq_self (h : ∀ x ∈ data, ¬x.1 < t₁) : newest time t₁ data = time := by
  induction data with
  | nil => rfl
  | cons x data ih =>
    rw [List.forall_mem_cons] at h
    rw [newest_cons_of_not_lt h.1, ih h.2]

theorem times_fillBefore [Zero V] {t : Int} :
    times (fillBefore rt time cur t) = seconds time t := by
  simp [times, fillBefore, seconds]

/-- The seconds up to the newest sample are filled in. -/
theorem fill_spec [Zero V] (hdata : OldestFirst data) (htime : ∀ x ∈ data, time ≤ x.1)
    (hend : time ≤ t₁) : (fill rt t₁ time cur curData data).1 = newest time t₁ data ∧
    time ≤ newest time t₁ data ∧ newest time t₁ data ≤ t₁ ∧
    times (fill rt t₁ time cur curData data).2.2 =
      times curData ++ seconds time (newest time t₁ data) := by
  induction data generalizing time cur curData with
  | nil =>
    rw [newest_nil, seconds_eq_nil_iff.mpr le_rfl, List.append_nil]
    exact ⟨rfl, le_rfl, hend, rfl⟩
  | cons x data ih =>
    obtain ⟨hx, hdata⟩ := List.pairwise_cons.mp hdata
    have hle := htime x List.mem_cons_self
    rw [fill]
    by_cases hlt : x.1 < t₁
    · rw [if_pos hlt, newest_cons_of_lt hlt, max_eq_right hle]
      obtain ⟨htime', hge, hnewest, htimes⟩ := @ih x.1 x.2
        (curData ++ fillBefore rt time cur x.1) hdata hx (Int.le_of_lt hlt)
      refine ⟨htime', by omega, hnewest, ?_⟩
      rw [htimes, times, List.map_append, List.append_assoc]
      change times curData ++ (times (fillBefore rt time cur x.1) ++ _) = _
      rw [times_fillBefore, seconds_append hle hge]
    · have hlate : ∀ y ∈ x :: data, ¬y.1 < t₁ := by
        intro y hy
        rcases List.mem_cons.mp hy with rfl | hy
        · exact hlt
        · have := hx y hy
          omega
      rw [if_neg hlt, newest_eq_self hlate, seconds_eq_nil_iff.mpr le_rfl, List.append_nil]
      exact ⟨rfl, le_rfl, hend, rfl⟩

/-- The last loop has each second once exactly when none is late. -/
theorem times_fillAfter [Zero V] (h : t₁ - time ≤ max 0 (rt + 1)) :
    times (fillAfter rt t₁ time cur) = seconds time t₁ := by
  have hone : ∀ k ∈ range time t₁, ((k * 1000, cur) :: if k - time > rt then [(k * 1000, 0)] else [])
      = [(k * 1000, cur)] := by
    intro k hk
    rw [mem_range] at hk
    rw [if_neg (by omega)]
  rw [fillAfter, List.flatMap_congr hone, ← List.map_eq_flatMap]
  simp [times, seconds]

theorem not_nodup_fillAfter [Zero V] (h : ¬t₁ - time ≤ max 0 (rt + 1)) :
    ¬(times (fillAfter rt t₁ time cur)).Nodup := by
  have hlast : t₁ - 1 ∈ range time t₁ := mem_range.mpr (by omega)
  intro hnodup
  rw [times, fillAfter, List.map_flatMap, List.nodup_flatMap] at hnodup
  have htwice := hnodup.1 _ hlast
  rw [if_pos (by omega)] at htwice
  simp at htwice

theorem le_of_mem_dropWhile (hdata : OldestFirst data) :
    ∀ x ∈ data.dropWhile (·.1 < time), time ≤ x.1 := by
  induction data with
  | nil => exact fun x hx => absurd hx List.not_mem_nil
  | cons x data ih =>
    obtain ⟨hx, hdata⟩ := List.pairwise_cons.mp hdata
    by_cases hlt : x.1 < time
    · rw [List.dropWhile_cons_of_pos (by simpa using hlt)]
      exact ih hdata
    · rw [List.dropWhile_cons_of_neg (by simpa using hlt)]
      intro y hy
      rcases List.mem_cons.mp hy with rfl | hy
      · omega
      · have := hx y hy
        omega

/-- What a call makes of a series of consecutive seconds. -/
theorem drawCounter_spec [Zero V] {out : Series V} (h : times curData = seconds a b)
    (hb : b ≤ t₁) (hwindow : t₀ ≤ t₁) (hdata : OldestFirst data)
    (hout : drawCounter rt t₀ t₁ curData data = some out) : ∃ (a' : Int) (cur : V), t₀ ≤ a' ∧
      a' ≤ newest (firstNew t₀ curData) t₁ data ∧ newest (firstNew t₀ curData) t₁ data ≤ t₁ ∧
      times out = seconds a' (newest (firstNew t₀ curData) t₁ data) ++
        times (fillAfter rt t₁ (newest (firstNew t₀ curData) t₁ data) cur) ∧
      (a ≤ t₀ → a' = t₀) := by
  have htrim := @trim_spec V t₀ a b curData _ h
  obtain ⟨htime, a', ha', hle, htimes, hfirst⟩ := htrim
  have hnew : firstNew t₀ curData ≤ t₁ := by
    rw [firstNew_of_seconds h]
    split <;> omega
  have hne : data ≠ [] := drawCounter_isSome_iff.mp (Option.isSome_iff_exists.mpr ⟨out, hout⟩)
  have hrest : OldestFirst (data.dropWhile (·.1 < firstNew t₀ curData)) :=
    hdata.sublist (List.dropWhile_sublist _)
  have hfill := @fill_spec V rt t₁ (firstNew t₀ curData) (resume t₀ (trim t₀ curData)).2
    (trim t₀ curData) _ _ hrest (le_of_mem_dropWhile hdata) hnew
  rw [newest_dropWhile] at hfill
  obtain ⟨hlast, hge, hnewest, hpoints⟩ := hfill
  rw [drawCounter] at hout
  dsimp only at hout
  rw [htime, skip_eq hne, Option.map_some] at hout
  generalize fill rt t₁ (firstNew t₀ curData) (resume t₀ (trim t₀ curData)).2
    (trim t₀ curData) (data.dropWhile (·.1 < firstNew t₀ curData)) = filled at hout hlast hpoints
  obtain ⟨time, cur, points⟩ := filled
  obtain rfl := Option.some.inj hout
  have htime' : time = newest (firstNew t₀ curData) t₁ data := hlast
  rw [← htime'] at hge hnewest hpoints ⊢
  refine ⟨a', cur, ha', hle.trans hge, hnewest, ?_, hfirst⟩
  have happend : times (points ++ fillAfter rt t₁ time cur) =
      times points ++ times (fillAfter rt t₁ time cur) := List.map_append
  dsimp only at hpoints
  rw [happend, hpoints, htimes, seconds_append hle hge]

/-- A call leaves one point per second exactly when the samples keep up. -/
theorem onePerSecond_drawCounter_iff [Zero V] {out : Series V} (h : times curData = seconds a b)
    (hb : b ≤ t₁) (hwindow : t₀ ≤ t₁) (hdata : OldestFirst data)
    (hout : drawCounter rt t₀ t₁ curData data = some out) :
    OnePerSecond t₀ t₁ out ↔ KeepsUp rt t₀ t₁ curData data := by
  obtain ⟨a', cur, ha', hle, hend, htimes, -⟩ := drawCounter_spec h hb hwindow hdata hout
  constructor
  · rintro ⟨c, d, -, -, hout⟩
    by_contra hlate
    have hnodup : (times out).Nodup := hout ▸ nodup_seconds
    rw [htimes] at hnodup
    exact not_nodup_fillAfter hlate hnodup.of_append_right
  · intro hkeeps
    rw [times_fillAfter hkeeps, seconds_append hle hend] at htimes
    exact ⟨a', t₁, ha', le_rfl, htimes⟩

/-- If the series starts at or before the window, the whole window is drawn. -/
theorem times_drawCounter [Zero V] {out : Series V} (h : times curData = seconds a b)
    (ha : a ≤ t₀) (hb : b ≤ t₁) (hwindow : t₀ ≤ t₁) (hdata : OldestFirst data)
    (hkeeps : KeepsUp rt t₀ t₁ curData data)
    (hout : drawCounter rt t₀ t₁ curData data = some out) : times out = seconds t₀ t₁ := by
  obtain ⟨a', cur, ha', hle, hend, htimes, hfirst⟩ := drawCounter_spec h hb hwindow hdata hout
  rw [htimes, times_fillAfter hkeeps, seconds_append hle hend, hfirst ha]

end

/-! ## The calls -/

theorem forall₂_forall_iff {α β : Type} {R : α → β → Prop} {P : α → Prop} {Q : β → Prop}
    {xs : List α} {ys : List β} (h : List.Forall₂ R xs ys)
    (hR : ∀ x ∈ xs, ∀ y, R x y → (Q y ↔ P x)) : (∀ y ∈ ys, Q y) ↔ ∀ x ∈ xs, P x := by
  induction h with
  | nil => simp
  | cons hxy _ ih =>
    rw [List.forall_mem_cons] at hR
    rw [List.forall_mem_cons, List.forall_mem_cons, hR.1 _ hxy, ih hR.2]

section
variable [Zero V] {rt curTime : Int} {p p' : Page V} {e : PageEvent V} {jsonData : Response V}

/-- Every series is drawn with its data. -/
theorem drawCounters_forall₂ {t₀ t₁ : Int} {datas : List (Series V)}
    (hlen : jsonData.length = datas.length) (hne : ∀ data ∈ jsonData, data ≠ []) :
    List.Forall₂ (fun x out => drawCounter rt t₀ t₁ x.1 x.2 = some out) (datas.zip jsonData)
      (drawCounters rt t₀ t₁ jsonData datas).1 := by
  induction jsonData generalizing datas with
  | nil =>
    cases datas with
    | nil => exact .nil
    | cons => cases hlen
  | cons data jsonData ih =>
    cases datas with
    | nil => cases hlen
    | cons curData datas =>
      rw [List.forall_mem_cons] at hne
      obtain ⟨out, hout⟩ := Option.isSome_iff_exists.mp (drawCounter_isSome_iff.mpr hne.1)
      rw [drawCounters, hout, List.zip_cons_cons]
      exact .cons hout (ih (Nat.succ.inj hlen) hne.2)

namespace Page

omit [Zero V] in
theorem IsAnswer.ne_nil (h : p.IsAnswer jsonData) : ∀ data ∈ jsonData, data ≠ [] := by
  rintro data hdata rfl
  cases (h.2 [] hdata).1

theorem drawChart_forall₂ (h : p.IsAnswer jsonData) :
    List.Forall₂ (fun x out => drawCounter rt (startTime rt curTime) (endTime rt curTime) x.1 x.2 =
      some out) (p.datas.zip jsonData) (drawChart rt curTime (some jsonData) p.datas).1 := by
  rw [drawChart]
  split
  · have hempty : jsonData = [] := List.isEmpty_iff.mp ‹_›
    subst hempty
    rw [List.eq_nil_of_length_eq_zero h.1.symm]
    exact .nil
  · exact drawCounters_forall₂ h.1 h.ne_nil

/-- What holds on the page in every run. -/
structure Sound (p : Page V) : Prop where
  answer : ∀ jsonData ∈ p.jsonData, p.IsAnswer jsonData
  notReceived : p.jsonData = none → ∀ xs ∈ p.datas, xs = []
  notCalled : p.lastCall = none → ∀ xs ∈ p.datas, xs = []

omit [Zero V] in
theorem sound_loaded (counters : Nat) : (loaded V counters).Sound where
  answer _ h := by cases h
  notReceived _ _ h := List.eq_of_mem_replicate h
  notCalled _ _ h := List.eq_of_mem_replicate h

theorem machine_step_iff : (machine V rt).step p e = some p' ↔
    p.Enabled e ∧ p.next rt e = p' := by
  simp [machine]

theorem next_datas_none (h : p.jsonData = none) :
    (p.next rt (.drawChart curTime)).datas = p.datas := by
  rw [next, h]
  rfl

theorem next_datas_forall₂ (h : p.jsonData = some jsonData) (hanswer : p.IsAnswer jsonData) :
    List.Forall₂ (fun x out => drawCounter rt (startTime rt curTime) (endTime rt curTime) x.1 x.2 =
      some out) (p.datas.zip jsonData) (p.next rt (.drawChart curTime)).datas := by
  rw [next, h]
  exact drawChart_forall₂ hanswer

theorem length_next_datas (hp : p.Sound) : (p.next rt e).datas.length = p.datas.length := by
  cases e with
  | dataReceived data => rfl
  | drawChart curTime =>
    cases hjson : p.jsonData with
    | none => rw [next_datas_none hjson]
    | some jsonData =>
      have hanswer := hp.answer jsonData hjson
      have hdrawn : List.Forall₂ _ _ (p.next rt (.drawChart curTime)).datas :=
        next_datas_forall₂ hjson hanswer
      rw [← hdrawn.length_eq, List.length_zip, hanswer.1, Nat.min_self]

theorem Sound.step (hp : p.Sound) (h : (machine V rt).step p e = some p') : p'.Sound := by
  obtain ⟨he, rfl⟩ := machine_step_iff.mp h
  have hlen : (p.next rt e).datas.length = p.datas.length := length_next_datas hp
  cases e with
  | dataReceived data =>
    refine ⟨?_, fun hjson => ?_, hp.notCalled⟩
    · rintro _ ⟨⟩
      exact he
    · cases hjson
  | drawChart curTime =>
    refine ⟨fun jsonData hjson => ?_, fun hjson => ?_, fun hcalled => ?_⟩
    · have hanswer := hp.answer jsonData hjson
      exact ⟨hanswer.1.trans hlen.symm, hanswer.2⟩
    · have hjson : p.jsonData = none := hjson
      rw [next_datas_none hjson]
      exact hp.notReceived hjson
    · cases hcalled

omit [Zero V] in
theorem startTime_le_endTime : startTime rt curTime ≤ endTime rt curTime := by
  unfold startTime endTime windowLength
  omega

omit [Zero V] in
/-- The series before a call, with the second at which it ends. -/
theorem exists_seconds (hp : p.Sound) (h : p.OnePointPerSecond rt)
    (he : p.Enabled (.drawChart curTime)) : ∀ xs ∈ p.datas, ∃ a b,
      times xs = seconds a b ∧ b ≤ endTime rt curTime := by
  intro xs hxs
  cases hlast : p.lastCall with
  | none =>
    rw [hp.notCalled hlast xs hxs]
    exact ⟨0, min 0 (endTime rt curTime), (seconds_eq_nil_iff.mpr (by omega)).symm, min_le_right _ _⟩
  | some t =>
    obtain ⟨a, b, -, hb, htimes⟩ := h t hlast xs hxs
    have hle : t ≤ curTime := he t hlast
    refine ⟨a, b, htimes, ?_⟩
    unfold endTime at hb ⊢
    omega

/-- A call leaves one point per second exactly when the samples keep up with the clock. -/
theorem onePointPerSecond_next_iff (hp : p.Sound) (h : p.OnePointPerSecond rt)
    (he : p.Enabled e) : (p.next rt e).OnePointPerSecond rt ↔ p.KeepsUp rt e := by
  cases e with
  | dataReceived data => exact iff_of_true h trivial
  | drawChart curTime =>
    change (∀ t ∈ some curTime, ∀ xs ∈ (p.next rt (.drawChart curTime)).datas, _) ↔
      ∀ jsonData ∈ p.jsonData, _
    cases hjson : p.jsonData with
    | none =>
      rw [next_datas_none hjson]
      refine iff_of_true ?_ fun _ h => by cases h
      rintro _ ⟨⟩ xs hxs
      rw [hp.notReceived hjson xs hxs]
      exact ⟨startTime rt curTime, startTime rt curTime, le_rfl, startTime_le_endTime,
        (seconds_eq_nil_iff.mpr le_rfl).symm⟩
    | some jsonData =>
      have hanswer := hp.answer jsonData hjson
      simp only [Option.mem_def, Option.some.injEq, forall_eq']
      refine forall₂_forall_iff (next_datas_forall₂ hjson hanswer) ?_
      rintro ⟨xs, data⟩ hmem out hout
      obtain ⟨hxs, hdata⟩ := List.of_mem_zip hmem
      obtain ⟨a, b, htimes, hb⟩ := exists_seconds hp h he xs hxs
      exact onePerSecond_drawCounter_iff htimes hb startTime_le_endTime (hanswer.2 data hdata).2 hout

omit [Zero V] in
theorem CoversWindow.onePointPerSecond (h : p.CoversWindow rt) : p.OnePointPerSecond rt := by
  intro t ht xs hxs
  rcases h t ht xs hxs with rfl | htimes
  · exact ⟨startTime rt t, startTime rt t, le_rfl, startTime_le_endTime,
      (seconds_eq_nil_iff.mpr le_rfl).symm⟩
  · exact ⟨startTime rt t, endTime rt t, le_rfl, le_rfl, htimes⟩

omit [Zero V] in
/-- The window only moves on, so that it begins where the series does or later. -/
theorem CoversWindow.exists_seconds (hp : p.Sound) (h : p.CoversWindow rt)
    (he : p.Enabled (.drawChart curTime)) : ∀ xs ∈ p.datas, ∃ a b,
      times xs = seconds a b ∧ a ≤ startTime rt curTime ∧ b ≤ endTime rt curTime := by
  intro xs hxs
  have hempty : xs = [] → ∃ a b,
      times xs = seconds a b ∧ a ≤ startTime rt curTime ∧ b ≤ endTime rt curTime := by
    rintro rfl
    exact ⟨startTime rt curTime, startTime rt curTime, (seconds_eq_nil_iff.mpr le_rfl).symm, le_rfl,
      startTime_le_endTime⟩
  cases hlast : p.lastCall with
  | none => exact hempty (hp.notCalled hlast xs hxs)
  | some t =>
    rcases h t hlast xs hxs with hnil | htimes
    · exact hempty hnil
    · have hle : t ≤ curTime := he t hlast
      refine ⟨_, _, htimes, ?_, ?_⟩
      · unfold startTime
        omega
      · unfold endTime
        omega

theorem coversWindow_next (hp : p.Sound) (h : p.CoversWindow rt) (he : p.Enabled e)
    (hkeeps : p.KeepsUp rt e) : (p.next rt e).CoversWindow rt := by
  cases e with
  | dataReceived data => exact h
  | drawChart curTime =>
    rintro _ ⟨⟩
    cases hjson : p.jsonData with
    | none =>
      rw [next_datas_none hjson]
      exact fun xs hxs => .inl (hp.notReceived hjson xs hxs)
    | some jsonData =>
      have hanswer := hp.answer jsonData hjson
      refine (forall₂_forall_iff (P := fun _ => True) (next_datas_forall₂ hjson hanswer) ?_).mpr
        fun _ _ => trivial
      rintro ⟨xs, data⟩ hmem out hout
      obtain ⟨hxs, hdata⟩ := List.of_mem_zip hmem
      obtain ⟨a, b, htimes, ha, hb⟩ := h.exists_seconds hp he xs hxs
      exact iff_of_true (.inr (times_drawCounter htimes ha hb startTime_le_endTime
        (hanswer.2 data hdata).2 (hkeeps jsonData hjson _ hmem) hout)) trivial

variable {es : List (PageEvent V)}

theorem always_onePointPerSecond_iff (hp : p.Sound) (h : p.OnePointPerSecond rt)
    (hrun : (machine V rt).run p es = some p') :
    (machine V rt).Always (OnePointPerSecond rt) p es ↔ (machine V rt).Meets (KeepsUp rt) p es := by
  refine EventMachine.always_iff_meets (J := Sound) (fun hstep hp => hp.step hstep) ?_ hp h hrun
  intro p e p' hstep hp h
  obtain ⟨he, rfl⟩ := machine_step_iff.mp hstep
  exact onePointPerSecond_next_iff hp h he

theorem always_coversWindow (hp : p.Sound) (h : p.CoversWindow rt)
    (hmeets : (machine V rt).Meets (KeepsUp rt) p es) :
    (machine V rt).Always (CoversWindow rt) p es := by
  refine hmeets.always (I := fun p => p.Sound ∧ p.CoversWindow rt) ?_ And.right ⟨hp, h⟩
  rintro p e p' ⟨hp, h⟩ hkeeps hstep
  refine ⟨hp.step hstep, ?_⟩
  obtain ⟨he, rfl⟩ := machine_step_iff.mp hstep
  exact coversWindow_next hp h he hkeeps

omit [Zero V] in
theorem coversWindow_loaded (counters : Nat) : (loaded V counters).CoversWindow rt :=
  fun _ h => by cases h

end Page

/-- In every run of calls and answers, there is always one point per second exactly when the samples
keep up at every call, and then the points are those of the whole window. -/
theorem onePointPerSecond_iff (responseTime : Int) (counters : Nat) {es : List (PageEvent V)}
    (hrun : (Page.machine V responseTime).run (.loaded V counters) es = some p) :
    ((Page.machine V responseTime).Always (Page.OnePointPerSecond responseTime)
        (.loaded V counters) es ↔
      (Page.machine V responseTime).Meets (Page.KeepsUp responseTime) (.loaded V counters) es) ∧
    ((Page.machine V responseTime).Always (Page.CoversWindow responseTime)
        (.loaded V counters) es ↔
      (Page.machine V responseTime).Meets (Page.KeepsUp responseTime) (.loaded V counters) es) := by
  have hone := Page.always_onePointPerSecond_iff (Page.sound_loaded counters)
    (Page.coversWindow_loaded counters).onePointPerSecond hrun
  refine ⟨hone, fun hcovers => ?_, Page.always_coversWindow (Page.sound_loaded counters)
    (Page.coversWindow_loaded counters)⟩
  exact hone.mp (hcovers.imp fun _ => Page.CoversWindow.onePointPerSecond)

/-- An answer with a recent sample, and two calls. -/
def recentSample : List (PageEvent Int) :=
  [.dataReceived [[(980, 1)]], .drawChart 1000, .drawChart 1001]

theorem onePointPerSecond_iff_recentSample : ∃ p,
    (Page.machine Int 10).run (.loaded Int 1) recentSample = some p ∧
      (((Page.machine Int 10).Always (Page.OnePointPerSecond 10) (.loaded Int 1) recentSample ↔
        (Page.machine Int 10).Meets (Page.KeepsUp 10) (.loaded Int 1) recentSample) ∧
      ((Page.machine Int 10).Always (Page.CoversWindow 10) (.loaded Int 1) recentSample ↔
        (Page.machine Int 10).Meets (Page.KeepsUp 10) (.loaded Int 1) recentSample)) := by
  have hrun : ∃ p, (Page.machine Int 10).run (.loaded Int 1) recentSample = some p := ⟨_, rfl⟩
  obtain ⟨p, hp⟩ := hrun
  exact ⟨p, hp, onePointPerSecond_iff 10 1 hp⟩

/-- The newest sample is 20 seconds before the end of the window, with a response time of 10. -/
def steadyValue : List (PageEvent Int) := [.dataReceived [[(963, 1)]], .drawChart 1000]

theorem not_onePointPerSecond_steadyValue : ∃ p,
    (Page.machine Int 10).run (.loaded Int 1) steadyValue = some p ∧
      ¬(Page.machine Int 10).Always (Page.OnePointPerSecond 10) (.loaded Int 1) steadyValue := by
  have hrun : ∃ p, (Page.machine Int 10).run (.loaded Int 1) steadyValue = some p := ⟨_, rfl⟩
  obtain ⟨p, hp⟩ := hrun
  refine ⟨p, hp, fun halways => ?_⟩
  have hmeets := (Page.always_onePointPerSecond_iff (Page.sound_loaded 1)
    (Page.coversWindow_loaded 1).onePointPerSecond hp).mp halways
  revert hmeets
  decide

end

end

end PSM.Chart
