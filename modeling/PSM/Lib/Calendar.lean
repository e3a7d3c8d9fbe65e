import Mathlib

/-! Positions in consecutive blocks, and the Gregorian calendar.

Years are blocks of days, and so are the months of a year. `Blocks.locate` finds the block of an
index and the place in it, and `Blocks.start` goes back (`Calendar.toDays_ofDays`). -/

namespace Blocks

/-- Where a block starts, for blocks of the given lengths. -/
def start (len : Nat → Nat) : Nat → Nat
  | 0 => 0
  | n + 1 => start len n + len n

/-- The block of the index `i`, counted from the start of the block `b`, and the place in it. -/
def find (len : Nat → Nat) : (fuel b i : Nat) → Nat × Nat
  | 0, b, i => (b, i)
  | fuel + 1, b, i => if i < len b then (b, i) else find len fuel (b + 1) (i - len b)

/-- No block is empty, so an index is in one of the blocks up to its own number. -/
def locate (len : Nat → Nat) (i : Nat) : Nat × Nat := find len i 0 i

variable {len : Nat → Nat} {b n fuel i : Nat}

theorem start_mono (h : n ≤ b) : start len n ≤ start len b := by
  induction h with
  | refl => exact Nat.le_refl _
  | step _ ih => exact Nat.le_trans ih (Nat.le_add_right _ _)

theorem find_spec (hpos : ∀ b, 0 < len b) (h : i ≤ fuel) :
    start len (find len fuel b i).1 + (find len fuel b i).2 = start len b + i ∧
      (find len fuel b i).2 < len (find len fuel b i).1 := by
  induction fuel generalizing b i with
  | zero =>
    cases Nat.le_zero.mp h
    exact ⟨rfl, hpos b⟩
  | succ fuel ih =>
    rw [find]
    split
    · rename_i hlt
      exact ⟨rfl, hlt⟩
    · rename_i hle
      have hb := hpos b
      obtain ⟨hstart, hlt⟩ := @ih (b + 1) (i - len b) (by omega)
      refine ⟨?_, hlt⟩
      rw [hstart, start]
      omega

theorem start_locate (hpos : ∀ b, 0 < len b) (i : Nat) :
    start len (locate len i).1 + (locate len i).2 = i := by
  have h := (@find_spec len 0 i i hpos (Nat.le_refl i)).1
  rwa [start, Nat.zero_add] at h

theorem locate_lt (hpos : ∀ b, 0 < len b) (i : Nat) :
    (locate len i).2 < len (locate len i).1 :=
  (@find_spec len 0 i i hpos (Nat.le_refl i)).2

/-- The indices below the start of a block are in the blocks before it. -/
theorem locate_fst_lt (hpos : ∀ b, 0 < len b) (h : i < start len n) : (locate len i).1 < n := by
  by_contra hle
  have hmono : start len n ≤ start len (locate len i).1 := start_mono (Nat.le_of_not_lt hle)
  have hstart := start_locate hpos i
  omega

end Blocks

namespace Calendar

def IsLeap (year : Nat) : Prop := year % 4 = 0 ∧ (year % 100 ≠ 0 ∨ year % 400 = 0)

instance (year : Nat) : Decidable (IsLeap year) := inferInstanceAs (Decidable (_ ∧ _))

def daysInMonth (year : Nat) : Nat → Nat
  | 2 => if IsLeap year then 29 else 28
  | 4 => 30
  | 6 => 30
  | 9 => 30
  | 11 => 30
  | _ => 31

/-- The months of a year as blocks. -/
def monthBlock (year : Nat) (n : Nat) : Nat := daysInMonth year (n + 1)

def daysInYear (year : Nat) : Nat := Blocks.start (monthBlock year) 12

/-- A date that there is. -/
structure Date where
  year : Nat
  month : Nat
  day : Nat
  month_pos : 1 ≤ month
  month_le : month ≤ 12
  day_pos : 1 ≤ day
  day_le : day ≤ daysInMonth year month
  deriving DecidableEq

/-- The date with the numbers, if there is one. -/
def date? (year month day : Nat) : Option Date :=
  if h : (1 ≤ month ∧ month ≤ 12) ∧ 1 ≤ day ∧ day ≤ daysInMonth year month then
    some ⟨year, month, day, h.1.1, h.1.2, h.2.1, h.2.2⟩
  else none

theorem Date.date?_eq (date : Date) : date? date.year date.month date.day = some date :=
  dif_pos ⟨⟨date.month_pos, date.month_le⟩, date.day_pos, date.day_le⟩

theorem daysInMonth_pos (year month : Nat) : 0 < daysInMonth year month := by
  unfold daysInMonth
  split
  · split <;> decide
  all_goals decide

theorem daysInMonth_le (year month : Nat) : daysInMonth year month ≤ 31 := by
  unfold daysInMonth
  split
  · split <;> decide
  all_goals decide

theorem monthBlock_pos (year : Nat) : ∀ n, 0 < monthBlock year n := fun n =>
  daysInMonth_pos year (n + 1)

theorem daysInYear_pos (year : Nat) : 0 < daysInYear year :=
  Nat.lt_of_lt_of_le (monthBlock_pos year 11) (Nat.le_add_left _ _)

/-- The years as blocks, from a first one on. -/
def yearBlock (first : Nat) (n : Nat) : Nat := daysInYear (first + n)

theorem yearBlock_pos (first : Nat) : ∀ n, 0 < yearBlock first n := fun n =>
  daysInYear_pos (first + n)

/-- The date of a day of a year, both counted from 0. -/
def ofDayOfYear (year : Nat) (i : Nat) (h : i < daysInYear year) : Date :=
  let place := Blocks.locate (monthBlock year) i
  ⟨year, place.1 + 1, place.2 + 1, Nat.le_add_left _ _,
    Blocks.locate_fst_lt (monthBlock_pos year) h, Nat.le_add_left _ _,
    Blocks.locate_lt (monthBlock_pos year) i⟩

/-- The date that is `n` days after the beginning of the year `first`. -/
def ofDays (first n : Nat) : Date :=
  let place := Blocks.locate (yearBlock first) n
  ofDayOfYear (first + place.1) place.2 (Blocks.locate_lt (yearBlock_pos first) n)

/-- How many days a date is after the beginning of the year `first`. -/
def toDays (first : Nat) (date : Date) : Nat :=
  Blocks.start (yearBlock first) (date.year - first) +
    (Blocks.start (monthBlock date.year) (date.month - 1) + (date.day - 1))

theorem toDays_ofDays (first n : Nat) : toDays first (ofDays first n) = n := by
  have hyear := Blocks.start_locate (yearBlock_pos first) n
  have hmonth := Blocks.start_locate
    (monthBlock_pos (first + (Blocks.locate (yearBlock first) n).1))
    (Blocks.locate (yearBlock first) n).2
  unfold toDays ofDays ofDayOfYear
  dsimp only
  rw [Nat.add_sub_cancel_left, Nat.add_sub_cancel, Nat.add_sub_cancel, hmonth]
  exact hyear

theorem daysInYear_ge (year : Nat) : 365 ≤ daysInYear year := by
  simp only [daysInYear, Blocks.start, monthBlock, daysInMonth]
  split <;> decide

theorem start_yearBlock_ge (first n : Nat) : 365 * n ≤ Blocks.start (yearBlock first) n := by
  induction n with
  | zero => exact Nat.le_refl _
  | succ n ih => exact Nat.add_le_add ih (daysInYear_ge (first + n))

/-- So many days are in fewer years. -/
theorem year_ofDays_lt {first n k : Nat} (h : n < 365 * k) : (ofDays first n).year < first + k :=
  Nat.add_lt_add_left (Blocks.locate_fst_lt (yearBlock_pos first)
    (Nat.lt_of_lt_of_le h (start_yearBlock_ge first k))) first

end Calendar
