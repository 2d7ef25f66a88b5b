import Mathlib.Logic.Function.Iterate
import Mathlib.Tactic.IntervalCases

/-!
# The proleptic Gregorian calendar

* **`Date`** — a day that exists, in any year, and **`Date.next`** — the day after it;
* **`Date.DaysTo`** — how many days lie from one day to another, counted one at a time;
* **`Date.days`** — a number for every day, from the leap-year rule, with **`daysTo_iff`**: it
  counts the days since the epoch;
* **`Date.days_lt_of_before`** — later days have greater numbers.
-/

namespace Iso15118.Lib

/-- Every fourth year, but of the centuries only every fourth. -/
def IsLeap (year : Int) : Prop := year % 4 = 0 ∧ (year % 100 ≠ 0 ∨ year % 400 = 0)

instance instDecidablePredIsLeap : DecidablePred IsLeap := fun year =>
  inferInstanceAs (Decidable (year % 4 = 0 ∧ (year % 100 ≠ 0 ∨ year % 400 = 0)))

def monthLength (year : Int) (month : Nat) : Nat :=
  if month = 2 then if IsLeap year then 29 else 28
  else if month = 4 ∨ month = 6 ∨ month = 9 ∨ month = 11 then 30
  else 31

theorem monthLength_pos (year : Int) (month : Nat) : 1 ≤ monthLength year month := by
  unfold monthLength
  split_ifs <;> omega

theorem monthLength_le (year : Int) (month : Nat) : monthLength year month ≤ 31 := by
  unfold monthLength
  split_ifs <;> omega

/-- A day of the calendar. -/
@[ext] structure Date where
  year : Int
  month : Nat
  day : Nat
  month_pos : 1 ≤ month
  month_le : month ≤ 12
  day_pos : 1 ≤ day
  day_le : day ≤ monthLength year month

namespace Date

def epoch : Date := ⟨1970, 1, 1, by decide, by decide, by decide, by decide⟩

/-- The day after. -/
def next (d : Date) : Date :=
  if h : d.day < monthLength d.year d.month then
    ⟨d.year, d.month, d.day + 1, d.month_pos, d.month_le, by omega, h⟩
  else if h' : d.month < 12 then
    ⟨d.year, d.month + 1, 1, by omega, by omega, le_rfl, monthLength_pos _ _⟩
  else ⟨d.year + 1, 1, 1, le_rfl, by omega, le_rfl, monthLength_pos _ _⟩

/-- `b` comes `n` days after `a`, or `-n` days before it. -/
def DaysTo (a b : Date) (n : Int) : Prop := next^[n.toNat] a = next^[(-n).toNat] b

/-- The one day comes before the other. -/
def Before (a b : Date) : Prop :=
  a.year < b.year ∨ a.year = b.year ∧ (a.month < b.month ∨ a.month = b.month ∧ a.day < b.day)

theorem before_or_eq_or_before (a b : Date) : a.Before b ∨ a = b ∨ b.Before a := by
  unfold Before
  rw [Date.ext_iff]
  omega

/-! ## Numbers for the days

The number of a day is that of its year's beginning, and the days of the months and of its own
month that have gone by. Both starts are monotone, and each day's successor has the next number;
that numbers and days agree in both directions follows by induction on how far apart two days
are. -/

/-- The days from the epoch to the first of January. -/
def yearStart (year : Int) : Int :=
  365 * year + (year - 1) / 4 - (year - 1) / 100 + (year - 1) / 400 - 719527

theorem yearStart_add_one (year : Int) :
    yearStart (year + 1) = yearStart year + if IsLeap year then 366 else 365 := by
  unfold yearStart
  by_cases h : IsLeap year
  · rw [if_pos h]
    unfold IsLeap at h
    omega
  · rw [if_neg h]
    unfold IsLeap at h
    omega

theorem yearStart_mono {a b : Int} (h : a ≤ b) : yearStart a ≤ yearStart b := by
  unfold yearStart
  omega

/-- The days of the year before the first of a month. -/
def monthStart (year : Int) : Nat → Nat
  | 0 => 0
  | month + 1 => monthStart year month + if month = 0 then 0 else monthLength year month

theorem monthStart_add_one (year : Int) {month : Nat} (h : 1 ≤ month) :
    monthStart year (month + 1) = monthStart year month + monthLength year month := by
  rw [monthStart, if_neg (by omega)]

theorem monthStart_mono (year : Int) {a b : Nat} (h : a ≤ b) :
    monthStart year a ≤ monthStart year b := by
  induction h with
  | refl => exact le_rfl
  | step _ ih => exact ih.trans (Nat.le_add_right _ _)

/-- The twelve months of a year. -/
theorem monthStart_thirteen (year : Int) :
    (monthStart year 13 : Int) = if IsLeap year then 366 else 365 := by
  by_cases h : IsLeap year <;> simp [monthStart, monthLength, h]

def days (d : Date) : Int := yearStart d.year + monthStart d.year d.month + d.day - 1

theorem days_epoch : epoch.days = 0 := by decide

/-- The next date is one day later, across the end of a month and of a year as well. -/
theorem days_next (d : Date) : d.next.days = d.days + 1 := by
  unfold next
  split_ifs with hday hmonth
  · show yearStart d.year + monthStart d.year d.month + ((d.day + 1 : Nat) : Int) - 1 = _
    unfold days
    omega
  · -- the last day of its month
    have hlast : d.day = monthLength d.year d.month := Nat.le_antisymm d.day_le (by omega)
    have hstart := monthStart_add_one d.year d.month_pos
    show yearStart d.year + monthStart d.year (d.month + 1) + ((1 : Nat) : Int) - 1 = _
    unfold days
    omega
  · -- the last day of its year
    have hlast : d.day = monthLength d.year d.month := Nat.le_antisymm d.day_le (by omega)
    have hdecember : d.month = 12 := Nat.le_antisymm d.month_le (by omega)
    have hstart : monthStart d.year 13 = _ := monthStart_add_one d.year (by decide : 1 ≤ 12)
    have hyear := yearStart_add_one d.year
    rw [← monthStart_thirteen] at hyear
    rw [hdecember] at hlast
    show yearStart (d.year + 1) + monthStart (d.year + 1) 1 + ((1 : Nat) : Int) - 1 = _
    have hjanuary : monthStart (d.year + 1) 1 = 0 := rfl
    unfold days
    rw [hdecember]
    omega

theorem days_iterate (d : Date) (n : Nat) : (next^[n] d).days = d.days + n := by
  induction n with
  | zero => simp
  | succ n ih =>
    rw [Function.iterate_succ_apply', days_next, ih]
    omega

/-- A day comes before the first of the month after its own. -/
theorem day_lt_monthStart (d : Date) :
    monthStart d.year d.month + d.day ≤ monthStart d.year (d.month + 1) := by
  have hle := d.day_le
  rw [monthStart_add_one d.year d.month_pos]
  omega

theorem days_lt_yearStart (d : Date) : d.days < yearStart (d.year + 1) := by
  have hday := d.day_lt_monthStart
  have hmonth := monthStart_mono d.year (show d.month + 1 ≤ 13 by have := d.month_le; omega)
  have hyear := yearStart_add_one d.year
  rw [← monthStart_thirteen] at hyear
  unfold days
  omega

theorem days_lt_of_before {a b : Date} (h : a.Before b) : a.days < b.days := by
  have hb := b.day_pos
  rcases h with hyear | ⟨hyear, hmonth | ⟨hmonth, hday⟩⟩
  · have hnext := yearStart_mono (show a.year + 1 ≤ b.year from hyear)
    have ha := a.days_lt_yearStart
    unfold days at ha ⊢
    omega
  · have hnext := monthStart_mono a.year (show a.month + 1 ≤ b.month from hmonth)
    have ha := a.day_lt_monthStart
    unfold days
    rw [← hyear]
    omega
  · unfold days
    rw [← hyear, ← hmonth]
    omega

theorem days_injective : Function.Injective days := by
  intro a b h
  rcases before_or_eq_or_before a b with hab | hab | hba
  · exact absurd h (days_lt_of_before hab).ne
  · exact hab
  · exact absurd h (days_lt_of_before hba).ne'

theorem daysTo_iff {a b : Date} {n : Int} : a.DaysTo b n ↔ b.days = a.days + n := by
  unfold DaysTo
  rw [← days_injective.eq_iff, days_iterate, days_iterate]
  omega

end Date

end Iso15118.Lib
