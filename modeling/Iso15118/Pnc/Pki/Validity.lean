import Iso15118.Lib.Calendar
import Iso15118.Pnc.Pki.Fields
import Mathlib.Algebra.Group.Nat.Defs
import Mathlib.Data.List.Induction

/-!
# What a validity time says

`readTime` takes the digits of a `Time` apart and computes Unix seconds from them. Here both are
compared with the calendar:

* **`unixSecondsI64`** — the computation in the 64-bit arithmetic it is written in, and
  **`unixSecondsI64_eq`** — it overflows only where its result does not fit;
* **`unixSeconds_eq`** — the computation counts the days since the epoch;
* **`Stamp`** — the digits of a `Time`, with **`named_of_readTime`** — the ones that are accepted;
* **`readTime_ordered`** — times are in the order of their digits.
-/

namespace Iso15118.Pnc.Pki

open Iso15118.Lib

/-! ## Calendar arithmetic

The computation of the source, in integers and in 64 bits, against days counted one by one. A
year begins in March here, so that the leap day is its last. -/

/-- A value that fits an `i64`. -/
def i64 (n : Int) : Option Int :=
  if -9223372036854775808 ≤ n ∧ n ≤ 9223372036854775807 then some n else none

/-- `unix_seconds` on `i64`s, up to the first overflow. -/
def unixSecondsI64 (year : Int) (month day hour minute second : Nat) : Option Int := do
  let m : Int := month
  let d : Int := day
  let y ← i64 (if m ≤ 2 then year - 1 else year)
  let n ← i64 (if y ≥ 0 then y else y - 399)
  let era := n.tdiv 400
  let start ← i64 (era * 400)
  let yoe ← i64 (y - start)
  let mp := (m + 9) % 12
  let doy := (153 * mp + 2) / 5 + d - 1
  let doe ← i64 (yoe * 365 + yoe / 4 - yoe / 100 + doy)
  let eraDays ← i64 (era * 146097)
  let sum ← i64 (eraDays + doe)
  let days ← i64 (sum - 719468)
  let midnight ← i64 (days * 86400)
  let hours ← i64 (midnight + hour * 3600)
  let minutes ← i64 (hours + minute * 60)
  i64 (minutes + second)

theorem i64_eq_none {n : Int} :
    i64 n = none ↔ ¬ (-9223372036854775808 ≤ n ∧ n ≤ 9223372036854775807) := by
  unfold i64
  split_ifs <;> simp_all

/-- A step that fits wherever the result of the computation does. -/
theorem i64_bind {n result : Int} {f : Int → Option Int} (hf : f n = i64 result)
    (hfits : i64 n = none → i64 result = none) : i64 n >>= f = i64 result := by
  by_cases h : i64 n = none
  · rw [h, hfits h]
    rfl
  · rw [← hf]
    unfold i64 at h ⊢
    split_ifs at h ⊢ with hn
    · rfl
    · exact absurd rfl h

/-- The division of the era rounds down, before the year 0 too. -/
theorem era_eq (y : Int) : (if y ≥ 0 then y else y - 399).tdiv 400 = y / 400 := by
  split_ifs with hy
  · exact Int.tdiv_eq_ediv_of_nonneg hy
  · have hneg : (y - 399).tdiv 400 = -(399 - y).tdiv 400 := by
      rw [← Int.neg_tdiv]
      congr 1
      omega
    rw [hneg, Int.tdiv_eq_ediv_of_nonneg (by omega)]
    omega

/-- From the year 0 on, the computation overflows only where its result does not fit. -/
theorem unixSecondsI64_eq {year : Int} {month day hour minute second : Nat} (hyear : 0 ≤ year)
    (hday : day < 4294967296) :
    unixSecondsI64 year month day hour minute second
      = i64 (unixSeconds year month day hour minute second) := by
  unfold unixSecondsI64 unixSeconds
  have hy : -1 ≤ if (month : Int) ≤ 2 then year - 1 else year := by split <;> omega
  have hera := era_eq (if (month : Int) ≤ 2 then year - 1 else year)
  dsimp only
  generalize (if (month : Int) ≤ 2 then year - 1 else year) = y at hy hera ⊢
  rw [hera]
  have hmonth : 0 ≤ ((month : Int) + 9) % 12 ∧ ((month : Int) + 9) % 12 ≤ 11 := by omega
  generalize ((month : Int) + 9) % 12 = mp at hmonth ⊢
  -- each step is no further from zero than the result, up to what the later steps add
  iterate 11
    apply i64_bind
    swap
    · rw [i64_eq_none, i64_eq_none]
      omega
    try rw [hera]
  rfl

/-- The days before the first of March, of the year a shifted year starts in. -/
theorem yearStart_march (year : Int) :
    year / 400 * 146097 + ((year - year / 400 * 400) * 365 + (year - year / 400 * 400) / 4
        - (year - year / 400 * 400) / 100) - 719468
      = Date.yearStart year + if IsLeap year then 60 else 59 := by
  unfold Date.yearStart
  by_cases h : IsLeap year
  · rw [if_pos h]
    unfold IsLeap at h
    omega
  · rw [if_neg h]
    unfold IsLeap at h
    omega

/-- The days between the first of March and that of a later month, of either year. -/
theorem monthStart_march (year : Int) {month : Nat} (hpos : 3 ≤ month) (hle : month ≤ 12) :
    (Date.monthStart year month : Int)
      = (153 * (((month : Int) + 9) % 12) + 2) / 5 + if IsLeap year then 60 else 59 := by
  interval_cases month <;> by_cases h : IsLeap year <;> simp [Date.monthStart, monthLength, h]

/-- The seconds of the source are the days of the calendar and the time of day. -/
theorem unixSeconds_eq (date : Date) (hour minute second : Nat) :
    unixSeconds date.year date.month date.day hour minute second
      = 86400 * date.days + 3600 * hour + 60 * minute + second := by
  have hpos := date.month_pos
  unfold unixSeconds
  dsimp only
  rw [era_eq]
  unfold Date.days
  by_cases hmarch : (date.month : Int) ≤ 2
  · -- January and February end the shifted year that started in March before
    rw [if_pos hmarch]
    have hyear := yearStart_march (date.year - 1)
    have hnext := Date.yearStart_add_one (date.year - 1)
    rw [Int.sub_add_cancel] at hnext
    obtain hmonth | hmonth : date.month = 1 ∨ date.month = 2 := by omega
    · rw [hmonth, show Date.monthStart date.year 1 = 0 from rfl]
      split_ifs at hyear hnext <;> omega
    · rw [hmonth, show Date.monthStart date.year 2 = 31 from rfl]
      split_ifs at hyear hnext <;> omega
  · rw [if_neg hmarch]
    have hyear := yearStart_march date.year
    have hmonth := monthStart_march date.year (by omega : 3 ≤ date.month) date.month_le
    split_ifs at hyear hmonth <;> omega

/-- **Calendar arithmetic is exact.** From the year 0 on, the seconds are counted from the days
between the epoch and the date, wherever they fit an `i64`. -/
theorem unixSecondsI64_exact (date : Date) (hour minute second : Nat) (hyear : 0 ≤ date.year) :
    (∃ n, Date.epoch.DaysTo date n) ∧ ∀ n, Date.epoch.DaysTo date n →
      unixSecondsI64 date.year date.month date.day hour minute second
        = i64 (86400 * n + 3600 * hour + 60 * minute + second) := by
  have hday : date.day < 4294967296 := by
    have := date.day_le.trans (monthLength_le date.year date.month)
    omega
  have hcount : ∀ n, Date.epoch.DaysTo date n ↔ date.days = n := by
    intro n
    rw [Date.daysTo_iff, Date.days_epoch, Int.zero_add]
  refine ⟨⟨date.days, (hcount _).mpr rfl⟩, fun n hn => ?_⟩
  rw [unixSecondsI64_eq hyear hday, unixSeconds_eq, (hcount n).mp hn]

/-- Noon of a leap day. -/
def leapDay : Date := ⟨2024, 2, 29, by decide, by decide, by decide, by decide⟩

theorem unixSecondsI64_leapDay : unixSecondsI64 2024 2 29 12 0 0 = some 1709208000 :=
  (unixSecondsI64_exact leapDay 12 0 0 (by decide)).2 19782
    (Date.daysTo_iff.mpr (by decide))

/-- A leap day in a year whose seconds do not fit. -/
def farDay : Date := ⟨1000000000000, 2, 29, by decide, by decide, by decide, by decide⟩

theorem unixSecondsI64_overflows : ¬ ∀ (date : Date) (hour minute second : Nat) (n : Int),
    0 ≤ date.year → hour ≤ 23 → minute ≤ 59 → second ≤ 60 → Date.epoch.DaysTo date n →
      unixSecondsI64 date.year date.month date.day hour minute second
        = some (86400 * n + 3600 * hour + 60 * minute + second) := by
  intro h
  have hfar := h farDay 0 0 0 farDay.days (by decide) (by decide) (by decide) (by decide)
    (Date.daysTo_iff.mpr (by decide))
  have hnone : unixSecondsI64 1000000000000 2 29 0 0 0 = none := by decide
  exact absurd (hnone.symm.trans hfar) nofun

/-! ## The digits of a `Time`

The contents are a string of digits that is cut into fields. Stamps are ordered as their digits
are, and seconds follow them where the day exists. -/

/-- The last `n` decimal digits of a number. -/
def decimal : Nat → Nat → List UInt8
  | 0, _ => []
  | n + 1, v => decimal n (v / 10) ++ [0x30 + UInt8.ofNat (v % 10)]

theorem length_decimal (n v : Nat) : (decimal n v).length = n := by
  induction n generalizing v with
  | zero => rfl
  | succ n ih => rw [decimal, List.length_append, ih, List.length_singleton]

theorem digit_eq {b : UInt8} (h : 0x30 ≤ b ∧ b ≤ 0x39) :
    (b - 0x30).toNat < 10 ∧ 0x30 + UInt8.ofNat (b - 0x30).toNat = b := by
  have hlow : 48 ≤ b.toNat := UInt8.le_iff_toNat_le.mp h.1
  have hhigh : b.toNat ≤ 57 := UInt8.le_iff_toNat_le.mp h.2
  constructor
  · rw [UInt8.toNat_sub_of_le _ _ h.1]
    show b.toNat - 48 < 10
    omega
  · rw [UInt8.ofNat_toNat]
    grind

/-- Digits that are all decimal are those of the number they are folded into. -/
theorem eq_decimal_foldl (digits : List UInt8) (h : ∀ b ∈ digits, 0x30 ≤ b ∧ b ≤ 0x39) :
    let v := digits.foldl (fun acc b => acc * 10 + (b - 0x30).toNat) 0
    v < 10 ^ digits.length ∧ digits = decimal digits.length v := by
  induction digits using List.reverseRecOn with
  | nil => exact ⟨by decide, rfl⟩
  | append_singleton digits b ih =>
    obtain ⟨hlt, heq⟩ := ih fun b hb => h b (List.mem_append_left _ hb)
    obtain ⟨hdigit, hb⟩ := digit_eq (h b (by simp))
    simp only [List.foldl_append, List.foldl_cons, List.foldl_nil, List.length_append,
      List.length_singleton] at hlt ⊢
    generalize digits.foldl (fun acc b => acc * 10 + (b - 0x30).toNat) 0 = v at hlt heq ⊢
    refine ⟨by rw [Nat.pow_succ]; omega, ?_⟩
    rw [decimal, show (v * 10 + (b - 0x30).toNat) / 10 = v by omega,
      show (v * 10 + (b - 0x30).toNat) % 10 = (b - 0x30).toNat by omega, hb, ← heq]

theorem splitDigits_eq {text rest : List UInt8} {n v : Nat}
    (h : splitDigits text n = .ok (v, rest)) : v < 10 ^ n ∧ text = decimal n v ++ rest := by
  obtain ⟨hlength, h⟩ := refuse_eq_ok.mp h
  obtain ⟨hall, h⟩ := require_eq_ok.mp h
  cases h
  have htake : (text.take n).length = n := by rw [List.length_take]; omega
  obtain ⟨hlt, heq⟩ := eq_decimal_foldl (text.take n) (by simpa using hall)
  rw [htake] at hlt heq
  refine ⟨hlt, ?_⟩
  rw [← heq, List.take_append_drop]

theorem decimal_injective {n v v' : Nat} (hv : v < 10 ^ n) (hv' : v' < 10 ^ n)
    (h : decimal n v = decimal n v') : v = v' := by
  induction n generalizing v v' with
  | zero => omega
  | succ n ih =>
    rw [Nat.pow_succ] at hv hv'
    obtain ⟨hinit, hlast⟩ := List.append_inj' h rfl
    have hdiv := ih (by omega) (by omega) hinit
    have hmod : v % 10 = v' % 10 := by
      have hdigit := List.singleton_inj.mp hlast
      have := congrArg UInt8.toNat hdigit
      simp at this
      omega
    omega

/-- What the digits of a `Time` say. -/
@[ext] structure Stamp where
  year : Nat
  month : Nat
  day : Nat
  hour : Nat
  minute : Nat
  second : Nat
  deriving DecidableEq

namespace Stamp

/-- The contents of a `Time` under a tag. -/
def digits (tag : UInt8) (t : Stamp) : List UInt8 :=
  (if tag = Tag.utcTime then decimal 2 (t.year % 100) else decimal 4 t.year)
    ++ (decimal 2 t.month ++ (decimal 2 t.day ++ (decimal 2 t.hour ++ (decimal 2 t.minute
    ++ (decimal 2 t.second ++ [0x5A])))))

/-- The years a `Time` under a tag can name. -/
def YearUnder (tag : UInt8) (year : Nat) : Prop :=
  tag = Tag.utcTime ∧ 1950 ≤ year ∧ year ≤ 2049 ∨ tag = Tag.generalizedTime ∧ year ≤ 9999

/-- The fields are in the ranges they are checked against, one by one. -/
structure InRange (t : Stamp) : Prop where
  month_pos : 1 ≤ t.month
  month_le : t.month ≤ 12
  day_pos : 1 ≤ t.day
  day_le : t.day ≤ 31
  hour_le : t.hour ≤ 23
  minute_le : t.minute ≤ 59
  second_le : t.second ≤ 60

/-- The stamp is of a day that exists. -/
def On (t : Stamp) (date : Date) : Prop :=
  date.year = t.year ∧ date.month = t.month ∧ date.day = t.day

def fields (t : Stamp) : List Nat := [t.year, t.month, t.day, t.hour, t.minute, t.second]

def seconds (t : Stamp) : Int := unixSeconds t.year t.month t.day t.hour t.minute t.second

end Stamp

/-- The next value is a `Time` with the digits of a stamp in range. -/
def Der.Names (d : Der) (t : Stamp) : Prop :=
  ∃ tag d', d.any = .ok (tag, t.digits tag, d') ∧ Stamp.YearUnder tag t.year ∧ t.InRange

theorem readYear_eq {tag : UInt8} {text rest : List UInt8} {year : Nat}
    (h : readYear tag text = .ok (year, rest)) : Stamp.YearUnder tag year
      ∧ text = (if tag = Tag.utcTime then decimal 2 (year % 100) else decimal 4 year) ++ rest := by
  unfold readYear at h
  split_ifs at h with hutc hgeneralized
  · obtain ⟨⟨yy, rest'⟩, hsplit, h⟩ := bind_eq_ok.mp h
    cases h
    obtain ⟨hlt, heq⟩ := splitDigits_eq hsplit
    rw [if_pos hutc]
    -- the century is the one the pivot picks
    have hyy : (if yy < 50 then 2000 + yy else 1900 + yy) % 100 = yy := by
      split <;> omega
    refine ⟨.inl ⟨hutc, ?_⟩, by rw [hyy]; exact heq⟩
    split <;> omega
  · obtain ⟨hlt, heq⟩ := splitDigits_eq h
    rw [if_neg hutc]
    exact ⟨.inr ⟨hgeneralized, by omega⟩, heq⟩

/-- A time that was read is the one its digits name. -/
theorem named_of_readTime {d d' : Der} {time : Int} (h : readTime d = .ok (time, d')) :
    ∃ t : Stamp, d.Names t ∧ time = t.seconds := by
  obtain ⟨⟨tag, contents, d₁⟩, hany, h⟩ := bind_eq_ok.mp h
  obtain ⟨-, h⟩ := refuse_eq_ok.mp h
  obtain ⟨⟨year, rest⟩, hyear, h⟩ := bind_eq_ok.mp h
  obtain ⟨⟨month, rest₁⟩, hmonth, h⟩ := bind_eq_ok.mp h
  obtain ⟨⟨day, rest₂⟩, hday, h⟩ := bind_eq_ok.mp h
  obtain ⟨⟨hour, rest₃⟩, hhour, h⟩ := bind_eq_ok.mp h
  obtain ⟨⟨minute, rest₄⟩, hminute, h⟩ := bind_eq_ok.mp h
  obtain ⟨⟨second, rest₅⟩, hsecond, h⟩ := bind_eq_ok.mp h
  obtain ⟨hz, h⟩ := refuse_eq_ok.mp h
  obtain ⟨hrange, h⟩ := refuse_eq_ok.mp h
  cases h
  obtain ⟨hunder, rfl⟩ := readYear_eq hyear
  obtain ⟨-, rfl⟩ := splitDigits_eq hmonth
  obtain ⟨-, rfl⟩ := splitDigits_eq hday
  obtain ⟨-, rfl⟩ := splitDigits_eq hhour
  obtain ⟨-, rfl⟩ := splitDigits_eq hminute
  obtain ⟨-, rfl⟩ := splitDigits_eq hsecond
  obtain rfl := not_not.mp hz
  refine ⟨⟨year, month, day, hour, minute, second⟩,
    ⟨tag, d', lift_eq_ok.mp hany, hunder, ?_⟩, rfl⟩
  constructor <;> dsimp only <;> omega

theorem year_injective {tag : UInt8} {year year' : Nat} (h : Stamp.YearUnder tag year)
    (h' : Stamp.YearUnder tag year')
    (heq : (if tag = Tag.utcTime then decimal 2 (year % 100) else decimal 4 year)
      = if tag = Tag.utcTime then decimal 2 (year' % 100) else decimal 4 year') : year = year' := by
  by_cases hutc : tag = Tag.utcTime
  · rw [if_pos hutc, if_pos hutc] at heq
    have hmod := decimal_injective (by omega) (by omega) heq
    have hne : Tag.utcTime ≠ Tag.generalizedTime := by decide
    subst hutc
    rcases h with ⟨-, hlow, hhigh⟩ | ⟨habsurd, -⟩
    · rcases h' with ⟨-, hlow', hhigh'⟩ | ⟨habsurd, -⟩
      · omega
      · exact absurd habsurd hne
    · exact absurd habsurd hne
  · rw [if_neg hutc, if_neg hutc] at heq
    rcases h with ⟨habsurd, -⟩ | ⟨-, hle⟩
    · exact absurd habsurd hutc
    · rcases h' with ⟨habsurd, -⟩ | ⟨-, hle'⟩
      · exact absurd habsurd hutc
      · exact decimal_injective (by omega) (by omega) heq

theorem length_year (tag : UInt8) (year year' : Nat) :
    (if tag = Tag.utcTime then decimal 2 (year % 100) else decimal 4 year).length
      = (if tag = Tag.utcTime then decimal 2 (year' % 100) else decimal 4 year').length := by
  split <;> rw [length_decimal, length_decimal]

/-- A field of two digits, and what follows it. -/
theorem field_injective {v v' : Nat} {rest rest' : List UInt8} (hv : v ≤ 99) (hv' : v' ≤ 99)
    (h : decimal 2 v ++ rest = decimal 2 v' ++ rest') : v = v' ∧ rest = rest' := by
  obtain ⟨hfield, hrest⟩ := List.append_inj h (by rw [length_decimal, length_decimal])
  exact ⟨decimal_injective (by omega) (by omega) hfield, hrest⟩

/-- A value has the digits of one stamp only. -/
theorem Der.Names.unique {d : Der} {t t' : Stamp} (h : d.Names t) (h' : d.Names t') : t = t' := by
  obtain ⟨tag, rest, hany, hyear, hrange⟩ := h
  obtain ⟨tag', rest', hany', hyear', hrange'⟩ := h'
  have heq := Except.ok.inj (hany.symm.trans hany')
  obtain rfl : tag = tag' := congrArg Prod.fst heq
  have hdigits : t.digits tag = t'.digits tag := congrArg (fun r => r.2.1) heq
  obtain ⟨hy, hdigits⟩ := List.append_inj hdigits (length_year tag t.year t'.year)
  obtain ⟨-, hmonth, -, hday, hhour, hminute, hsecond⟩ := hrange
  obtain ⟨-, hmonth', -, hday', hhour', hminute', hsecond'⟩ := hrange'
  obtain ⟨hmo, hdigits⟩ := field_injective (by omega) (by omega) hdigits
  obtain ⟨hd, hdigits⟩ := field_injective (by omega) (by omega) hdigits
  obtain ⟨hh, hdigits⟩ := field_injective (by omega) (by omega) hdigits
  obtain ⟨hmi, hdigits⟩ := field_injective (by omega) (by omega) hdigits
  obtain ⟨hs, -⟩ := field_injective (by omega) (by omega) hdigits
  exact Stamp.ext (year_injective hyear hyear' hy) hmo hd hh hmi hs

namespace Stamp

theorem seconds_eq {t : Stamp} {date : Date} (h : t.On date) :
    t.seconds = 86400 * date.days + 3600 * t.hour + 60 * t.minute + t.second := by
  obtain ⟨hyear, hmonth, hday⟩ := h
  unfold seconds
  rw [← hyear, ← hmonth, ← hday, unixSeconds_eq]

/-- Stamps of days that exist are in the order of their seconds, up to a leap second and the
second after it. -/
theorem seconds_le_of_lt {t₁ t₂ : Stamp} {date₁ date₂ : Date} (h : t₁.fields < t₂.fields)
    (h₁ : t₁.On date₁) (h₂ : t₂.On date₂) (hr₁ : t₁.InRange) :
    t₁.seconds ≤ t₂.seconds ∧ (t₁.seconds = t₂.seconds → t₁.second = 60 ∧ t₂.second = 0) := by
  rw [seconds_eq h₁, seconds_eq h₂]
  obtain ⟨hyear₁, hmonth₁, hday₁⟩ := h₁
  obtain ⟨hyear₂, hmonth₂, hday₂⟩ := h₂
  have hbefore : date₁.Before date₂ ∨ date₁ = date₂ ∧ (t₁.hour < t₂.hour ∨ t₁.hour = t₂.hour
      ∧ (t₁.minute < t₂.minute ∨ t₁.minute = t₂.minute ∧ t₁.second < t₂.second)) := by
    simp only [fields, List.cons_lt_cons_iff, List.not_lt_nil, and_false, or_false] at h
    unfold Date.Before
    rw [Date.ext_iff]
    omega
  obtain ⟨-, -, -, -, hhour, hminute, hsecond⟩ := hr₁
  rcases hbefore with hbefore | ⟨rfl, htime⟩
  · have hdays := Date.days_lt_of_before hbefore
    omega
  · omega

end Stamp

/-- **Times are in the order of their digits.** An accepted `Time` has the digits of one stamp whose
fields are in range. Where its day exists, it is counted from the days since the epoch, and of two
such stamps the earlier has fewer seconds, or as many where it is a leap second and the other one
the second after it. -/
theorem readTime_ordered :
    (∀ d d' time, readTime d = .ok (time, d') → ∃! t, d.Names t)
      ∧ (∀ d d' time t, readTime d = .ok (time, d') → d.Names t → ∀ date, t.On date →
        ∀ n, Date.epoch.DaysTo date n →
          time = 86400 * n + 3600 * t.hour + 60 * t.minute + t.second)
      ∧ ∀ d₁ d₁' time₁ t₁ d₂ d₂' time₂ t₂, readTime d₁ = .ok (time₁, d₁') → d₁.Names t₁ →
        readTime d₂ = .ok (time₂, d₂') → d₂.Names t₂ →
          (∃ date, t₁.On date) → (∃ date, t₂.On date) → t₁.fields < t₂.fields →
            time₁ ≤ time₂ ∧ (time₁ = time₂ → t₁.second = 60 ∧ t₂.second = 0) := by
  have hseconds : ∀ {d d' time t}, readTime d = .ok (time, d') → d.Names t → time = t.seconds := by
    intro d d' time t h hnames
    obtain ⟨t', hnames', htime⟩ := named_of_readTime h
    rw [htime, hnames.unique hnames']
  refine ⟨fun d d' time h => ?_, fun d d' time t h hnames date hon n hn => ?_, ?_⟩
  · obtain ⟨t, hnames, -⟩ := named_of_readTime h
    exact ⟨t, hnames, fun t' hnames' => hnames'.unique hnames⟩
  · rw [Date.daysTo_iff, Date.days_epoch, Int.zero_add] at hn
    rw [hseconds h hnames, Stamp.seconds_eq hon, hn]
  · rintro d₁ d₁' time₁ t₁ d₂ d₂' time₂ t₂ h₁ hn₁ h₂ hn₂ ⟨date₁, hon₁⟩ ⟨date₂, hon₂⟩ hlt
    rw [hseconds h₁ hn₁, hseconds h₂ hn₂]
    obtain ⟨-, -, -, -, hrange⟩ := hn₁
    exact Stamp.seconds_le_of_lt hlt hon₁ hon₂ hrange

namespace Sample

/-- A `UTCTime` with the digits of a stamp. -/
def utcTime (t : Stamp) : Der := ⟨Tag.utcTime :: 13 :: t.digits Tag.utcTime⟩

/-- The leap second at the end of 2016, and the second after it. -/
def leapSecond : Stamp := ⟨2016, 12, 31, 23, 59, 60⟩

def newYear : Stamp := ⟨2017, 1, 1, 0, 0, 0⟩

/-- The thirtieth of a February. -/
def noSuchDay : Stamp := ⟨2025, 2, 30, 0, 0, 0⟩

theorem read_leapSecond : readTime (utcTime leapSecond) = .ok (1483228800, ⟨[]⟩) := by
  decide +kernel

theorem read_newYear : readTime (utcTime newYear) = .ok (1483228800, ⟨[]⟩) := by
  decide +kernel

theorem read_noSuchDay : readTime (utcTime noSuchDay) = .ok (1740873600, ⟨[]⟩) := by
  decide +kernel

theorem names_utcTime {t : Stamp} (hyear : 1950 ≤ t.year ∧ t.year ≤ 2049) (hrange : t.InRange)
    (hany : (utcTime t).any = .ok (Tag.utcTime, t.digits Tag.utcTime, ⟨[]⟩)) :
    (utcTime t).Names t :=
  ⟨Tag.utcTime, ⟨[]⟩, hany, .inl ⟨rfl, hyear⟩, hrange⟩

theorem names_leapSecond : (utcTime leapSecond).Names leapSecond :=
  names_utcTime (by decide) (by constructor <;> decide) (by decide +kernel)

theorem names_newYear : (utcTime newYear).Names newYear :=
  names_utcTime (by decide) (by constructor <;> decide) (by decide +kernel)

theorem names_noSuchDay : (utcTime noSuchDay).Names noSuchDay :=
  names_utcTime (by decide) (by constructor <;> decide) (by decide +kernel)

end Sample

theorem readTime_leapSecond : readTime (Sample.utcTime Sample.leapSecond) = .ok (1483228800, ⟨[]⟩)
    ∧ readTime (Sample.utcTime Sample.newYear) = .ok (1483228800, ⟨[]⟩)
    ∧ Sample.leapSecond.second = 60 ∧ Sample.newYear.second = 0 :=
  ⟨Sample.read_leapSecond, Sample.read_newYear,
    (readTime_ordered.2.2 _ _ _ _ _ _ _ _ Sample.read_leapSecond Sample.names_leapSecond
      Sample.read_newYear Sample.names_newYear
      ⟨⟨2016, 12, 31, by decide, by decide, by decide, by decide⟩, by decide, rfl, rfl⟩
      ⟨⟨2017, 1, 1, by decide, by decide, by decide, by decide⟩, by decide, rfl, rfl⟩
      (by decide)).2 rfl⟩

/-- Not every accepted `Time` is of a day that exists, and a leap second is not before the second
after it. -/
theorem readTime_unordered :
    (¬ ∀ d d' time t, readTime d = .ok (time, d') → d.Names t → ∃ date, t.On date)
      ∧ ¬ ∀ d₁ d₁' time₁ t₁ d₂ d₂' time₂ t₂, readTime d₁ = .ok (time₁, d₁') → d₁.Names t₁ →
        readTime d₂ = .ok (time₂, d₂') → d₂.Names t₂ → t₁.fields < t₂.fields →
          time₁ < time₂ := by
  constructor
  · intro h
    obtain ⟨date, hyear, hmonth, hday⟩ :=
      h _ _ _ _ Sample.read_noSuchDay Sample.names_noSuchDay
    have hle := date.day_le
    rw [hyear, hmonth, hday] at hle
    exact absurd hle (by decide)
  · intro h
    have hlt := h _ _ _ _ _ _ _ _ Sample.read_leapSecond Sample.names_leapSecond
      Sample.read_newYear Sample.names_newYear (by decide)
    exact absurd hlt (by decide)

end Iso15118.Pnc.Pki
