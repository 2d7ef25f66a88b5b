import Iso15118.Exi.Primitives
import Iso15118.Lib.Reversal

/-!
# Reversed fractions

`Fraction` keeps the digits behind the point from right to left. The accessors turn them round
again, in 64-bit arithmetic whose overflows are kept apart here:

* **`Fraction.fromDigits`**, **`Fraction.digits`**, **`Fraction.value`** — the loops of the source,
  up to their first overflow;
* **`Fraction.fromDigits_eq_some`**, **`Fraction.digits_eq`**, **`Fraction.value_eq`** — none of
  them overflows, and each computes a `turned` or `places`;
* **`Fraction.keeps_value`** — a fraction is the number it was made of.
-/

namespace Iso15118.Exi

open Iso15118.Lib

/-! ## Checked arithmetic

An operation of the source that may overflow is a partial one here, so that a loop that does not
overflow is one with a result. -/

/-- `u64::checked_mul`. -/
def checkedMul (a b : UInt64) : Option UInt64 :=
  if a.toNat * b.toNat < 2 ^ 64 then some (a * b) else none

/-- `u64::checked_add`. -/
def checkedAdd (a b : UInt64) : Option UInt64 :=
  if a.toNat + b.toNat < 2 ^ 64 then some (a + b) else none

theorem checkedMul_eq {a b : UInt64} (h : a.toNat * b.toNat < 2 ^ 64) :
    ∃ c, checkedMul a b = some c ∧ c.toNat = a.toNat * b.toNat :=
  ⟨a * b, if_pos h, by rw [UInt64.toNat_mul, Nat.mod_eq_of_lt h]⟩

theorem checkedAdd_eq {a b : UInt64} (h : a.toNat + b.toNat < 2 ^ 64) :
    ∃ c, checkedAdd a b = some c ∧ c.toNat = a.toNat + b.toNat :=
  ⟨a + b, if_pos h, by rw [UInt64.toNat_add, Nat.mod_eq_of_lt h]⟩

/-! ## The loops

Each loop takes the lowest digit off `rest` and puts it behind what it has. An overflow ends it
without a result. -/

/-- `Fraction::ZERO`. -/
def Fraction.zero : Fraction := ⟨0, by decide⟩

/-- `Fraction::MAX_DIGITS`. -/
def Fraction.maxDigits : Nat := 19

/-- The smallest number that `digits` places do not hold. -/
def limitLoop : Nat → UInt64 → Option UInt64
  | 0, limit => some limit
  | i + 1, limit => do
      let next ← checkedMul limit 10
      limitLoop i next

/-- Turns `digits` places of `rest` round, behind what is there already. -/
def reverseLoop : Nat → UInt64 → UInt64 → Option UInt64
  | 0, reversed, _ => some reversed
  | i + 1, reversed, rest => do
      let scaled ← checkedMul reversed 10
      let next ← checkedAdd scaled (rest % 10)
      reverseLoop i next (rest / 10)

/-- Counts the digits of `rest`, up to an overflow of the `u32`. -/
def digitsLoop (digits : UInt32) (rest : UInt64) : Option UInt32 :=
  if rest = 0 then some digits
  else if digits.toNat + 1 < 2 ^ 32 then digitsLoop (digits + 1) (rest / 10)
  else none
  termination_by rest.toNat
  decreasing_by
    have hpos : rest.toNat ≠ 0 := fun h => by simp_all [← UInt64.toNat_inj]
    rw [UInt64.toNat_div]
    exact Nat.div_lt_self (Nat.pos_of_ne_zero hpos) (by decide)

/-- Turns the digits of `rest` round, behind what is there already, up to an overflow. -/
def valueLoop (out rest : UInt64) : Option UInt64 := do
  let scaled ← checkedMul out 10
  let out ← checkedAdd scaled (rest % 10)
  if rest / 10 = 0 then some out else valueLoop out (rest / 10)
  termination_by rest.toNat
  decreasing_by
    rename_i hne
    have hpos : rest.toNat ≠ 0 := by
      rintro h
      refine hne ?_
      rw [← UInt64.toNat_inj, UInt64.toNat_div, h]
      rfl
    rw [UInt64.toNat_div]
    exact Nat.div_lt_self (Nat.pos_of_ne_zero hpos) (by decide)

/-! ## What the loops compute

The invariant of each: the digits taken off so far, turned round, with what is left. It is
carried as an equation between the accumulator and the digits of the number that the loop began
with. -/

theorem limitLoop_eq (i : Nat) (limit : UInt64) (h : limit.toNat * 10 ^ i < 2 ^ 64) :
    ∃ c, limitLoop i limit = some c ∧ c.toNat = limit.toNat * 10 ^ i := by
  induction i generalizing limit with
  | zero => exact ⟨limit, rfl, (Nat.mul_one _).symm⟩
  | succ i ih =>
    have hsplit : limit.toNat * 10 ^ (i + 1) = limit.toNat * 10 * 10 ^ i := by ring
    rw [hsplit] at h ⊢
    have hten : limit.toNat * 10 ≤ limit.toNat * 10 * 10 ^ i :=
      Nat.le_mul_of_pos_right _ (Nat.pow_pos (by decide))
    obtain ⟨next, hmul, hnext⟩ := checkedMul_eq (a := limit) (b := 10) (hten.trans_lt h)
    rw [← show next.toNat = limit.toNat * 10 from hnext] at h ⊢
    obtain ⟨c, hloop, hc⟩ := ih next h
    exact ⟨c, by rw [limitLoop, hmul]; exact hloop, hc⟩

/-- One more digit behind those that are there. -/
theorem append_eq (out rest : UInt64) (h : out.toNat * 10 + rest.toNat % 10 < 2 ^ 64) :
    ∃ scaled next, checkedMul out 10 = some scaled ∧ checkedAdd scaled (rest % 10) = some next
      ∧ next.toNat = out.toNat * 10 + rest.toNat % 10 := by
  obtain ⟨scaled, hmul, hscaled⟩ := checkedMul_eq (a := out) (b := 10)
    (lt_of_le_of_lt (Nat.le_add_right _ _) h)
  have hscaled : scaled.toNat = out.toNat * 10 := hscaled
  have hdigit : (rest % 10).toNat = rest.toNat % 10 := UInt64.toNat_mod _ _
  rw [← hscaled, ← hdigit] at h ⊢
  obtain ⟨next, hadd, hnext⟩ := checkedAdd_eq h
  exact ⟨scaled, next, hmul, hadd, hnext⟩

/-- Digits behind a number are those digits above it. -/
theorem append_le (out rest k t : Nat) :
    out * 10 + rest % 10 ≤ out * 10 ^ (k + 1) + (rest % 10 * 10 ^ k + t) := by
  have hone : 1 ≤ 10 ^ k := Nat.pow_pos (by decide)
  calc out * 10 + rest % 10 = (out * 10 + rest % 10) * 1 := (Nat.mul_one _).symm
    _ ≤ (out * 10 + rest % 10) * 10 ^ k := Nat.mul_le_mul_left _ hone
    _ ≤ (out * 10 + rest % 10) * 10 ^ k + t := Nat.le_add_right _ _
    _ = out * 10 ^ (k + 1) + (rest % 10 * 10 ^ k + t) := by ring

/-- The digit that moved is the highest of those still to come. -/
theorem append_turned {out rest next : Nat} (h : next = out * 10 + rest % 10) (k : Nat) :
    out * 10 ^ (k + 1) + (rest % 10 * 10 ^ k + turned 10 k (rest / 10))
      = next * 10 ^ k + turned 10 k (rest / 10) := by
  rw [h]
  ring

theorem reverseLoop_eq (i : Nat) (reversed rest : UInt64)
    (h : reversed.toNat * 10 ^ i + turned 10 i rest.toNat < 2 ^ 64) :
    ∃ c, reverseLoop i reversed rest = some c
      ∧ c.toNat = reversed.toNat * 10 ^ i + turned 10 i rest.toNat := by
  induction i generalizing reversed rest with
  | zero => exact ⟨reversed, rfl, by rw [turned]; omega⟩
  | succ i ih =>
    rw [turned] at h ⊢
    obtain ⟨scaled, next, hmul, hadd, hnext⟩ :=
      append_eq reversed rest ((append_le ..).trans_lt h)
    have hdiv : (rest / 10).toNat = rest.toNat / 10 := UInt64.toNat_div _ _
    rw [append_turned hnext, ← hdiv] at h ⊢
    obtain ⟨c, hloop, hc⟩ := ih next (rest / 10) h
    exact ⟨c, by rw [reverseLoop, hmul]; simpa [hadd] using hloop, hc⟩

theorem toNat_ne_zero {rest : UInt64} (h : ¬ rest = 0) : rest.toNat ≠ 0 :=
  fun hzero => h (UInt64.toNat_inj.mp hzero)

theorem digitsLoop_eq (digits : UInt32) (rest : UInt64)
    (h : digits.toNat + width 10 rest.toNat < 2 ^ 32) :
    ∃ c, digitsLoop digits rest = some c ∧ c.toNat = digits.toNat + width 10 rest.toNat := by
  fun_induction digitsLoop digits rest with
  | case1 digits => exact ⟨digits, rfl, rfl⟩
  | case2 digits rest hne hfits ih =>
    have hnext : (digits + 1).toNat = digits.toNat + 1 := by
      rw [UInt32.toNat_add]
      exact Nat.mod_eq_of_lt hfits
    have hdiv : (rest / 10).toNat = rest.toNat / 10 := UInt64.toNat_div _ _
    rw [width_of_ne_zero (by decide) (toNat_ne_zero hne)] at h ⊢
    rw [hnext, hdiv] at ih
    obtain ⟨c, hloop, hc⟩ := ih (by omega)
    exact ⟨c, hloop, by omega⟩
  | case3 digits rest hne hfull =>
    rw [width_of_ne_zero (by decide) (toNat_ne_zero hne)] at h
    omega

/-- The loop turns the digits that are left round behind those it has, without leaving the word. -/
theorem valueLoop_eq (out rest : UInt64)
    (h : out.toNat * 10 ^ places 10 rest.toNat + turned 10 (places 10 rest.toNat) rest.toNat
      < 2 ^ 64) :
    ∃ c, valueLoop out rest = some c ∧ c.toNat
      = out.toNat * 10 ^ places 10 rest.toNat + turned 10 (places 10 rest.toNat) rest.toNat := by
  fun_induction valueLoop out rest with
  | case1 out rest ih =>
    have hdiv : (rest / 10).toNat = rest.toNat / 10 := UInt64.toNat_div _ _
    rw [places_eq (by decide), turned] at h ⊢
    obtain ⟨scaled, next, hmul, hadd, hnext⟩ :=
      append_eq out rest ((append_le ..).trans_lt h)
    rw [append_turned hnext, ← hdiv] at h ⊢
    rw [hmul, Option.bind_eq_bind, Option.bind_some, hadd, Option.bind_some]
    by_cases hlast : rest / 10 = 0
    · rw [if_pos hlast, hlast]
      exact ⟨next, rfl, (Nat.mul_one _).symm⟩
    · have hwidth : width 10 (rest / 10).toNat = places 10 (rest / 10).toNat :=
        if_neg (toNat_ne_zero hlast)
      rw [hwidth] at h ⊢
      rw [if_neg hlast]
      exact ih next hlast h

/-! ## The accessors

Nineteen digits fit into 64 bits, and that is all the loops need in order not to overflow. What
remains is to say which numbers have how many digits. -/

theorem pow_maxDigits_lt : 10 ^ Fraction.maxDigits < 2 ^ 64 := by decide

/-- What nineteen places hold fits. -/
theorem turned_fits {i : Nat} (hi : i ≤ Fraction.maxDigits) (v : Nat) :
    turned 10 i v < 10 ^ Fraction.maxDigits :=
  (turned_lt (by decide) i v).trans_le (Nat.pow_le_pow_right (by decide) hi)

theorem reverseLoop_zero {i : Nat} (hi : i ≤ Fraction.maxDigits) (rest : UInt64) :
    ∃ c, reverseLoop i 0 rest = some c ∧ c.toNat = turned 10 i rest.toNat := by
  have hfits := (turned_fits hi rest.toNat).trans pow_maxDigits_lt
  obtain ⟨c, hloop, hc⟩ := reverseLoop_eq i 0 rest
    (by rw [UInt64.toNat_zero, Nat.zero_mul, Nat.zero_add]; exact hfits)
  rw [UInt64.toNat_zero, Nat.zero_mul, Nat.zero_add] at hc
  exact ⟨c, hloop, hc⟩

theorem reverseLoop_le {i : Nat} {rest reversed : UInt64} (hi : i ≤ Fraction.maxDigits)
    (h : reverseLoop i 0 rest = some reversed) : reversed.toNat ≤ 9999999999999999999 := by
  obtain ⟨c, hloop, hc⟩ := reverseLoop_zero hi rest
  obtain rfl := Option.some.inj (hloop.symm.trans h)
  have hlt := turned_fits hi rest.toNat
  have hpow : 10 ^ Fraction.maxDigits = 10000000000000000000 := by decide
  omega

namespace Fraction

/-- `Fraction::from_digits`. -/
def fromDigits (value : UInt64) (digits : UInt32) : Option Fraction :=
  if digits = 0 then if value = 0 then some zero else none
  else if hdigits : digits.toNat > maxDigits then none
  else
    match limitLoop digits.toNat 1 with
    | none => none
    | some limit =>
        if value ≥ limit then none
        else
          match h : reverseLoop digits.toNat 0 value with
          | none => none
          | some reversed => some ⟨reversed, reverseLoop_le (Nat.le_of_not_gt hdigits) h⟩

/-- `Fraction::digits`. -/
def digits (f : Fraction) : Option UInt32 := digitsLoop 1 (f.reversed / 10)

/-- `Fraction::value`. -/
def value (f : Fraction) : Option UInt64 := valueLoop 0 f.reversed

theorem places_le (f : Fraction) : places 10 f.reversed.toNat ≤ maxDigits := by
  refine Lib.places_le (by decide) ?_
  have hle := f.reversed_le
  have hpow : 10 ^ Fraction.maxDigits = 10000000000000000000 := by decide
  omega

theorem digits_eq (f : Fraction) :
    ∃ d, f.digits = some d ∧ d.toNat = places 10 f.reversed.toNat := by
  have hdiv : (f.reversed / 10).toNat = f.reversed.toNat / 10 := UInt64.toNat_div _ _
  have hle := f.places_le
  have hone : (1 : UInt32).toNat = 1 := rfl
  rw [places_eq (by decide), ← hdiv] at hle ⊢
  have hmax : maxDigits = 19 := rfl
  obtain ⟨d, hloop, hd⟩ := digitsLoop_eq 1 (f.reversed / 10) (by omega)
  exact ⟨d, hloop, by omega⟩

theorem value_eq (f : Fraction) :
    ∃ v, f.value = some v
      ∧ v.toNat = turned 10 (places 10 f.reversed.toNat) f.reversed.toNat := by
  have hfits := (turned_fits f.places_le f.reversed.toNat).trans pow_maxDigits_lt
  obtain ⟨v, hloop, hv⟩ := valueLoop_eq 0 f.reversed
    (by rw [UInt64.toNat_zero, Nat.zero_mul, Nat.zero_add]; exact hfits)
  rw [UInt64.toNat_zero, Nat.zero_mul, Nat.zero_add] at hv
  exact ⟨v, hloop, hv⟩

theorem eq_iff {f g : Fraction} : f = g ↔ g.reversed.toNat = f.reversed.toNat := by
  obtain ⟨r, hr⟩ := f
  obtain ⟨r', hr'⟩ := g
  rw [mk.injEq, UInt64.toNat_inj]
  exact eq_comm

/-- What a value in some places is kept as: its digits turned round. -/
theorem fromDigits_eq_some {value : UInt64} {digits : UInt32} {f : Fraction} :
    fromDigits value digits = some f ↔ digits.toNat ≤ maxDigits
      ∧ value.toNat < 10 ^ digits.toNat
      ∧ f.reversed.toNat = turned 10 digits.toNat value.toNat := by
  unfold fromDigits
  by_cases hzero : digits = 0
  · subst hzero
    rw [if_pos rfl, show (0 : UInt32).toNat = 0 from rfl, turned, Nat.pow_zero, Nat.lt_one_iff,
      ← UInt64.toNat_zero, UInt64.toNat_inj]
    by_cases hvalue : value = 0
    · rw [if_pos hvalue, Option.some.injEq, eq_iff]
      exact ⟨fun h => ⟨Nat.zero_le _, hvalue, h⟩, fun h => h.2.2⟩
    · rw [if_neg hvalue]
      exact iff_of_false (fun h => by cases h) fun h => hvalue h.2.1
  rw [if_neg hzero]
  -- more digits than fit are refused
  by_cases hdigits : digits.toNat > maxDigits
  · rw [dif_pos hdigits]
    exact iff_of_false (fun h => by cases h) fun h => absurd hdigits (Nat.not_lt.mpr h.1)
  rw [dif_neg hdigits]
  have hle := Nat.le_of_not_gt hdigits
  have hpow : 10 ^ digits.toNat ≤ 10 ^ maxDigits := Nat.pow_le_pow_right (by decide) hle
  obtain ⟨limit, hlimit, hten⟩ := limitLoop_eq digits.toNat 1
    (by rw [UInt64.toNat_one, Nat.one_mul]; exact hpow.trans_lt pow_maxDigits_lt)
  rw [UInt64.toNat_one, Nat.one_mul] at hten
  rw [hlimit]
  dsimp only
  -- so is a value with more digits than it is said to have
  by_cases hvalue : value ≥ limit
  · rw [if_pos hvalue]
    have hfull := UInt64.le_iff_toNat_le.mp hvalue
    rw [hten] at hfull
    exact iff_of_false (fun h => by cases h) fun h => absurd h.2.1 (Nat.not_lt.mpr hfull)
  · rw [if_neg hvalue]
    have hfits : ¬ limit.toNat ≤ value.toNat := fun h => hvalue (UInt64.le_iff_toNat_le.mpr h)
    rw [hten, Nat.not_le] at hfits
    -- the others are turned round without leaving the word
    obtain ⟨c, hloop, hc⟩ := reverseLoop_zero hle value
    split
    · next hnone => exact absurd (hloop.symm.trans hnone) (Option.some_ne_none c)
    · next reversed hsome =>
      obtain rfl := Option.some.inj (hloop.symm.trans hsome)
      rw [Option.some.injEq, eq_iff, ← hc]
      exact ⟨fun h => ⟨hle, hfits, h⟩, fun h => h.2.2⟩

/-- The digits of a fraction, and the value in them, are one way to make it. -/
theorem fromDigits_value {f : Fraction} {v : UInt64} {d : UInt32} (hv : f.value = some v)
    (hd : f.digits = some d) : fromDigits v d = some f := by
  obtain ⟨v', hvalue, hturned⟩ := f.value_eq
  obtain ⟨d', hdigits, hplaces⟩ := f.digits_eq
  obtain rfl := Option.some.inj (hv.symm.trans hvalue)
  obtain rfl := Option.some.inj (hd.symm.trans hdigits)
  rw [fromDigits_eq_some, hplaces, hturned]
  exact ⟨f.places_le, turned_lt (by decide) _ _, (turned_turned (lt_pow_places (by decide) _)).symm⟩

/-- The fraction is the value it was made of, over the same power of ten. -/
theorem value_mul_pow {f : Fraction} {v value : UInt64} {d digits : UInt32} (hv : f.value = some v)
    (hd : f.digits = some d) (h : fromDigits value digits = some f) :
    value.toNat * 10 ^ d.toNat = v.toNat * 10 ^ digits.toNat := by
  obtain ⟨v', hvalue, hturned⟩ := f.value_eq
  obtain ⟨d', hdigits, hplaces⟩ := f.digits_eq
  obtain rfl := Option.some.inj (hv.symm.trans hvalue)
  obtain rfl := Option.some.inj (hd.symm.trans hdigits)
  obtain ⟨-, hfits, hreversed⟩ := fromDigits_eq_some.mp h
  rw [hplaces, hturned]
  by_cases hzero : digits.toNat = 0
  · -- no places hold nothing but zero
    rw [hzero, Nat.pow_zero, Nat.lt_one_iff] at hfits
    rw [hzero, turned] at hreversed
    rw [hfits, hreversed, turned_zero, Nat.zero_mul, Nat.zero_mul]
  · have hle : places 10 f.reversed.toNat ≤ digits.toNat := by
      refine Lib.places_le hzero ?_
      rw [hreversed]
      exact turned_lt (by decide) _ _
    obtain ⟨k, hk⟩ := Nat.exists_eq_add_of_le hle
    have hagain := turned_turned hfits
    rw [← hreversed, hk, turned_add k (lt_pow_places (by decide) _)] at hagain
    rw [← hagain, hk, Nat.pow_add]
    ring

/-- **Reversed fractions keep their value.** A fraction is made of a value exactly when nineteen
places or fewer hold it. Its accessors do not overflow, they are a way to make it, and they are
the same decimal fraction as every other way. -/
theorem keeps_value :
    (∀ value digits, (∃ f, fromDigits value digits = some f)
        ↔ digits.toNat ≤ 19 ∧ value.toNat < 10 ^ digits.toNat)
      ∧ ∀ f : Fraction, ∃ v d, f.value = some v ∧ f.digits = some d ∧ fromDigits v d = some f
        ∧ ∀ value digits, fromDigits value digits = some f →
          value.toNat * 10 ^ d.toNat = v.toNat * 10 ^ digits.toNat := by
  constructor
  · intro value digits
    constructor
    · rintro ⟨f, h⟩
      obtain ⟨hle, hfits, -⟩ := fromDigits_eq_some.mp h
      exact ⟨hle, hfits⟩
    · rintro ⟨hle, hfits⟩
      obtain ⟨c, hloop, hc⟩ := reverseLoop_zero hle value
      exact ⟨⟨c, reverseLoop_le hle hloop⟩, fromDigits_eq_some.mpr ⟨hle, hfits, hc⟩⟩
  · intro f
    obtain ⟨v, hv, -⟩ := f.value_eq
    obtain ⟨d, hd, -⟩ := f.digits_eq
    exact ⟨v, d, hv, hd, fromDigits_value hv hd, fun _ _ h => value_mul_pow hv hd h⟩

end Fraction

end Iso15118.Exi
