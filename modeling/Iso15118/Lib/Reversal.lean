import Mathlib.Data.Nat.Log
import Mathlib.Tactic.Ring

/-!
# Digits turned round

A number of `n` digits in some base, read from the other end:

* **`turned`** — the number read so, with **`turned_turned`**: twice is not at all;
* **`turned_add`** — places that are left empty come out as zeros at the end;
* **`places`** — how many digits a number has.
-/

namespace Iso15118.Lib

/-- The lowest `n` digits of `v`, the lowest of them first. -/
def turned (b : Nat) : Nat → Nat → Nat
  | 0, _ => 0
  | n + 1, v => v % b * b ^ n + turned b n (v / b)

variable {b : Nat}

theorem turned_lt (hb : 0 < b) (n v : Nat) : turned b n v < b ^ n := by
  induction n generalizing v with
  | zero => exact Nat.one_pos
  | succ n ih =>
    have hdigit : v % b + 1 ≤ b := Nat.mod_lt v hb
    calc v % b * b ^ n + turned b n (v / b)
        < v % b * b ^ n + b ^ n := Nat.add_lt_add_left (ih _) _
      _ = (v % b + 1) * b ^ n := by ring
      _ ≤ b * b ^ n := Nat.mul_le_mul_right _ hdigit
      _ = b ^ (n + 1) := by ring

theorem turned_zero (n : Nat) : turned b n 0 = 0 := by
  induction n with
  | zero => rfl
  | succ n ih => rw [turned, Nat.zero_mod, Nat.zero_div, ih, Nat.zero_mul]

/-- The highest of the digits comes out last. -/
theorem turned_succ (n v : Nat) (hv : v < b ^ (n + 1)) :
    turned b (n + 1) v = b * turned b n (v % b ^ n) + v / b ^ n := by
  induction n generalizing v with
  | zero =>
    rw [Nat.pow_one] at hv
    simp [turned, Nat.mod_eq_of_lt hv]
  | succ n ih =>
    have hdiv : v / b < b ^ (n + 1) := Nat.div_lt_of_lt_mul (by rwa [Nat.pow_succ'] at hv)
    have hlow : v % b ^ (n + 1) % b = v % b := Nat.mod_mod_of_dvd v (Dvd.intro_left _ rfl)
    have hrest : v % b ^ (n + 1) / b = v / b % b ^ n := by
      rw [Nat.pow_succ', Nat.mod_mul_right_div_self]
    rw [turned, ih _ hdiv, turned, hlow, hrest, Nat.div_div_eq_div_mul, ← Nat.pow_succ']
    ring

/-- Turned round twice. -/
theorem turned_turned {n v : Nat} (hv : v < b ^ n) : turned b n (turned b n v) = v := by
  induction n generalizing v with
  | zero =>
    rw [Nat.pow_zero] at hv
    exact (Nat.lt_one_iff.mp hv).symm
  | succ n ih =>
    have hb : 0 < b := by
      rcases Nat.eq_zero_or_pos b with rfl | hb
      · rw [Nat.zero_pow n.succ_pos] at hv
        exact absurd hv (Nat.not_lt_zero _)
      · exact hb
    have htop : v / b ^ n < b := Nat.div_lt_of_lt_mul (by rwa [Nat.pow_succ] at hv)
    have hlow : v % b ^ n < b ^ n := Nat.mod_lt _ (Nat.pow_pos hb)
    rw [turned, turned_succ n v hv, Nat.mul_add_mod, Nat.mod_eq_of_lt htop,
      Nat.mul_add_div hb, Nat.div_eq_of_lt htop, Nat.add_zero, ih hlow]
    exact Nat.div_add_mod' v (b ^ n)

/-- A number in more places than its own. -/
theorem turned_add {d v : Nat} (k : Nat) (hv : v < b ^ d) :
    turned b (d + k) v = turned b d v * b ^ k := by
  induction d generalizing v with
  | zero =>
    rw [Nat.pow_zero] at hv
    rw [Nat.lt_one_iff.mp hv, turned_zero, turned_zero, Nat.zero_mul]
  | succ d ih =>
    have hdiv : v / b < b ^ d := Nat.div_lt_of_lt_mul (by rwa [Nat.pow_succ'] at hv)
    rw [Nat.succ_add, turned, ih hdiv, turned, Nat.pow_add]
    ring

/-! ## Places

How many digits there are to turn. Zero is the one number whose places and whose width differ. -/

/-- How many digits a number has. Zero has one. -/
def places (b v : Nat) : Nat := Nat.log b v + 1

theorem lt_pow_places (hb : 1 < b) (v : Nat) : v < b ^ places b v := Nat.lt_pow_succ_log_self hb v

theorem places_of_lt {v : Nat} (h : v < b) : places b v = 1 := by
  unfold places
  rw [Nat.log_of_lt h]

theorem places_of_le (hb : 1 < b) {v : Nat} (h : b ≤ v) : places b v = places b (v / b) + 1 := by
  unfold places
  rw [Nat.log_of_one_lt_of_le hb h]

/-- How many digits a number has, when zero has none. -/
def width (b v : Nat) : Nat := if v = 0 then 0 else places b v

theorem places_eq (hb : 1 < b) (v : Nat) : places b v = width b (v / b) + 1 := by
  unfold width
  rcases Nat.lt_or_ge v b with hlt | hle
  · rw [places_of_lt hlt, Nat.div_eq_of_lt hlt, if_pos rfl]
  · rw [places_of_le hb hle, if_neg (Nat.div_pos hle (by omega)).ne']

theorem width_of_ne_zero (hb : 1 < b) {v : Nat} (h : v ≠ 0) : width b v = width b (v / b) + 1 := by
  rw [← places_eq hb, width, if_neg h]

/-- What fits in some places has no more than these. -/
theorem places_le {n v : Nat} (hn : n ≠ 0) (h : v < b ^ n) : places b v ≤ n :=
  Nat.log_lt_of_lt_pow' hn h

end Iso15118.Lib
