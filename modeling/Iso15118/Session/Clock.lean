import Mathlib.Algebra.Group.Nat.Defs
import Mathlib.Data.List.Basic

/-!
# The clock the protocol cores run on

`session/clock.rs`: points and durations on a monotonic millisecond timeline the caller
supplies. Both are a `u64`, and adding saturates at the end of the timeline.
-/

namespace Iso15118.Session

/-- A duration in milliseconds. -/
structure Millis where
  millis : UInt64
  deriving DecidableEq, Repr

/-- `Millis::from_millis`. -/
def Millis.fromMillis (millis : UInt64) : Millis := ⟨millis⟩

/-- A point on the caller's monotonic clock, in milliseconds. -/
structure Instant where
  millis : UInt64
  deriving DecidableEq, Repr

namespace Instant

/-- `Instant::from_millis`. -/
def fromMillis (millis : UInt64) : Instant := ⟨millis⟩

/-- `self + duration`, saturating at the end of the timeline. -/
def saturatingAdd (t : Instant) (d : Millis) : Instant :=
  if t.millis.toNat + d.millis.toNat < 2 ^ 64 then ⟨t.millis + d.millis⟩
  else ⟨UInt64.ofNat (2 ^ 64 - 1)⟩

instance : HAdd Instant Millis Instant := ⟨saturatingAdd⟩

instance : LE Instant := ⟨fun t u => t.millis ≤ u.millis⟩

instance : LT Instant := ⟨fun t u => t.millis < u.millis⟩

instance (t u : Instant) : Decidable (t ≤ u) := inferInstanceAs (Decidable (t.millis ≤ u.millis))

instance (t u : Instant) : Decidable (t < u) := inferInstanceAs (Decidable (t.millis < u.millis))

theorem le_refl (t : Instant) : t ≤ t := UInt64.le_refl t.millis

theorem le_trans {t u v : Instant} (h : t ≤ u) (h' : u ≤ v) : t ≤ v := UInt64.le_trans h h'

theorem not_lt {t u : Instant} : ¬ t < u ↔ u ≤ t := UInt64.not_lt

theorem le_iff_toNat_le {t u : Instant} : t ≤ u ↔ t.millis.toNat ≤ u.millis.toNat :=
  UInt64.le_iff_toNat_le

/-- Where the timeline does not end, adding is adding. -/
theorem toNat_add {t : Instant} {d : Millis} (h : t.millis.toNat + d.millis.toNat < 2 ^ 64) :
    (t + d).millis.toNat = t.millis.toNat + d.millis.toNat := by
  show (t.saturatingAdd d).millis.toNat = _
  unfold saturatingAdd
  rw [if_pos h, UInt64.toNat_add, Nat.mod_eq_of_lt h]

end Instant

end Iso15118.Session
