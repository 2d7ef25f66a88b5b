import Mathlib.Data.Nat.Notation

/-!
# Sleeping until the next alarm

A machine with deadlines does nothing by itself: its owner asks for the next alarm, sleeps until it
is due and wakes the machine with it. `serve` is an owner that has nothing else to do. If waking
uses something up, the alarms end.
-/

namespace Iso15118.Lib

variable {σ τ : Type} (next : σ → Option τ) (wake : σ → τ → σ)

/-- The next `n` alarms, each when it is due. -/
def serve : ℕ → σ → σ
  | 0, s => s
  | n + 1, s =>
      match next s with
      | none => s
      | some t => serve n (wake s t)

variable {next wake}

/-- What every alarm keeps is kept by all of them. -/
theorem serve_keeps {P : σ → Prop} (hwake : ∀ s t, P s → P (wake s t)) (n : ℕ) {s : σ} (h : P s) :
    P (serve next wake n s) := by
  induction n generalizing s with
  | zero => exact h
  | succ n ih =>
    unfold serve
    split
    · exact h
    · exact ih (hwake s _ h)

/-- As many alarms as there is fuel for, and there are no more. -/
theorem next_serve (fuel : σ → ℕ) (hless : ∀ s t, next s = some t → fuel (wake s t) < fuel s)
    {n : ℕ} {s : σ} (hfuel : fuel s ≤ n) : next (serve next wake n s) = none := by
  induction n generalizing s with
  | zero =>
    show next s = none
    cases hnext : next s with
    | none => rfl
    | some t =>
      have hlt := hless s t hnext
      omega
  | succ n ih =>
    unfold serve
    split
    · assumption
    · next t hnext =>
      have hlt := hless s t hnext
      exact ih (by omega)

end Iso15118.Lib
