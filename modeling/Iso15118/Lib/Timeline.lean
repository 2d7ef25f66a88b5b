import Mathlib.Data.List.Chain
import Mathlib.Order.Bounds.Basic

/-!
# Step functions with an open end

A step function over a linear order is given as a list of pieces, each with the point it starts at
and, if it has an end, the one it stops at:

* **`Active`** — a point at which a piece is in force;
* **`Tiled`** — every piece starts after the one before it, which stops there: at a point at most
  one is active, **`Tiled.unique`**, and from the first start to the last stop there is one,
  **`Tiled.exists_active_iff`**;
* **`Active.max_right`** — two pieces that are ever active together are so from the later start on;
* **`Tiled.isLeast_of_first`** — of two such lists, walked through in two nested loops, the first
  pair found that is bad is the one that is bad earliest.
-/

namespace Iso15118.Lib

instance instLinearOrderUInt32 : LinearOrder UInt32 where
  le_refl := UInt32.le_refl
  le_trans _ _ _ := UInt32.le_trans
  lt_iff_le_not_ge _ _ :=
    ⟨fun h => ⟨UInt32.le_of_lt h, UInt32.not_le.mpr h⟩, fun h => UInt32.not_le.mp h.2⟩
  le_antisymm _ _ := UInt32.le_antisymm
  le_total := UInt32.le_total
  toDecidableLE := inferInstance
  toDecidableLT := inferInstance
  toDecidableEq := inferInstance

universe u v

variable {α : Type u} {τ : Type v} [LinearOrder τ] {start : α → τ} {stop : α → Option τ}

/-- The piece is in force at `t`. -/
def Active (start : α → τ) (stop : α → Option τ) (a : α) (t : τ) : Prop :=
  start a ≤ t ∧ ∀ e ∈ stop a, t < e

/-- Each piece starts after the one before it, which stops there. -/
def Tiled (start : α → τ) (stop : α → Option τ) (l : List α) : Prop :=
  l.IsChain fun a b => start a < start b ∧ stop a = some (start b)

/-! ## Two pieces

A piece that is active at a point has been so since it started. Where two are active together,
both already are at the later of their starts. -/

namespace Active

variable {a b : α} {t : τ}

/-- Two pieces that are both active at some point are so when the second one has started. -/
theorem max_right (ha : Active start stop a t) (hb : Active start stop b t) :
    Active start stop a (max (start a) (start b)) :=
  ⟨le_max_left _ _, fun e he => lt_of_le_of_lt (max_le ha.1 hb.1) (ha.2 e he)⟩

theorem max_left (ha : Active start stop a t) (hb : Active start stop b t) :
    Active start stop b (max (start a) (start b)) :=
  ⟨le_max_right _ _, fun e he => lt_of_le_of_lt (max_le ha.1 hb.1) (hb.2 e he)⟩

end Active

/-! ## A tiling

Consecutive pieces leave no gap and do not overlap, so that looking for the active piece has one
answer. Everything here is by induction on the list, where the rest of a tiling is a tiling
again. -/

namespace Tiled

variable {l xs ys : List α} {a b : α} {t u : τ}

theorem pairwise (h : Tiled start stop l) :
    l.Pairwise fun a b => start a < start b ∧ ∃ e ∈ stop a, e ≤ start b := by
  have htrans : Trans (fun a b : α => start a < start b ∧ ∃ e ∈ stop a, e ≤ start b)
      (fun a b => start a < start b ∧ ∃ e ∈ stop a, e ≤ start b)
      fun a b => start a < start b ∧ ∃ e ∈ stop a, e ≤ start b := by
    constructor
    rintro a b c ⟨hab, e, he, hle⟩ ⟨hbc, -⟩
    exact ⟨hab.trans hbc, e, he, hle.trans hbc.le⟩
  refine (List.IsChain.imp ?_ h).pairwise
  rintro a b ⟨hlt, hstop⟩
  exact ⟨hlt, start b, hstop, le_rfl⟩

/-- While a piece is active, none after it has started. -/
theorem lt_of_active (h : Tiled start stop (xs ++ a :: ys)) (hb : b ∈ ys)
    (ha : Active start stop a u) : u < start b := by
  have hpairs := (List.pairwise_append.mp h.pairwise).2.1
  obtain ⟨-, e, he, hle⟩ := (List.pairwise_cons.mp hpairs).1 b hb
  exact lt_of_lt_of_le (ha.2 e he) hle

theorem start_lt (h : Tiled start stop (xs ++ a :: ys)) (hb : b ∈ ys) : start a < start b :=
  ((List.pairwise_cons.mp (List.pairwise_append.mp h.pairwise).2.1).1 b hb).1

/-- One piece at most is active. -/
theorem unique (h : Tiled start stop l) (ha : a ∈ l) (hb : b ∈ l) (hat : Active start stop a t)
    (hbt : Active start stop b t) : a = b := by
  have hsymm : Std.Symm fun a b : α => ¬ (Active start stop a t ∧ Active start stop b t) :=
    ⟨fun a b hab hba => hab ⟨hba.2, hba.1⟩⟩
  have hpairs : l.Pairwise fun a b => ¬ (Active start stop a t ∧ Active start stop b t) := by
    refine h.pairwise.imp ?_
    rintro a b ⟨-, e, he, hle⟩ ⟨hat, hbt⟩
    exact absurd (hat.2 e he) (not_lt.mpr (hle.trans hbt.1))
  by_contra hne
  exact hpairs.forall ha hb hne ⟨hat, hbt⟩

/-- What is found first among the active pieces is the active one. -/
theorem find?_eq_some (h : Tiled start stop l) {p : α → Bool}
    (hp : ∀ b, p b = true ↔ Active start stop b t) :
    l.find? p = some a ↔ a ∈ l ∧ Active start stop a t := by
  constructor
  · intro hfind
    exact ⟨List.mem_of_find?_eq_some hfind, (hp a).mp (List.find?_some hfind)⟩
  · rintro ⟨hmem, hactive⟩
    cases hfind : l.find? p with
    | none => exact absurd ((hp a).mpr hactive) (List.find?_eq_none.mp hfind a hmem)
    | some b =>
      rw [h.unique (List.mem_of_find?_eq_some hfind) hmem ((hp b).mp (List.find?_some hfind))
        hactive]

/-- A tiling leaves no gap: from the start of the first piece to the stop of the last one, some
piece is active. -/
theorem exists_active_iff {first last : α}
    (h : Tiled start stop (first :: l)) (hlast : (first :: l).getLast? = some last)
    (hstop : ∀ e ∈ stop last, start last ≤ e) :
    (∃ a ∈ first :: l, Active start stop a t)
      ↔ start first ≤ t ∧ ∀ e ∈ stop last, t < e := by
  induction l generalizing first with
  | nil =>
    obtain rfl : first = last := by simpa using hlast
    simp [Active]
  | cons next l ih =>
    obtain ⟨⟨hlt, hnext⟩, hrest⟩ := List.isChain_cons_cons.mp h
    have hlast' : (next :: l).getLast? = some last := by
      rw [← hlast, List.getLast?_cons_cons]
    -- what has not reached the next piece has not reached the end of the last one
    have hbefore : t < start next → ∀ e ∈ stop last, t < e := by
      intro ht e he
      refine (ht.trans_le ?_).trans_le (hstop e he)
      rcases List.mem_cons.mp (List.mem_of_getLast? hlast') with heq | hmem
      · rw [heq]
      · exact ((List.pairwise_cons.mp (pairwise hrest)).1 last hmem).1.le
    have hfirst : Active start stop first t ↔ start first ≤ t ∧ t < start next := by
      simp [Active, hnext]
    rw [List.exists_mem_cons_iff, hfirst, ih hrest hlast']
    constructor
    · rintro (⟨hge, ht⟩ | ⟨hge, hend⟩)
      · exact ⟨hge, hbefore ht⟩
      · exact ⟨hlt.le.trans hge, hend⟩
    · rintro ⟨hge, hend⟩
      rcases lt_or_ge t (start next) with ht | ht
      · exact .inl ⟨hge, ht⟩
      · exact .inr ⟨ht, hend⟩

/-- **The first is the earliest.** Walk through `ws`, and for each of its pieces through `ls`: the
first bad pair that is ever active together is so at the least point at which any bad pair is. -/
theorem isLeast_of_first {bad : α → α → Prop} {ws ls wx wy lx ly : List α} {w m : α}
    (hw : Tiled start stop ws) (hl : Tiled start stop ls) (hws : ws = wx ++ w :: wy)
    (hls : ls = lx ++ m :: ly) (hbad : bad w m)
    (hwt : Active start stop w (max (start w) (start m)))
    (hmt : Active start stop m (max (start w) (start m)))
    (hbefore : ∀ w' ∈ wx, ∀ m' ∈ ls, ¬ bad w' m') (hrow : ∀ m' ∈ lx, ¬ bad w m') :
    IsLeast {t | ∃ w' ∈ ws, ∃ m' ∈ ls, Active start stop w' t ∧ Active start stop m' t ∧ bad w' m'}
      (max (start w) (start m)) := by
  subst hws hls
  refine ⟨⟨w, by simp, m, by simp, hwt, hmt, hbad⟩, ?_⟩
  rintro t ⟨w', hw', m', hm', hwt', hmt', hbad'⟩
  rcases List.mem_append.mp hw' with hw' | hw'
  · exact absurd hbad' (hbefore w' hw' m' hm')
  · rcases List.mem_cons.mp hw' with rfl | hw'
    · rcases List.mem_append.mp hm' with hm' | hm'
      · exact absurd hbad' (hrow m' hm')
      · rcases List.mem_cons.mp hm' with rfl | hm'
        · exact max_le hwt'.1 hmt'.1
        · exact max_le hwt'.1 ((hl.start_lt hm').le.trans hmt'.1)
    · exact (hw.lt_of_active hw' hwt).le.trans hwt'.1

end Tiled

end Iso15118.Lib
