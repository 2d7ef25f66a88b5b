import Iso15118.Lib.Run
import Mathlib.Data.List.Forall2

/-!
# Two runs that differ by calls left out

What an outsider can do to a deterministic machine is a question about two runs: one with the
outsider's calls in it and one without them. Here the two runs are read off a single list, in
which the calls to leave out carry a mark.

* **`made`** and **`kept`** — all calls of a marked list, and those that stay;
* **`MarkedMeet.related`** — the two-run rule: a relation of states that a marked call does not
  leave, and that the same call on both sides keeps, holds between the two runs at their end;
* **`MarkedMeet.outputs_related`** — under the same rule, what the two runs put out is related
  entry by entry;
* **`MarkedMeet.trace_kept`** — where a marked call changes nothing at all, the history of the
  shorter run is the history of the longer one with the marked entries left out.

The condition on marked calls is one `Along` the run, so it may look at the state each of them is
delivered in. -/

namespace Iso15118.Lib

universe u v w

variable {σ τ : Type u} {α : Type v} {β : Type w}

/-! ## Marked calls

One list stands for both runs: `made` forgets the marks, `kept` drops what carries one. Both grow
at the end, where the last call is the one an induction on a run takes off. -/

/-- All calls of a marked list. -/
def made (calls : List (α × Bool)) : List α := calls.map Prod.fst

/-- The calls that stay when the marked ones are left out. -/
def kept (calls : List (α × Bool)) : List α :=
  (calls.filter fun c => !c.2).map Prod.fst

@[simp] theorem made_nil : made ([] : List (α × Bool)) = [] := rfl

@[simp] theorem kept_nil : kept ([] : List (α × Bool)) = [] := rfl

@[simp] theorem made_concat (calls : List (α × Bool)) (c : α × Bool) :
    made (calls ++ [c]) = made calls ++ [c.1] := by
  simp [made]

@[simp] theorem kept_concat_marked (calls : List (α × Bool)) (a : α) :
    kept (calls ++ [(a, true)]) = kept calls := by
  simp [kept]

@[simp] theorem kept_concat_unmarked (calls : List (α × Bool)) (a : α) :
    kept (calls ++ [(a, false)]) = kept calls ++ [a] := by
  simp [kept]

/-- Each marked call meets `N` in the state it is made in. -/
def MarkedMeet (step : σ → α → σ) (N : σ → α → Prop) (s : σ) (calls : List (α × Bool)) : Prop :=
  Along (fun before c => c.2 = true → N (run step s (made before)) c.1) calls

/-! ## The two-run rule

The relation is kept by the two kinds of steps the marked list can take, a marked call on one
side only and an unmarked one on both. What the runs put out is compared alongside, under the
same relation. -/

section Related

variable {step : σ → α → σ} {N : σ → α → Prop} {R : σ → σ → Prop} {out seen : σ → α → List β}
variable {s t : σ} {calls : List (α × Bool)}

/-- **The two-run rule.** A relation that survives a marked call on one side, and any call made
on both sides, holds between the end of the run and the end of what stays of it. Induction on the
marked list, last call first. -/
theorem MarkedMeet.related (h : MarkedMeet step N s calls) (init : R s t)
    (marked : ∀ s t a, R s t → N s a → R (step s a) t)
    (both : ∀ s t a, R s t → R (step s a) (step t a)) :
    R (run step s (made calls)) (run step t (kept calls)) := by
  refine Along.induction h (motive := fun calls =>
    R (run step s (made calls)) (run step t (kept calls))) init fun before c hrel hc => ?_
  obtain ⟨a, mark⟩ := c
  cases mark with
  | true =>
    rw [made_concat, kept_concat_marked, run_concat]
    exact marked _ _ a hrel (hc rfl)
  | false =>
    rw [made_concat, kept_concat_unmarked, run_concat, run_concat]
    exact both _ _ a hrel

/-- What the two runs put out is related entry by entry, when a marked call puts out nothing and
the answers of related states to one call are. -/
theorem MarkedMeet.outputs_related {P : β → β → Prop} (h : MarkedMeet step N s calls)
    (init : R s t) (marked : ∀ s t a, R s t → N s a → R (step s a) t)
    (both : ∀ s t a, R s t → R (step s a) (step t a))
    (silent : ∀ s a, N s a → out s a = [])
    (answer : ∀ s t a, R s t → List.Forall₂ P (out s a) (out t a)) :
    List.Forall₂ P (outputs step out s (made calls)) (outputs step out t (kept calls)) := by
  induction calls using List.reverseRecOn with
  | nil => exact .nil
  | append_singleton before c ih =>
    obtain ⟨hbefore, hc⟩ := (along_concat before c).mp h
    have hrel := MarkedMeet.related hbefore init marked both
    obtain ⟨a, mark⟩ := c
    cases mark with
    | true =>
      rw [made_concat, kept_concat_marked, outputs_concat, silent _ a (hc rfl), List.append_nil]
      exact ih hbefore
    | false =>
      rw [made_concat, kept_concat_unmarked, outputs_concat, outputs_concat]
      exact List.rel_append (ih hbefore) (answer _ _ a hrel)

/-- What the two runs put out is the same, when related states answer every call alike. -/
theorem MarkedMeet.outputs_kept (h : MarkedMeet step N s calls) (init : R s t)
    (marked : ∀ s t a, R s t → N s a → R (step s a) t)
    (both : ∀ s t a, R s t → R (step s a) (step t a))
    (silent : ∀ s a, N s a → out s a = [])
    (alike : ∀ s t a, R s t → out s a = out t a) :
    outputs step out s (made calls) = outputs step out t (kept calls) := by
  rw [← List.forall₂_eq_eq_eq]
  refine MarkedMeet.outputs_related h init marked both silent fun s t a hrel => ?_
  rw [List.forall₂_eq_eq_eq]
  exact alike s t a hrel

/-! ## Calls that change nothing

A special case: the relation is equality of the states. Then not only the ends of the two runs
agree but their histories, entry by entry. -/

/-- The transitions of a run whose calls are not marked. -/
def keptOf (calls : List (α × Bool)) (log : List (Transition σ α)) : List (Transition σ α) :=
  ((log.zip (calls.map Prod.snd)).filter fun t => !t.2).map Prod.fst

theorem length_trace (step : σ → α → σ) (s : σ) (calls : List α) :
    (trace step s calls).length = calls.length := by
  induction calls generalizing s with
  | nil => rfl
  | cons a calls ih => rw [trace_cons, List.length_cons, ih, List.length_cons]

/-- Where a marked call changes nothing, both runs reach the same state. -/
theorem MarkedMeet.run_kept (h : MarkedMeet step N s calls)
    (still : ∀ s a, N s a → step s a = s) :
    run step s (made calls) = run step s (kept calls) := by
  refine MarkedMeet.related (R := Eq) h rfl ?_ ?_
  · intro s t a hst ha
    rw [still s a ha, hst]
  · intro s t a hst
    rw [hst]

/-- Whatever the calls show, when it is nothing for a marked call, is the same in both runs. -/
theorem MarkedMeet.shown_kept (h : MarkedMeet step N s calls)
    (still : ∀ s a, N s a → step s a = s) {shown : Transition σ α → List β}
    (silent : ∀ s a, N s a → shown (taken step s a) = []) :
    (trace step s (made calls)).flatMap shown = (trace step s (kept calls)).flatMap shown := by
  rw [flatMap_trace, flatMap_trace]
  refine MarkedMeet.outputs_kept (R := Eq) h rfl ?_ ?_ silent ?_
  · intro s t a hst ha
    rw [still s a ha, hst]
  · intro s t a hst
    rw [hst]
  · intro s t a hst
    rw [hst]

/-- Where a marked call changes nothing, the history without the marked calls is the history
with them, those entries left out. -/
theorem MarkedMeet.trace_kept (h : MarkedMeet step N s calls)
    (still : ∀ s a, N s a → step s a = s) :
    trace step s (kept calls) = keptOf calls (trace step s (made calls)) := by
  induction calls using List.reverseRecOn with
  | nil => rfl
  | append_singleton before c ih =>
    obtain ⟨hbefore, hc⟩ := (along_concat before c).mp h
    have hrun := MarkedMeet.run_kept hbefore still
    have hlen : (trace step s (made before)).length = (before.map Prod.snd).length := by
      rw [length_trace, made, List.length_map, List.length_map]
    obtain ⟨a, mark⟩ := c
    cases mark with
    | true =>
      rw [kept_concat_marked, made_concat, trace_concat, ih hbefore]
      unfold keptOf
      rw [List.map_append, List.zip_append hlen, List.filter_append, List.map_append]
      simp
    | false =>
      rw [kept_concat_unmarked, made_concat, trace_concat, trace_concat, ih hbefore, ← hrun]
      unfold keptOf
      rw [List.map_append, List.zip_append hlen, List.filter_append, List.map_append]
      simp

end Related

end Iso15118.Lib
