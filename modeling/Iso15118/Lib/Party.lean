import Iso15118.Lib.Run

/-!
# One party of a system

A system of several machines moves one party at a time: each of its actions is a call of one of
them, and leaves the others where they were. Then a run of the system is a run of every party,
on the calls that are its own.

* **`Party`** — `view` is the state of one party, and `own` picks its calls out of the actions;
* **`Party.run`** — the state the party is in after a run of the system;
* **`Party.trace`** — its history, read off the history of the system.
-/

namespace Iso15118.Lib

universe u v w x

variable {σ : Type u} {α : Type v} {τ : Type w} {β : Type x}

/-- An action of the system that is the party's own is a call of the party; any other leaves it
where it was. -/
structure Party (step : σ → α → σ) (call : τ → β → τ) (view : σ → τ) (own : α → Option β) :
    Prop where
  moves : ∀ s a b, own a = some b → view (step s a) = call (view s) b
  stays : ∀ s a, own a = none → view (step s a) = view s

/-- The party's part in a transition of the system, if the action is its own. -/
def turn (view : σ → τ) (own : α → Option β) (t : Transition σ α) : Option (Transition τ β) :=
  (own t.call).map fun b => ⟨view t.before, b, view t.after⟩

theorem turn_eq_some {view : σ → τ} {own : α → Option β} {t : Transition σ α}
    {p : Transition τ β} :
    turn view own t = some p ↔
      own t.call = some p.call ∧ view t.before = p.before ∧ view t.after = p.after := by
  unfold turn
  rw [Option.map_eq_some_iff]
  constructor
  · rintro ⟨b, hb, rfl⟩
    exact ⟨hb, rfl, rfl⟩
  · rintro ⟨hb, hbefore, hafter⟩
    refine ⟨p.call, hb, ?_⟩
    rw [hbefore, hafter]

namespace Party

variable {step : σ → α → σ} {call : τ → β → τ} {view : σ → τ} {own : α → Option β}

/-- After a run of the system the party is where its own calls take it. Induction on the run, last
action first. -/
theorem run (h : Party step call view own) (s : σ) (acts : List α) :
    view (Lib.run step s acts) = Lib.run call (view s) (acts.filterMap own) := by
  induction acts using List.reverseRecOn with
  | nil => rfl
  | append_singleton acts a ih =>
    rw [run_concat, List.filterMap_append]
    cases hown : own a with
    | none =>
      have hnone : [a].filterMap own = [] := by simp [hown]
      rw [h.stays _ _ hown, ih, hnone, List.append_nil]
    | some b =>
      have hsome : [a].filterMap own = [b] := by simp [hown]
      rw [h.moves _ _ _ hown, ih, hsome, run_concat]

/-- The party's history is its part in the history of the system. -/
theorem trace (h : Party step call view own) (s : σ) (acts : List α) :
    (Lib.trace step s acts).filterMap (turn view own)
      = Lib.trace call (view s) (acts.filterMap own) := by
  induction acts using List.reverseRecOn with
  | nil => rfl
  | append_singleton acts a ih =>
    rw [trace_concat, List.filterMap_append, List.filterMap_append, ih]
    cases hown : own a with
    | none => simp [hown, turn, taken]
    | some b =>
      have hsome : [a].filterMap own = [b] := by simp [hown]
      have hturn : turn view own (taken step (Lib.run step s acts) a)
          = some (taken call (Lib.run call (view s) (acts.filterMap own)) b) := by
        rw [turn_eq_some]
        refine ⟨hown, h.run s acts, ?_⟩
        show view (step _ a) = call _ b
        rw [h.moves _ _ _ hown, h.run s acts]
      rw [hsome, trace_concat, List.filterMap_cons, hturn]
      rfl

/-- What the party did in the run, it did in its own history. -/
theorem mem_trace (h : Party step call view own) {s : σ} {acts : List α} {t : Transition σ α}
    (ht : t ∈ Lib.trace step s acts) {p : Transition τ β} (hp : turn view own t = some p) :
    p ∈ Lib.trace call (view s) (acts.filterMap own) := by
  rw [← h.trace s acts]
  exact List.mem_filterMap.mpr ⟨t, ht, hp⟩

end Party

end Iso15118.Lib
