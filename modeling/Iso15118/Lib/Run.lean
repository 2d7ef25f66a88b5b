import Mathlib.Data.List.Basic
import Mathlib.Data.List.Induction

/-!
# Runs of a deterministic machine

A driver, a sequencer or a protocol engine is used here as a function
`step : σ → α → σ`: the caller makes one call `a : α` after another and the state moves on.
This module holds what every development about such machines needs and nothing about any one
of them:

* **`run`** — the state after a list of calls, and **`outputs`** — everything the calls put
  out on the way (requests accepted, frames queued, events raised), in order;
* **`run_of_invariant`**, **`forall_outputs_of_invariant`** — what one call keeps, and what it
  puts out under it, over a whole run, and **`latched_of_invariant`** for a machine that is done
  with the first thing it puts out;
* **`Along`** — every call of the run met a condition on what came before it, and
  **`Along.induction`** — the run rule: what holds of the empty run and is kept by one
  conforming call holds of the whole run;
* **`live`** — whether a log that switches something on and off leaves it on, and **`Answered`**
  — every entry that switches on is followed by one that switches off;
* **`trace`** — the history of a run as a list of transitions, with **`invariant_of_along`** and
  **`along_of_invariant`**, the run rule for invariants of history and state;
* **`Since`** — the last marked entry of a log and what came after it;
* **`Steps`** — the steps one call takes before it returns, each with a record of what it did, and
  **`Steps.invariant`** — what every step keeps of history and state, the whole call keeps.
-/

namespace Iso15118.Lib

universe u v w

variable {σ : Type u} {α : Type v} {β : Type w}

/-! ## Runs and what they put out

A run is a left fold, and its outputs are collected along it. A run of two lists is the second
after the first, which gives the equations for a call in front and for one at the end. -/

/-- The state after `calls`, made one after another from `s`. -/
def run (step : σ → α → σ) (s : σ) (calls : List α) : σ :=
  calls.foldl step s

/-- Everything `calls` put out from `s`, in order; `out s a` is what call `a` puts out when it
is made in state `s`. -/
def outputs (step : σ → α → σ) (out : σ → α → List β) : σ → List α → List β
  | _, [] => []
  | s, a :: rest => out s a ++ outputs step out (step s a) rest

variable {step : σ → α → σ} {out : σ → α → List β}

@[simp] theorem run_nil (s : σ) : run step s [] = s := rfl

@[simp] theorem run_cons (s : σ) (a : α) (calls : List α) :
    run step s (a :: calls) = run step (step s a) calls := rfl

theorem run_append (s : σ) (xs ys : List α) :
    run step s (xs ++ ys) = run step (run step s xs) ys := by
  unfold run
  rw [List.foldl_append]

@[simp] theorem run_concat (s : σ) (xs : List α) (a : α) :
    run step s (xs ++ [a]) = step (run step s xs) a := by
  rw [run_append, run_cons, run_nil]

@[simp] theorem outputs_nil (s : σ) : outputs step out s [] = [] := rfl

@[simp] theorem outputs_cons (s : σ) (a : α) (calls : List α) :
    outputs step out s (a :: calls) = out s a ++ outputs step out (step s a) calls := rfl

theorem outputs_append (s : σ) (xs ys : List α) :
    outputs step out s (xs ++ ys)
      = outputs step out s xs ++ outputs step out (run step s xs) ys := by
  induction xs generalizing s with
  | nil => rfl
  | cons a xs ih =>
    rw [List.cons_append, outputs_cons, ih, run_cons, outputs_cons, List.append_assoc]

@[simp] theorem outputs_concat (s : σ) (xs : List α) (a : α) :
    outputs step out s (xs ++ [a]) = outputs step out s xs ++ out (run step s xs) a := by
  rw [outputs_append, outputs_cons, outputs_nil, List.append_nil]

/-! ## Invariants of the state

`A` is what the calls of the run are limited to; a machine without such a limit takes it to be
everything. -/

section Invariant

variable {I D : σ → Prop} {A : α → Prop} {Q : β → Prop}

/-- What one call keeps, a run keeps. -/
theorem run_of_invariant (next : ∀ s a, I s → A a → I (step s a)) {s : σ} {calls : List α}
    (hs : I s) (hok : ∀ a ∈ calls, A a) : I (run step s calls) := by
  induction calls generalizing s with
  | nil => exact hs
  | cons a calls ih =>
    obtain ⟨ha, hrest⟩ := List.forall_mem_cons.mp hok
    exact ih (next s a hs ha) hrest

/-- What the invariant says of the outputs of one call holds of all outputs of a run. -/
theorem forall_outputs_of_invariant (next : ∀ s a, I s → A a → I (step s a))
    (each : ∀ s a, I s → A a → ∀ b ∈ out s a, Q b) {s : σ} {calls : List α}
    (hs : I s) (hok : ∀ a ∈ calls, A a) : ∀ b ∈ outputs step out s calls, Q b := by
  induction calls generalizing s with
  | nil => exact fun b hb => (by cases hb)
  | cons a calls ih =>
    obtain ⟨ha, hrest⟩ := List.forall_mem_cons.mp hok
    rw [outputs_cons]
    exact List.forall_mem_append.mpr ⟨each s a hs ha, ih (next s a hs ha) hrest⟩

theorem outputs_eq_nil (done : ∀ s a, D s → A a → out s a = [] ∧ D (step s a)) {s : σ}
    {calls : List α} (hs : D s) (hok : ∀ a ∈ calls, A a) : outputs step out s calls = [] := by
  induction calls generalizing s with
  | nil => rfl
  | cons a calls ih =>
    obtain ⟨ha, hrest⟩ := List.forall_mem_cons.mp hok
    obtain ⟨hout, hd⟩ := done s a hs ha
    rw [outputs_cons, hout, ih hd hrest, List.nil_append]

/-- A machine whose first output takes it to where it puts out nothing more has one output at
most. -/
theorem length_outputs_le_one
    (next : ∀ s a, I s → A a →
      (out s a = [] ∧ I (step s a)) ∨ ((out s a).length ≤ 1 ∧ D (step s a)))
    (done : ∀ s a, D s → A a → out s a = [] ∧ D (step s a)) {s : σ} {calls : List α}
    (hs : I s) (hok : ∀ a ∈ calls, A a) : (outputs step out s calls).length ≤ 1 := by
  induction calls generalizing s with
  | nil => exact Nat.zero_le 1
  | cons a calls ih =>
    obtain ⟨ha, hrest⟩ := List.forall_mem_cons.mp hok
    rw [outputs_cons]
    rcases next s a hs ha with ⟨hout, hi⟩ | ⟨hout, hd⟩
    · rw [hout, List.nil_append]
      exact ih hi hrest
    · rw [outputs_eq_nil done hd hrest, List.append_nil]
      exact hout

/-- **The latch rule.** Where a call under `I` puts out nothing, or one thing that is as `Q` says
and takes the machine to where it is done, a run under `I` puts out nothing but such things, and
one at most as long as no call takes the machine back. -/
theorem latched_of_invariant
    (next : ∀ s a, I s →
      I (step s a) ∧ (out s a = [] ∨ ∃ b, out s a = [b] ∧ Q b ∧ D (step s a)))
    (done : ∀ s a, D s → A a → out s a = [] ∧ D (step s a)) {s : σ} (hs : I s)
    (calls : List α) :
    I (run step s calls) ∧ (∀ b ∈ outputs step out s calls, Q b)
      ∧ ((∀ a ∈ calls, A a) → (outputs step out s calls).length ≤ 1) := by
  have hall : ∀ a ∈ calls, True := fun _ _ => trivial
  refine ⟨?_, ?_, fun hok => ?_⟩
  · exact run_of_invariant (I := I) (fun s a h _ => (next s a h).1) hs hall
  · refine forall_outputs_of_invariant (I := I) (fun s a h _ => (next s a h).1) ?_ hs hall
    intro s a h _ b hb
    rcases (next s a h).2 with hout | ⟨b', hout, hq, -⟩
    · rw [hout] at hb
      cases hb
    · rw [hout] at hb
      rw [List.mem_singleton.mp hb]
      exact hq
  · refine length_outputs_le_one (I := I) (D := D) (A := A) ?_ done hs hok
    intro s a h _
    rcases next s a h with ⟨hi, hout | ⟨b, hout, -, hd⟩⟩
    · exact .inl ⟨hout, hi⟩
    · exact .inr ⟨by rw [hout]; exact Nat.le_refl 1, hd⟩

end Invariant

/-! ## Conditions along a run

`Along R calls`: each call of the run meets `R`, which sees the calls made before it and so,
through `run` and `outputs`, the state it is made in and everything put out so far. -/

/-- Each call of the run meets `R`, given the calls before it. -/
def Along (R : List α → α → Prop) (calls : List α) : Prop :=
  ∀ before a after, calls = before ++ a :: after → R before a

variable {R : List α → α → Prop}

@[simp] theorem along_nil : Along R [] := by
  intro before a after h
  cases List.append_eq_nil_iff.mp h.symm |>.2

theorem along_cons (a : α) (calls : List α) :
    Along R (a :: calls) ↔ R [] a ∧ Along (fun before b => R (a :: before) b) calls := by
  constructor
  · intro h
    refine ⟨h [] a calls rfl, fun before b after heq => ?_⟩
    exact h (a :: before) b after (by rw [heq, List.cons_append])
  · rintro ⟨ha, hrest⟩ before b after heq
    cases before with
    | nil =>
      obtain ⟨rfl, -⟩ := List.cons.inj heq
      exact ha
    | cons c before =>
      obtain ⟨rfl, htail⟩ := List.cons.inj heq
      exact hrest before b after htail

theorem along_concat (calls : List α) (a : α) :
    Along R (calls ++ [a]) ↔ Along R calls ∧ R calls a := by
  constructor
  · intro h
    refine ⟨fun before b after heq => ?_, h calls a [] rfl⟩
    exact h before b (after ++ [a]) (by rw [heq, List.append_assoc, List.cons_append])
  · rintro ⟨hcalls, ha⟩ before b after heq
    rcases List.eq_nil_or_concat after with rfl | ⟨mid, c, rfl⟩
    · obtain ⟨rfl, hab⟩ := List.append_inj' heq rfl
      rwa [← List.singleton_inj.mp hab]
    · rw [List.concat_eq_append] at heq
      have heq' : calls ++ [a] = (before ++ b :: mid) ++ [c] := by simpa using heq
      obtain ⟨hcalls', -⟩ := List.append_inj' heq' rfl
      exact hcalls before b mid hcalls'

theorem along_append (xs ys : List α) :
    Along R (xs ++ ys) ↔ Along R xs ∧ Along (fun before b => R (xs ++ before) b) ys := by
  induction ys using List.reverseRecOn with
  | nil =>
    rw [List.append_nil]
    exact ⟨fun h => ⟨h, along_nil⟩, fun h => h.1⟩
  | append_singleton ys a ih => rw [← List.append_assoc, along_concat, along_concat, ih, and_assoc]

instance Along.decidable : ∀ (calls : List α) (R : List α → α → Prop)
    [∀ before a, Decidable (R before a)], Decidable (Along R calls)
  | [], _, _ => isTrue along_nil
  | a :: calls, R, _ =>
      have := Along.decidable calls (fun before b => R (a :: before) b)
      decidable_of_iff _ (along_cons a calls).symm

/-- A condition that does not look back is one on every entry. -/
theorem along_const {Q : α → Prop} {calls : List α} :
    Along (fun _ a => Q a) calls ↔ ∀ a ∈ calls, Q a := by
  constructor
  · intro h a ha
    obtain ⟨before, after, rfl⟩ := List.mem_iff_append.mp ha
    exact h before a after rfl
  · intro h before a after heq
    exact h a (heq ▸ List.mem_append_right _ (List.mem_cons_self ..))

theorem Along.of_append {xs ys : List α} (h : Along R (xs ++ ys)) : Along R xs := by
  intro before a after heq
  exact h before a (after ++ ys) (by rw [heq, List.append_assoc, List.cons_append])

/-- **The run rule.** What holds of the empty run and survives one more conforming call holds
of the whole run. The motive is about the calls made so far, so it can speak of the history as
well as of the state they reach. -/
theorem Along.induction {calls : List α} (h : Along R calls) {motive : List α → Prop}
    (nil : motive []) (concat : ∀ xs a, motive xs → R xs a → motive (xs ++ [a])) :
    motive calls := by
  induction calls using List.reverseRecOn with
  | nil => exact nil
  | append_singleton xs a ih =>
    obtain ⟨hxs, ha⟩ := (along_concat xs a).mp h
    exact concat xs a (ih hxs) ha

/-! ## Switching something on and off

A log whose entries switch something on, switch it off, or leave it alone. "Whatever was
switched on has been switched off since" is then one bit, carried along the log. -/

/-- Whether the log leaves the thing switched on. -/
def live (on off : β → Bool) (log : List β) : Bool :=
  log.foldl (fun b x => if on x then true else if off x then false else b) false

variable {on off : β → Bool}

@[simp] theorem live_nil : live on off [] = false := rfl

@[simp] theorem live_concat (log : List β) (x : β) :
    live on off (log ++ [x])
      = if on x then true else if off x then false else live on off log := by
  unfold live
  rw [List.foldl_append]
  rfl

/-- Every entry that switches on is followed by one that switches off. -/
def Answered (on off : β → Bool) (log : List β) : Prop :=
  ∀ before x after, log = before ++ x :: after → on x = true → ∃ y ∈ after, off y = true

/-- Everything switched on in the log is switched off later in it exactly when the log leaves
it off. Induction on the log, last entry first. -/
theorem live_eq_false_iff (log : List β) : live on off log = false ↔ Answered on off log := by
  induction log using List.reverseRecOn with
  | nil => simp [Answered]
  | append_singleton log z ih =>
    rw [live_concat]
    constructor
    · intro h before x after heq hx
      rcases List.eq_nil_or_concat after with rfl | ⟨mid, w, rfl⟩
      · -- the entry in question is the last one, and it switches on
        obtain ⟨rfl, hzx⟩ := List.append_inj' heq rfl
        rw [List.singleton_inj.mp hzx, if_pos hx] at h
        cases h
      · rw [List.concat_eq_append] at heq ⊢
        have heq' : log ++ [z] = (before ++ x :: mid) ++ [w] := by simpa using heq
        obtain ⟨hlog, hzw⟩ := List.append_inj' heq' rfl
        rw [List.singleton_inj.mp hzw] at h
        split at h
        · cases h
        · split at h
          · next hoff => exact ⟨w, by simp, hoff⟩
          · obtain ⟨y, hy, hoff⟩ := ih.mp h before x mid hlog hx
            exact ⟨y, List.mem_append_left _ hy, hoff⟩
    · intro h
      have hz : on z = false := by
        by_contra hon
        obtain ⟨y, hy, -⟩ := h log z [] rfl (by simpa using hon)
        cases hy
      rw [if_neg (by simp [hz])]
      split
      · rfl
      · next hoff =>
        refine ih.mpr fun before x after heq hx => ?_
        obtain ⟨y, hy, hyoff⟩ := h before x (after ++ [z]) (by rw [heq]; simp) hx
        rcases List.mem_append.mp hy with hy | hy
        · exact ⟨y, hy, hyoff⟩
        · rw [List.mem_singleton.mp hy] at hyoff
          exact absurd hyoff hoff

/-! ## Traces

The whole history of a run as one list of transitions, each with the state it was made in and
the state it left. A property of the run is then a condition along its trace. -/

/-- One call of a run: the state it was made in, the call, and the state it left. -/
structure Transition (σ : Type u) (α : Type v) where
  before : σ
  call : α
  after : σ
  deriving DecidableEq

/-- The transition `a` makes in `s`. -/
def taken (step : σ → α → σ) (s : σ) (a : α) : Transition σ α := ⟨s, a, step s a⟩

/-- The transitions of a run, in order. -/
def trace (step : σ → α → σ) (s : σ) (calls : List α) : List (Transition σ α) :=
  outputs step (fun s a => [taken step s a]) s calls

@[simp] theorem trace_cons (s : σ) (a : α) (calls : List α) :
    trace step s (a :: calls) = taken step s a :: trace step (step s a) calls := rfl

theorem trace_append (s : σ) (xs ys : List α) :
    trace step s (xs ++ ys) = trace step s xs ++ trace step (run step s xs) ys := outputs_append ..

@[simp] theorem trace_concat (s : σ) (calls : List α) (a : α) :
    trace step s (calls ++ [a]) = trace step s calls ++ [taken step (run step s calls) a] :=
  outputs_concat ..

theorem flatMap_trace (step : σ → α → σ) (s : σ) (calls : List α)
    (shown : Transition σ α → List β) :
    (trace step s calls).flatMap shown
      = outputs step (fun s a => shown (taken step s a)) s calls := by
  induction calls generalizing s with
  | nil => rfl
  | cons a calls ih => rw [trace_cons, List.flatMap_cons, ih, outputs_cons]

theorem eq_taken_of_mem_trace {s : σ} {calls : List α} {t : Transition σ α}
    (h : t ∈ trace step s calls) : t = taken step t.before t.call := by
  induction calls generalizing s with
  | nil => cases h
  | cons a calls ih =>
    rw [trace_cons] at h
    rcases List.mem_cons.mp h with rfl | h
    · rfl
    · exact ih h

/-- Every call of a run is made in a state the invariant holds of. -/
theorem before_of_invariant {I : σ → Prop} (next : ∀ s a, I s → I (step s a)) {s : σ}
    {calls : List α} (hs : I s) : ∀ t ∈ trace step s calls, I t.before := by
  refine forall_outputs_of_invariant (I := I) (A := fun _ => True) (fun s a h _ => next s a h) ?_
    hs fun _ _ => trivial
  intro s a h _ t ht
  rw [List.mem_singleton.mp ht]
  exact h

variable {C P : List (Transition σ α) → Transition σ α → Prop}

/-- **The trace rule.** An invariant of history and state that holds at the start and survives
every conforming transition holds after every conforming run. -/
theorem invariant_of_along {Inv : List (Transition σ α) → σ → Prop} {s₀ : σ} {calls : List α}
    (init : Inv [] s₀)
    (next : ∀ log s a, Inv log s → C log (taken step s a) →
      Inv (log ++ [taken step s a]) (step s a))
    (h : Along C (trace step s₀ calls)) : Inv (trace step s₀ calls) (run step s₀ calls) := by
  induction calls using List.reverseRecOn with
  | nil => exact init
  | append_singleton xs a ih =>
    rw [trace_concat] at h ⊢
    rw [run_concat]
    obtain ⟨hxs, ha⟩ := (along_concat _ _).mp h
    exact next _ _ a (ih hxs) ha

/-- The rule for an invariant that survives every transition. -/
theorem invariant_trace {I : List (Transition σ α) → σ → Prop} {s₀ : σ} (init : I [] s₀)
    (next : ∀ log s a, I log s → I (log ++ [taken step s a]) (step s a)) (calls : List α) :
    I (trace step s₀ calls) (run step s₀ calls) :=
  invariant_of_along (C := fun _ _ => True) init (fun log s a hs _ => next log s a hs)
    fun _ _ _ _ => trivial

/-- A condition along the trace, call by call. -/
theorem along_trace {s : σ} {calls : List α} :
    Along C (trace step s calls)
      ↔ Along (fun xs a => C (trace step s xs) (taken step (run step s xs) a)) calls := by
  induction calls using List.reverseRecOn with
  | nil => exact iff_of_true along_nil along_nil
  | append_singleton xs a ih => rw [trace_concat, along_concat, along_concat, ih]

/-- What follows from the invariant at each conforming transition holds along the run. -/
theorem along_of_invariant {Inv : List (Transition σ α) → σ → Prop} {s₀ : σ} {calls : List α}
    (init : Inv [] s₀)
    (next : ∀ log s a, Inv log s → C log (taken step s a) →
      Inv (log ++ [taken step s a]) (step s a))
    (each : ∀ log s a, Inv log s → C log (taken step s a) → P log (taken step s a))
    (h : Along C (trace step s₀ calls)) : Along P (trace step s₀ calls) := by
  induction calls using List.reverseRecOn with
  | nil => exact along_nil
  | append_singleton xs a ih =>
    rw [trace_concat] at h ⊢
    obtain ⟨hxs, ha⟩ := (along_concat _ _).mp h
    exact (along_concat _ _).mpr
      ⟨ih hxs, each _ _ a (invariant_of_along init next hxs) ha⟩

/-! ## Since the last marked entry

A log is cut at its last marked entry, and what came later carries no mark. One more entry either
is the new last one or is appended to what came later. -/

/-- `e` is the last marked entry of the log, and `later` is what came after it. -/
def Since (mark : β → Prop) (log : List β) (e : β) (later : List β) : Prop :=
  ∃ earlier, log = earlier ++ e :: later ∧ mark e ∧ ∀ x ∈ later, ¬ mark x

variable {mark : β → Prop} {log later : List β} {e x : β}

/-- A marked entry is the last marked one when it has just been logged. -/
theorem since_concat_self (h : mark x) : Since mark (log ++ [x]) x [] :=
  ⟨log, rfl, h, fun _ hy => by cases hy⟩

/-- An unmarked entry leaves the last marked one where it was. -/
theorem Since.concat (hsince : Since mark log e later) (h : ¬ mark x) :
    Since mark (log ++ [x]) e (later ++ [x]) := by
  obtain ⟨earlier, rfl, he, hlater⟩ := hsince
  refine ⟨earlier, by rw [List.append_assoc, List.cons_append], he, fun y hy => ?_⟩
  rcases List.mem_append.mp hy with hy | hy
  · exact hlater y hy
  · rw [List.mem_singleton.mp hy]
    exact h

theorem Since.append {more : List β} (hsince : Since mark log e later) (h : ∀ y ∈ more, ¬ mark y) :
    Since mark (log ++ more) e (later ++ more) := by
  induction more using List.reverseRecOn with
  | nil =>
    rw [List.append_nil, List.append_nil]
    exact hsince
  | append_singleton more y ih =>
    rw [← List.append_assoc, ← List.append_assoc]
    refine (ih fun z hz => h z (List.mem_append_left _ hz)).concat (h y ?_)
    exact List.mem_append_right _ (List.mem_singleton_self y)

theorem since_concat_of_mark {later : List β} (hmark : mark x)
    (h : Since mark (log ++ [x]) e later) : e = x ∧ later = [] := by
  obtain ⟨earlier, heq, -, hlater⟩ := h
  rcases List.eq_nil_or_concat later with rfl | ⟨mid, y, rfl⟩
  · obtain ⟨-, hx⟩ := List.append_inj' heq rfl
    exact ⟨(List.singleton_inj.mp hx).symm, rfl⟩
  · -- the marked entry would be among the later, unmarked ones
    rw [List.concat_eq_append] at heq hlater
    have heq' : log ++ [x] = (earlier ++ e :: mid) ++ [y] := by simpa using heq
    obtain ⟨-, hxy⟩ := List.append_inj' heq' rfl
    rw [List.singleton_inj.mp hxy] at hmark
    exact absurd hmark (hlater y (by simp))

theorem since_concat_of_not_mark {later : List β} (hmark : ¬ mark x)
    (h : Since mark (log ++ [x]) e later) :
    ∃ later', later = later' ++ [x] ∧ Since mark log e later' := by
  obtain ⟨earlier, heq, he, hlater⟩ := h
  rcases List.eq_nil_or_concat later with rfl | ⟨mid, y, rfl⟩
  · obtain ⟨-, hx⟩ := List.append_inj' heq rfl
    rw [List.singleton_inj.mp hx] at hmark
    exact absurd he hmark
  · rw [List.concat_eq_append] at heq hlater ⊢
    have heq' : log ++ [x] = (earlier ++ e :: mid) ++ [y] := by simpa using heq
    obtain ⟨hlog, hxy⟩ := List.append_inj' heq' rfl
    rw [List.singleton_inj.mp hxy]
    exact ⟨mid, rfl, earlier, hlog, he, fun z hz => hlater z (List.mem_append_left _ hz)⟩

/-- There is one last marked entry. Induction on the log, last entry first. -/
theorem Since.unique {e' : β} {later' : List β} (h : Since mark log e later)
    (h' : Since mark log e' later') : e = e' ∧ later = later' := by
  induction log using List.reverseRecOn generalizing later later' with
  | nil =>
    obtain ⟨earlier, heq, -⟩ := h
    cases List.append_eq_nil_iff.mp heq.symm |>.2
  | append_singleton log x ih =>
    by_cases hx : mark x
    · obtain ⟨rfl, rfl⟩ := since_concat_of_mark hx h
      obtain ⟨rfl, rfl⟩ := since_concat_of_mark hx h'
      exact ⟨rfl, rfl⟩
    · obtain ⟨mid, rfl, hmid⟩ := since_concat_of_not_mark hx h
      obtain ⟨mid', rfl, hmid'⟩ := since_concat_of_not_mark hx h'
      obtain ⟨rfl, rfl⟩ := ih hmid hmid'
      exact ⟨rfl, rfl⟩

/-! ## The steps of one call

A call that works in a loop takes several steps of one kind and puts something on record at each.
The invariant is asked of a step only; `Steps.invariant` carries it through the call. -/

/-- Steps one after another, with what they put on record. -/
inductive Steps (move : σ → List β → σ → Prop) : σ → List β → σ → Prop where
  | refl (s : σ) : Steps move s [] s
  | head {s t r : σ} {l l' : List β} (h : move s l t) (rest : Steps move t l' r) :
      Steps move s (l ++ l') r

namespace Steps

variable {move : σ → List β → σ → Prop} {s t r : σ} {l l' : List β}

theorem single (h : move s l t) : Steps move s l t := by
  have hstep := Steps.head h (.refl t)
  rwa [List.append_nil] at hstep

theorem trans (h : Steps move s l t) (h' : Steps move t l' r) : Steps move s (l ++ l') r := by
  induction h with
  | refl s => exact h'
  | head hstep _ ih =>
    rw [List.append_assoc]
    exact .head hstep (ih h')

/-- What every step keeps of history and state, a sequence of steps keeps. -/
theorem invariant {I : List β → σ → Prop}
    (next : ∀ log s l t, I log s → move s l t → I (log ++ l) t) {g : List β}
    (hs : I g s) (h : Steps move s l t) : I (g ++ l) t := by
  induction h generalizing g with
  | refl s =>
    rw [List.append_nil]
    exact hs
  | head hstep _ ih =>
    rw [← List.append_assoc]
    exact ih (next _ _ _ _ hs hstep)

end Steps

end Iso15118.Lib
