import Iso15118.Session.Failure
import Iso15118.Session.Timers
import Iso15118.Lib.Run

/-!
# The loop budget of a phase

Both drivers bound a phase that may repeat with one timer. It is set when the phase is entered,
and what repeats inside the phase leaves it alone.

* **`Pace`** — what of a driver this depends on, and **`Pace.Advance`** — how a call made at some
  instant may move it;
* **`Pace.onBudget_of_since`** — over a run of any driver whose calls move it that way, the timer
  is where it was set when the phase was entered.
-/

namespace Iso15118.Session

open Iso15118.Lib

/-! ## The phase decides the budget

A budget depends on the phase alone. Phases are compared by name here, as the drivers do it. -/

theorem Iso2.Phase.name_injective : Function.Injective Iso2.Phase.name := by
  intro p q h
  cases p <;> cases q <;> first | rfl | exact absurd h (by decide)

theorem Iso20.Phase.name_injective : Function.Injective Iso20.Phase.name := by
  intro p q h
  cases p <;> cases q <;> first | rfl | exact absurd h (by decide)

namespace Flow

theorem loopTimeout_recordFailure (flow : Flow) (role : Role) (budgets : LoopBudgets) :
    flow.recordFailure.loopTimeout role budgets = flow.loopTimeout role budgets := by
  cases flow <;> rfl

/-- A phase of a generation has one budget, whatever else the flow has recorded. -/
theorem loopTimeout_of_phaseName {flow flow' : Flow} (hprotocol : flow'.protocol = flow.protocol)
    (hphase : flow'.phaseName = flow.phaseName) (role : Role) (budgets : LoopBudgets) :
    flow'.loopTimeout role budgets = flow.loopTimeout role budgets := by
  cases flow with
  | iso2 s =>
    cases flow' with
    | iso2 s' =>
      have hsame : s'.phase = s.phase := Iso2.Phase.name_injective hphase
      simp only [loopTimeout, isDcSafetyPhase, hsame]
      rfl
    | iso20 s' => cases hprotocol
  | iso20 s =>
    cases flow' with
    | iso2 s' => cases hprotocol
    | iso20 s' =>
      have hsame : s'.phase = s.phase := Iso20.Phase.name_injective hphase
      simp only [loopTimeout, isDcSafetyPhase, hsame]
      rfl

/-- The first phase is not one that repeats. -/
theorem loopTimeout_of_atStart {flow : Flow} (h : flow.AtStart) (role : Role)
    (budgets : LoopBudgets) : flow.loopTimeout role budgets = none := by
  cases flow with
  | iso2 s =>
    have hstart : s.phase = .start := h
    simp only [loopTimeout, hstart, Iso2.Phase.loopTimeout, Option.map_none]
  | iso20 s =>
    have hstart : s.phase = .start := h
    simp only [loopTimeout, hstart, Iso20.Phase.loopTimeout, Option.map_none]

end Flow

/-! ## A driver's pace

The few fields of a driver that its budget depends on, and how a call may move them. Moves can be
put in a row, so a call that does several things is one move. -/

/-- What of a driver its loop budget depends on. -/
structure Pace where
  flow : Option Flow
  /-- The phase the driver remembers having entered. -/
  phase : Option String
  /-- The deadline of `Timer.ongoing`. -/
  ongoing : Option Instant
  closed : Bool
  budgets : LoopBudgets

namespace Pace

/-- The phase the flow is in. -/
def current (p : Pace) : Option String := p.flow.map Flow.phaseName

/-- What the phase may take. -/
def budget (role : Role) (p : Pace) : Option Millis :=
  p.flow.bind fun flow => flow.loopTimeout role p.budgets

/-- The driver remembers the phase the flow is in, from the first request on. -/
structure InPhase (p : Pace) : Prop where
  remembered : ∀ name, p.phase = some name → p.current = some name
  fresh : p.phase = none → p.ongoing = none ∧ ∀ flow, p.flow = some flow → flow.AtStart
  past : p.closed = true → p.ongoing = none

/-- While the session is open the timer is where the phase put it that was entered by a call made
at `entry`, and once the session is over the timer does not run. -/
structure OnBudget (role : Role) (entry : Option Instant) (p : Pace) : Prop where
  running : p.closed = false →
    ∃ now, entry = some now ∧ p.ongoing = (p.budget role).map now.saturatingAdd
  stopped : p.closed = true → p.ongoing = none

/-- How a call made at `entry` may move a driver's pace: the session is over, the phase goes on and
the timer with it, or a phase is entered. -/
structure Advance (role : Role) (entry : Option Instant) (p p' : Pace) : Prop where
  inPhase : p.InPhase → p'.InPhase
  closed : p.closed = true → p'.closed = true
  ongoing : p.InPhase → p'.closed = true
    ∨ (p'.current = p.current ∧ p'.budget role = p.budget role ∧ p'.ongoing = p.ongoing)
    ∨ (p'.current ≠ p.current
        ∧ ∃ now, entry = some now ∧ p'.ongoing = (p'.budget role).map now.saturatingAdd)

variable {role : Role} {entry : Option Instant} {p q r : Pace}

theorem Advance.refl (p : Pace) : Advance role entry p p :=
  ⟨id, id, fun _ => .inr (.inl ⟨rfl, rfl, rfl⟩)⟩

/-- What leaves the phase as it is may come before anything. -/
theorem Advance.trans (h : Advance role entry p q) (hcurrent : q.current = p.current)
    (h' : Advance role entry q r) : Advance role entry p r := by
  refine ⟨fun hp => h'.inPhase (h.inPhase hp), fun hp => h'.closed (h.closed hp), fun hp => ?_⟩
  rcases h.ongoing hp with hclosed | ⟨-, hbudget, hsame⟩ | ⟨hnew, -⟩
  · exact .inl (h'.closed hclosed)
  · rcases h'.ongoing (h.inPhase hp) with hclosed | ⟨hphase', hbudget', hsame'⟩ | ⟨hnew, hdue⟩
    · exact .inl hclosed
    · exact .inr (.inl
        ⟨hphase'.trans hcurrent, hbudget'.trans hbudget, hsame'.trans hsame⟩)
    · exact .inr (.inr ⟨fun heq => hnew (heq.trans hcurrent.symm), hdue⟩)
  · exact absurd hcurrent hnew

theorem current_of_kept {flow : Option Flow}
    (h : flow = p.flow ∨ flow = p.flow.map Flow.recordFailure) :
    { p with flow := flow }.current = p.current := by
  rcases h with rfl | rfl
  · rfl
  · show Option.map Flow.phaseName _ = Option.map Flow.phaseName p.flow
    cases p.flow with
    | none => rfl
    | some f => exact congrArg some f.phaseName_recordFailure

/-- Nothing moves but the latch. -/
theorem Advance.kept {flow : Option Flow} (p : Pace)
    (hflow : flow = p.flow ∨ flow = p.flow.map Flow.recordFailure) :
    Advance role entry p { p with flow := flow } := by
  have hcurrent := current_of_kept hflow
  have hbudget : (flow.bind fun f => f.loopTimeout role p.budgets)
      = p.flow.bind fun f => f.loopTimeout role p.budgets := by
    rcases hflow with rfl | rfl
    · rfl
    · cases p.flow with
      | none => rfl
      | some f => exact f.loopTimeout_recordFailure role p.budgets
  refine ⟨fun hp => ⟨fun name hname => ?_, fun hnone => ?_, hp.past⟩, id, fun _ => ?_⟩
  · exact hcurrent.trans (hp.remembered name hname)
  · refine ⟨(hp.fresh hnone).1, fun f hf => ?_⟩
    rcases hflow with rfl | rfl
    · exact (hp.fresh hnone).2 f hf
    · obtain ⟨g, hg, rfl⟩ := Option.map_eq_some_iff.mp hf
      have hstart := (hp.fresh hnone).2 g hg
      cases g <;> exact hstart
  · exact .inr (.inl ⟨hcurrent, hbudget, rfl⟩)

/-- The session ends, and stops its timers. -/
theorem Advance.ended {q : Pace} (hclosed : q.closed = true) (hongoing : q.ongoing = none)
    (hphase : q.phase = p.phase) (hflow : q.flow = p.flow) : Advance role entry p q := by
  refine ⟨fun hp => ⟨fun name hname => ?_, fun hnone => ?_, fun _ => hongoing⟩, fun _ => hclosed,
    fun _ => .inl hclosed⟩
  · rw [current, hflow]
    exact hp.remembered name (hphase.symm.trans hname)
  · rw [hflow]
    exact ⟨hongoing, (hp.fresh (hphase.symm.trans hnone)).2⟩

theorem current_ne_of_isSome (hnone : p.flow = none) (hsome : q.flow.isSome = true) :
    q.current ≠ p.current := by
  obtain ⟨f, hf⟩ := Option.isSome_iff_exists.mp hsome
  rw [current, current, hf, hnone]
  exact Option.some_ne_none _

/-- The handshake gives the session its flow, at the start. -/
theorem Advance.agreed {flow : Flow} {now : Instant} (p : Pace) (hnone : p.flow = none)
    (hstart : flow.AtStart) : Advance role (some now) p { p with flow := some flow } := by
  have hfresh : p.InPhase → p.phase = none := by
    intro hp
    cases hphase : p.phase with
    | none => rfl
    | some name =>
      have hcurrent := hp.remembered name hphase
      rw [current, hnone] at hcurrent
      cases hcurrent
  refine ⟨fun hp => ⟨fun name hname => ?_, fun hphase => ?_, hp.past⟩, id, fun hp => ?_⟩
  · rw [show p.phase = some name from hname] at hfresh
    cases hfresh hp
  · refine ⟨(hp.fresh hphase).1, fun f hf => ?_⟩
    obtain rfl := Option.some.inj hf
    exact hstart
  · -- the first phase has no budget
    refine .inr (.inr ⟨current_ne_of_isSome hnone rfl, now, rfl, ?_⟩)
    show p.ongoing = Option.map _ (flow.loopTimeout role p.budgets)
    rw [Flow.loopTimeout_of_atStart hstart, (hp.fresh (hfresh hp)).1]
    rfl

/-- A session that had no flow is in a phase it was not in, however far the call goes. -/
theorem Advance.trans_of_none (hnone : p.flow = none) (h : Advance role entry p q)
    (hq : q.flow.isSome = true) (h' : Advance role entry q r) (hr : r.flow.isSome = true) :
    Advance role entry p r := by
  have hnew := current_ne_of_isSome hnone hr
  refine ⟨fun hp => h'.inPhase (h.inPhase hp), fun hp => h'.closed (h.closed hp), fun hp => ?_⟩
  rcases h'.ongoing (h.inPhase hp) with hclosed | ⟨-, hbudget, hsame⟩ | ⟨-, hdue⟩
  · exact .inl hclosed
  · rcases h.ongoing hp with hclosed | ⟨hcurrent, -, -⟩ | ⟨-, now, hentry, hdue⟩
    · exact .inl (h'.closed hclosed)
    · exact absurd hcurrent (current_ne_of_isSome hnone hq)
    · exact .inr (.inr ⟨hnew, now, hentry, by rw [hsame, hdue, hbudget]⟩)
  · exact .inr (.inr ⟨hnew, hdue⟩)

/-- A request is accepted: the phase it leads to goes on, or is entered. -/
theorem Advance.accepted {flow flow' : Flow} {now : Instant} {q : Pace} (hflow : p.flow = some flow)
    (hflow' : q.flow = some flow') (hprotocol : flow'.protocol = flow.protocol)
    (hphase : q.phase = some flow'.phaseName)
    (hongoing : q.ongoing = if p.phase = some flow'.phaseName then p.ongoing
      else (flow'.loopTimeout role p.budgets).map now.saturatingAdd)
    (hclosed : q.closed = p.closed) (hopen : p.closed = false) (hbudgets : q.budgets = p.budgets) :
    Advance role (some now) p q := by
  -- what is left to show is the last case: the session stays open, in the phase the request leads
  -- to
  have hcurrent : q.current = some flow'.phaseName := by
    rw [current, hflow']
    rfl
  have hbudget : q.budget role = flow'.loopTimeout role p.budgets := by
    rw [budget, hflow', hbudgets]
    rfl
  refine ⟨fun hp => ⟨fun name hname => ?_, fun hnone => ?_, fun hq => ?_⟩, fun hp => ?_,
    fun hp => ?_⟩
  · rw [hcurrent, ← hphase, hname]
  · rw [hphase] at hnone
    cases hnone
  · rw [hclosed, hopen] at hq
    cases hq
  · rw [hopen] at hp
    cases hp
  · by_cases hsame : p.phase = some flow'.phaseName
    · -- a repeat: the phase the driver remembers is the one the flow was in
      have hbefore := hp.remembered _ hsame
      rw [if_pos hsame] at hongoing
      refine .inr (.inl ⟨hcurrent.trans hbefore.symm, ?_, hongoing⟩)
      rw [current, hflow] at hbefore
      have hname : flow'.phaseName = flow.phaseName := (Option.some.inj hbefore).symm
      rw [hbudget, Flow.loopTimeout_of_phaseName hprotocol hname, budget, hflow]
      rfl
    · rw [if_neg hsame] at hongoing
      by_cases hcurrent' : q.current = p.current
      · -- only the first phase is not remembered, and it has no budget to start
        have hnone : p.phase = none := by
          cases hphase : p.phase with
          | none => rfl
          | some name =>
            rw [hphase, ← hp.remembered name hphase, ← hcurrent', hcurrent] at hsame
            exact absurd rfl hsame
        obtain ⟨hidle, hstart⟩ := hp.fresh hnone
        have hstart := Flow.loopTimeout_of_atStart (hstart flow hflow) role p.budgets
        rw [hcurrent, current, hflow] at hcurrent'
        have hname : flow'.phaseName = flow.phaseName := Option.some.inj hcurrent'
        have hnothing : flow'.loopTimeout role p.budgets = none := by
          rw [Flow.loopTimeout_of_phaseName hprotocol hname, hstart]
        refine .inr (.inl ⟨?_, ?_, ?_⟩)
        · rw [hcurrent, current, hflow]
          exact congrArg some hname
        · rw [hbudget, hnothing, budget, hflow]
          exact hstart.symm
        · rw [hongoing, hnothing, hidle]
          rfl
      -- the phase is another one, and has been entered
      · exact .inr (.inr ⟨hcurrent', now, rfl, by rw [hongoing, hbudget]⟩)

/-- A budget that runs belongs to a phase of a flow. -/
theorem InPhase.isSome (h : p.InPhase) {d : Instant}
    (hd : p.ongoing = some d) : p.flow.isSome = true := by
  cases hphase : p.phase with
  | none =>
    rw [(h.fresh hphase).1] at hd
    cases hd
  | some name =>
    have hcurrent := h.remembered name hphase
    obtain ⟨flow, hflow, -⟩ := Option.map_eq_some_iff.mp hcurrent
    rw [hflow]
    rfl

end Pace

/-! ## Over a run

What was entered last decides the deadline. The log is cut at the last entry, and no call since
has touched the timer. -/

section Run

universe u v

variable {σ : Type u} {α : Type v} {step : σ → α → σ} {view : σ → Pace} {role : Role}
  {entry : α → Option Instant} {F : σ → α → Prop} {I : σ → Prop} {A : α → Prop}

/-- The phase of the flow is another one after the call. -/
def Pace.Enters (view : σ → Pace) (t : Transition σ α) : Prop :=
  (view t.after).current ≠ (view t.before).current

/-- **The run rule.** `F` is for the calls that see the timer expire. Where all others advance the
pace, the timer is on the budget of the phase entered last, until a call sees it expire. Induction
on the run, last call first. -/
theorem Pace.onBudget_of_since (inPhase : ∀ s, I s → (view s).InPhase)
    (next : ∀ s a, I s → A a → I (step s a))
    (calm : ∀ s a, I s → A a → ¬ F s a → Advance role (entry a) (view s) (view (step s a)))
    (fired : ∀ s a, I s → A a → F s a → (view (step s a)).current = (view s).current)
    {s : σ} {calls : List α} (hs : I s) (hcalls : ∀ a ∈ calls, A a) {t : Transition σ α}
    {later : List (Transition σ α)} (hsince : Since (Enters view) (trace step s calls) t later)
    (hlater : ∀ x ∈ later, ¬ F x.before x.call) :
    OnBudget role (entry t.call) (view (run step s calls)) := by
  -- induction on the run from its end: the last call entered the phase, or one before it did
  induction calls using List.reverseRecOn generalizing later with
  | nil =>
    obtain ⟨earlier, heq, -⟩ := hsince
    cases List.append_eq_nil_iff.mp heq.symm |>.2
  | append_singleton calls a ih =>
    obtain ⟨hcalls, ha⟩ := List.forall_mem_append.mp hcalls
    have ha := ha a (List.mem_singleton_self a)
    have hI := run_of_invariant (I := I) (A := A) next hs hcalls
    have hI' := next _ a hI ha
    rw [trace_concat] at hsince
    rw [run_concat]
    have hover : (view (step (run step s calls) a)).closed = true →
        OnBudget role (entry t.call) (view (step (run step s calls) a)) :=
      fun hclosed => ⟨fun hopen => by simp [hopen] at hclosed, (inPhase _ hI').past⟩
    have hon : (∃ now, entry t.call = some now
          ∧ (view (step (run step s calls) a)).ongoing
            = ((view (step (run step s calls) a)).budget role).map now.saturatingAdd) →
        OnBudget role (entry t.call) (view (step (run step s calls) a)) :=
      fun hdue => ⟨fun _ => hdue, (inPhase _ hI').past⟩
    by_cases henters : Enters view (taken step (run step s calls) a)
    · -- the last call entered the phase
      obtain ⟨rfl, -⟩ := since_concat_of_mark henters hsince
      have hcalm : ¬ F (run step s calls) a := fun h => henters (fired _ a hI ha h)
      rcases (calm _ a hI ha hcalm).ongoing (inPhase _ hI) with
        hclosed | ⟨hsame, -, -⟩ | ⟨-, hdue⟩
      · exact hover hclosed
      · exact absurd hsame henters
      · exact hon hdue
    -- the last call has entered no phase, so the entry was before it
    · obtain ⟨later', rfl, hbefore⟩ := since_concat_of_not_mark henters hsince
      obtain ⟨hlater, hlast⟩ := List.forall_mem_append.mp hlater
      have hcalm : ¬ F (run step s calls) a := hlast _ (List.mem_singleton_self _)
      have hadvance := calm _ a hI ha hcalm
      have hbudgeted := ih hcalls hbefore hlater
      -- a driver that was closed stays so; otherwise the timer has been left alone
      cases hover' : (view (run step s calls)).closed with
      | true => exact hover (hadvance.closed hover')
      | false =>
        obtain ⟨now, hentry, hdue⟩ := hbudgeted.running hover'
        rcases hadvance.ongoing (inPhase _ hI) with
          hclosed | ⟨-, hbudget, hongoing⟩ | ⟨hnew, -⟩
        · exact hover hclosed
        · exact hon ⟨now, hentry, by rw [hongoing, hdue, hbudget]⟩
        · exact absurd hnew henters

/-- **What is over stays over.** Where no call opens a session that is closed, the timer of a closed
one is stopped and is never started again. -/
theorem Pace.stopped_of_closed (view : σ → Pace) (inPhase : ∀ s, I s → (view s).InPhase)
    (next : ∀ s a, I s → A a → I (step s a))
    (stays : ∀ s a, I s → A a → (view s).closed = true → (view (step s a)).closed = true)
    {s : σ} {before rest : List α} (hs : I s) (hcalls : ∀ a ∈ before ++ rest, A a)
    (hclosed : (view (run step s before)).closed = true) :
    (view (run step s (before ++ rest))).closed = true
      ∧ (view (run step s (before ++ rest))).ongoing = none := by
  obtain ⟨hbefore, hrest⟩ := List.forall_mem_append.mp hcalls
  have hstart : I (run step s before) := run_of_invariant (I := I) (A := A) next hs hbefore
  obtain ⟨hend, hover⟩ := run_of_invariant (I := fun t => I t ∧ (view t).closed = true) (A := A)
    (fun t a ht ha => ⟨next t a ht.1 ha, stays t a ht.1 ha ht.2⟩) ⟨hstart, hclosed⟩ hrest
  rw [run_append]
  exact ⟨hover, (inPhase _ hend).past hover⟩

/-- The phase is entered by the call in question, and by none of those after it. -/
theorem Pace.since_of_enters (step : σ → α → σ) (view : σ → Pace) (s : σ) (before : List α) (a : α)
    (rest : List α)
    (henters : (view (step (run step s before) a)).current ≠ (view (run step s before)).current)
    (hrest : ∀ x ∈ trace step (step (run step s before) a) rest,
      (view x.after).current = (view x.before).current) :
    Since (Enters view) (trace step s (before ++ a :: rest)) (taken step (run step s before) a)
      (trace step (step (run step s before) a) rest) := by
  refine ⟨trace step s before, ?_, henters, fun x hx hx' => hx' (hrest x hx)⟩
  rw [trace_append]
  rfl

end Run

end Iso15118.Session
