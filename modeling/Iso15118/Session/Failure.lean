import Iso15118.Session.Flow
import Iso15118.Session.Latch

/-!
# The failure latch behind one type

`Session/Latch` at the level the engines work on: a flow that has failed accepts a `SessionStopReq`
and nothing else, and a flow that is over accepts nothing at all.
-/

namespace Iso15118.Session.Flow

/-- The latch `Flow.recordFailure` sets. -/
def failed : Flow → Bool
  | .iso2 s => s.failed
  | .iso20 s => s.failed

@[simp] theorem failed_recordFailure (flow : Flow) : flow.recordFailure.failed = true := by
  cases flow <;> rfl

/-- Recording a failure shows on every flow that has not failed before. -/
theorem recordFailure_eq_self {flow : Flow} : flow.recordFailure = flow ↔ flow.failed = true := by
  constructor
  · intro h
    rw [← h]
    exact failed_recordFailure flow
  · intro h
    cases flow with
    | iso2 s =>
      cases s
      cases h
      rfl
    | iso20 s =>
      cases s
      cases h
      rfl

@[simp] theorem isFinished_recordFailure (flow : Flow) :
    flow.recordFailure.isFinished = flow.isFinished := by
  cases flow <;> rfl

@[simp] theorem phaseName_recordFailure (flow : Flow) :
    flow.recordFailure.phaseName = flow.phaseName := by
  cases flow <;> rfl

theorem failed_of_resume {flow flow' : Flow} {t : Iso20.EnergyTransfer}
    (h : flow.resume t = .ok flow') : flow'.failed = flow.failed := by
  cases flow with
  | iso2 s => cases h
  | iso20 s =>
    cases h
    rfl

/-- What is accepted after a failure stops the session. -/
theorem stops_of_failed {flow flow' : Flow} {m : Message} (hfailed : flow.failed = true)
    (h : flow.accept m = (.ok (), flow')) :
    m.name = "SessionStopReq" ∧ flow'.failed = true ∧ flow'.isFinished = true := by
  cases flow with
  | iso2 s =>
    rcases accept_iso2_cases s m with ⟨-, h'⟩ | ⟨r, e, -, h'⟩ | ⟨r, p, hof, hnext, h'⟩
    · rw [h'] at h
      cases h
    · rw [h'] at h
      cases h
    · rw [h'] at h
      cases h
      obtain ⟨hstops, hover⟩ :=
        (Iso2.Sequencer.arrow_of_nextPhase hnext).stops_of_failed hfailed
      refine ⟨?_, hfailed, decide_eq_true hover⟩
      rw [Iso2.Request.name_of hof]
      rcases hstops with rfl | rfl <;> rfl
  | iso20 s =>
    rcases accept_iso20_cases s m with ⟨-, h'⟩ | ⟨r, e, -, h'⟩ | ⟨r, p, hof, -, hnext, h'⟩
    · rw [h'] at h
      cases h
    · rw [h'] at h
      cases h
    · rw [h'] at h
      cases h
      obtain ⟨hstops, hover⟩ :=
        (Iso20.Sequencer.arrow_of_nextPhase hnext).stops_of_failed hfailed
      refine ⟨?_, hfailed, decide_eq_true hover⟩
      rcases hstops with rfl | rfl
      · exact Iso20.Request.name_of hof (.inr ⟨_, rfl⟩)
      · exact Iso20.Request.name_of hof (.inr ⟨_, rfl⟩)

theorem not_accept_of_isFinished {flow flow' : Flow} {m : Message}
    (hfinished : flow.isFinished = true) (h : flow.accept m = (.ok (), flow')) : False := by
  cases flow with
  | iso2 s =>
    rcases accept_iso2_cases s m with ⟨-, h'⟩ | ⟨r, e, -, h'⟩ | ⟨r, p, -, hnext, -⟩
    · rw [h'] at h
      cases h
    · rw [h'] at h
      cases h
    · exact not_or.mpr (Iso2.Sequencer.arrow_of_nextPhase hnext).not_over
        (of_decide_eq_true hfinished)
  | iso20 s =>
    rcases accept_iso20_cases s m with ⟨-, h'⟩ | ⟨r, e, -, h'⟩ | ⟨r, p, -, -, hnext, -⟩
    · rw [h'] at h
      cases h
    · rw [h'] at h
      cases h
    · exact not_or.mpr (Iso20.Sequencer.arrow_of_nextPhase hnext).not_over
        (of_decide_eq_true hfinished)

/-! ## The flow of a session

The same of the flow that an engine keeps, where there is one. -/

/-- The session has a flow, and it has failed. -/
def Latched (flow : Option Flow) : Prop := ∃ f, flow = some f ∧ f.failed = true

/-- The flow has failed and is over: no request gets past it. -/
def Ended (flow : Option Flow) : Prop :=
  ∃ f, flow = some f ∧ f.failed = true ∧ f.isFinished = true

theorem latched_recordFailure {flow : Option Flow} (h : flow.isSome = true) :
    Latched (flow.map recordFailure) := by
  obtain ⟨f, rfl⟩ := Option.isSome_iff_exists.mp h
  exact ⟨_, rfl, f.failed_recordFailure⟩

theorem Latched.isSome {flow : Option Flow} (h : Latched flow) : flow.isSome = true := by
  obtain ⟨f, rfl, -⟩ := h
  rfl

theorem Ended.latched {flow : Option Flow} (h : Ended flow) : Latched flow := by
  obtain ⟨f, rfl, hfailed, -⟩ := h
  exact ⟨f, rfl, hfailed⟩

theorem Ended.recordFailure {flow : Option Flow} (h : Ended flow) :
    Ended (flow.map Flow.recordFailure) := by
  obtain ⟨f, rfl, -, hfinished⟩ := h
  exact ⟨_, rfl, f.failed_recordFailure, f.isFinished_recordFailure.trans hfinished⟩

theorem Latched.accept {flow : Option Flow} {f f' : Flow} {m : Message} (h : Latched flow)
    (hf : flow = some f) (haccept : f.accept m = (.ok (), f')) :
    m.name = "SessionStopReq" ∧ Ended (some f') := by
  obtain ⟨g, hg, hfailed⟩ := h
  obtain rfl := Option.some.inj (hf.symm.trans hg)
  obtain ⟨hname, hfailed', hfinished⟩ := stops_of_failed hfailed haccept
  exact ⟨hname, f', rfl, hfailed', hfinished⟩

theorem Ended.not_accept {flow : Option Flow} {f f' : Flow} {m : Message} (h : Ended flow)
    (hf : flow = some f) : f.accept m ≠ (.ok (), f') := by
  obtain ⟨g, hg, -, hfinished⟩ := h
  obtain rfl := Option.some.inj (hf.symm.trans hg)
  exact fun haccept => not_accept_of_isFinished hfinished haccept

end Iso15118.Session.Flow
