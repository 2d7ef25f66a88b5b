import Iso15118.Session.Iso2.Sequencer
import Iso15118.Session.Iso20.Sequencer

/-!
# The failure latch

A `FAILED_*` response ends a session in all but name: what is left for the vehicle is to stop it.
Both sequencers keep that as one bit that `failed()` sets, and answer from `stopOnly` while it is
set. Here is what the bit is worth over a whole run: nothing but a stop is accepted any more, the
first one is the last, and no call clears it — not even a resume, after which the session may be
stopped once more and again do nothing else.
-/

namespace Iso15118.Session

open Iso15118.Lib

/-! ## ISO 15118-2

While the bit is set the table is not consulted, and no call clears it. What is accepted then
ends the session, so there is one such request. -/

namespace Iso2

/-- The two ways to end a session. -/
def Request.Stops (r : Request) : Prop := r = .sessionStop .terminate ∨ r = .sessionStop .pause

/-- The session is over. -/
def Phase.Over (p : Phase) : Prop := p = .stopped ∨ p = .paused

/-- A failed session accepts a stop, and is over with it. -/
theorem Sequencer.Arrow.stops_of_failed {s : Sequencer} {r : Request} {p : Phase}
    (h : s.Arrow r p) (hf : s.failed = true) : r.Stops ∧ p.Over := by
  cases h with
  | forward hf' _ =>
    rw [hf] at hf'
    cases hf'
  | terminate _ => exact ⟨.inl rfl, .inl rfl⟩
  | pause _ _ => exact ⟨.inr rfl, .inr rfl⟩

namespace Sequencer

/-- What a call does to a failed session: the latch stays, and either nothing is accepted or a stop
is, which ends it. -/
theorem call_of_failed {s : Sequencer} (h : s.failed = true) (c : Call) :
    (s.call c).failed = true
      ∧ (s.logs c = [] ∨ ∃ e, s.logs c = [e] ∧ e.request.Stops ∧ (s.call c).phase.Over) := by
  rcases s.call_cases c with ⟨hcall, hlog⟩ | ⟨hcall, hlog⟩ | ⟨r, p, -, harrow, hcall, hlog⟩
  · rw [hcall]
    exact ⟨h, .inl hlog⟩
  · rw [hcall]
    exact ⟨rfl, .inl hlog⟩
  · obtain ⟨hstops, hover⟩ := harrow.stops_of_failed h
    rw [hcall]
    exact ⟨h, .inr ⟨_, hlog, hstops, hover⟩⟩

theorem logs_of_over {s : Sequencer} (h : s.phase.Over) (c : Call) :
    s.logs c = [] ∧ (s.call c).phase.Over := by
  rcases s.call_cases c with ⟨hcall, hlog⟩ | ⟨hcall, hlog⟩ | ⟨r, p, -, harrow, -, -⟩
  · exact ⟨hlog, by rw [hcall]; exact h⟩
  · exact ⟨hlog, by rw [hcall]; exact h⟩
  · exact absurd h (not_or.mpr harrow.not_over)

/-- **The latch, over a run.** After `failed()`, whatever is called next: the latch stays, what
is accepted is a stop, and it is accepted once. -/
theorem latched (s : Sequencer) (rest : List Call) :
    (run call s.recordFailure rest).failed = true
      ∧ (∀ e ∈ outputs call logs s.recordFailure rest, e.request.Stops)
      ∧ (outputs call logs s.recordFailure rest).length ≤ 1 := by
  have h := latched_of_invariant (I := fun s : Sequencer => s.failed = true)
    (D := fun s => s.phase.Over) (A := fun _ => True) (fun _ c h => call_of_failed h c)
    (fun _ c h _ => logs_of_over h c) (s := s.recordFailure) rfl rest
  exact ⟨h.1, h.2.1, h.2.2 fun _ _ => trivial⟩

end Sequencer

end Iso2

/-! ## ISO 15118-20

The same latch, with a resume among the calls: it takes a session that is over back to its
selected service, so the one stop is one stop for each stretch without a resume. -/

namespace Iso20

/-- The two ways to end a session. Renegotiating a service is not one. -/
def Request.Stops (r : Request) : Prop := r = .sessionStop .terminate ∨ r = .sessionStop .pause

/-- The session is over. -/
def Phase.Over (p : Phase) : Prop := p = .stopped ∨ p = .paused

/-- A failed session accepts a stop, and is over with it. -/
theorem Sequencer.Arrow.stops_of_failed {s : Sequencer} {r : Request} {p : Phase}
    (h : s.Arrow r p) (hf : s.failed = true) : r.Stops ∧ p.Over := by
  cases h with
  | forward hf' _ | renegotiateService hf' _ =>
    rw [hf] at hf'
    cases hf'
  | terminate _ => exact ⟨.inl rfl, .inl rfl⟩
  | pause _ _ => exact ⟨.inr rfl, .inr rfl⟩

namespace Sequencer

/-- What a call does to a failed session, a resume included: the latch stays, and either nothing is
accepted or a stop is, which ends it. -/
theorem call_of_failed {s : Sequencer} (h : s.failed = true) (c : Call) :
    (s.call c).failed = true
      ∧ (s.logs c = [] ∨ ∃ e, s.logs c = [e] ∧ e.request.Stops ∧ (s.call c).phase.Over) := by
  rcases s.call_cases c with
    ⟨hcall, hlog⟩ | ⟨hcall, hlog⟩ | ⟨t, -, hcall, hlog⟩ | ⟨r, o, p, -, harrow, hcall, hlog⟩
  · rw [hcall]
    exact ⟨h, .inl hlog⟩
  · rw [hcall]
    exact ⟨rfl, .inl hlog⟩
  · rw [hcall]
    exact ⟨h, .inl hlog⟩
  · obtain ⟨hstops, hover⟩ := harrow.stops_of_failed h
    rw [hcall]
    exact ⟨h, .inr ⟨_, hlog, hstops, hover⟩⟩

theorem logs_of_over {s : Sequencer} (h : s.phase.Over) {c : Call} (hc : ∀ t, c ≠ .resume t) :
    s.logs c = [] ∧ (s.call c).phase.Over := by
  rcases s.call_cases c with
    ⟨hcall, hlog⟩ | ⟨hcall, hlog⟩ | ⟨t, rfl, -, -⟩ | ⟨r, o, p, -, harrow, -, -⟩
  · exact ⟨hlog, by rw [hcall]; exact h⟩
  · exact ⟨hlog, by rw [hcall]; exact h⟩
  · exact absurd rfl (hc t)
  · exact absurd h (not_or.mpr harrow.not_over)

/-- **The latch, over a run.** After `failed()`, whatever is called next, resumes included: the
latch stays and what is accepted is a stop; without a resume it is accepted once. -/
theorem latched (s : Sequencer) (rest : List Call) :
    (run call s.recordFailure rest).failed = true
      ∧ (∀ e ∈ outputs call logs s.recordFailure rest, e.request.Stops)
      ∧ ((∀ t, Call.resume t ∉ rest) → (outputs call logs s.recordFailure rest).length ≤ 1) := by
  have h := latched_of_invariant (I := fun s : Sequencer => s.failed = true)
    (D := fun s => s.phase.Over) (A := fun c => ∀ t, c ≠ .resume t)
    (fun _ c h => call_of_failed h c) (fun _ _ h hc => logs_of_over h hc)
    (s := s.recordFailure) rfl rest
  refine ⟨h.1, h.2.1, fun hresume => h.2.2 ?_⟩
  rintro c hc t rfl
  exact hresume t hc

end Sequencer

end Iso20

/-! ## Both

The two generations in one statement, since their calls are not of one type. -/

/-- **Failure latches.** In either generation, after `failed()` has been called at any point of a
session, whatever follows: the latch is never cleared, every request accepted from then on stops
the session — `Terminate` or `Pause` — and, unless a -20 session is resumed, at most one is. -/
theorem failure_latches :
    (∀ security before rest,
      let s := Iso2.Sequencer.after security (before ++ [.failed])
      (run Iso2.Sequencer.call s rest).failed = true
        ∧ (∀ e ∈ outputs Iso2.Sequencer.call Iso2.Sequencer.logs s rest, e.request.Stops)
        ∧ (outputs Iso2.Sequencer.call Iso2.Sequencer.logs s rest).length ≤ 1)
    ∧ ∀ before rest,
      let s := Iso20.Sequencer.after (before ++ [.failed])
      (run Iso20.Sequencer.call s rest).failed = true
        ∧ (∀ e ∈ outputs Iso20.Sequencer.call Iso20.Sequencer.logs s rest, e.request.Stops)
        ∧ ((∀ t, Iso20.Call.resume t ∉ rest) →
            (outputs Iso20.Sequencer.call Iso20.Sequencer.logs s rest).length ≤ 1) := by
  refine ⟨fun security before rest => ?_, fun before rest => ?_⟩
  · rw [Iso2.Sequencer.after_concat]
    exact Iso2.Sequencer.latched _ rest
  · rw [Iso20.Sequencer.after_concat]
    exact Iso20.Sequencer.latched _ rest

end Iso15118.Session
