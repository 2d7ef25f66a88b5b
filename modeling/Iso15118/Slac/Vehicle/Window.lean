import Iso15118.Slac.Vehicle.KeyBinding

/-!
# Waiting for reports, but not for ever

Every report gives the other stations a little longer, and a report costs nothing to forge: all it
has to quote is broadcast in the clear. What bounds the wait is the window that opens when the
sounding burst ends.

* **`Ev.Windowed`** — the invariant: a vehicle that waits for reports has done so since a burst
  ended, and its deadline is within the window of that burst;
* **`Ev.not_stalled`** — so the first timeout at the end of the window ends the wait, in every run.
-/

namespace Iso15118.Slac.Ev

open Iso15118.Lib Iso15118.Session

/-- The call ends the sounding burst. -/
def EndsBurst (t : Transition Ev Call) : Prop :=
  t.before.state = .sounding ∧ t.after.state = .awaitingMeasurements

/-- When the window for reports closes, for a burst that ended at `now`. -/
def windowEnd (now : Instant) : Instant := now + Millis.fromMillis Timers.ttEvAttenResultsMs

/-- The burst ended at `now`, the vehicle has been waiting since, and it does not wait past the
end of the window. -/
structure Window (log : List (Transition Ev Call)) (s : Ev) (e : Transition Ev Call)
    (later : List (Transition Ev Call)) (now : Instant) : Prop where
  since : Since EndsBurst log e later
  ended : e.call = .timeout now
  waiting : ∀ t ∈ later, t.after.state = .awaitingMeasurements
  stop : s.resultsDeadline = some (windowEnd now)
  deadline : ∃ d, s.deadline = some d ∧ d ≤ windowEnd now

def Windowed (log : List (Transition Ev Call)) (s : Ev) : Prop :=
  s.state = .awaitingMeasurements → ∃ e later now, Window log s e later now

/-! ## What a report does to the deadline

A report extends the wait, but not past the end of the window. -/

theorem reportDeadline_le {s : Ev} {stop : Instant} (h : s.resultsDeadline = some stop)
    (now : Instant) : s.reportDeadline now ≤ stop := by
  unfold reportDeadline
  rw [h]
  dsimp only
  split
  · exact Instant.le_refl stop
  · next hlt => exact Instant.not_lt.mp hlt

/-- A report leaves everything about the wait alone but the deadline, which it sets to within the
window. -/
theorem onMeasurement_wait (s : Ev) (now : Instant) (source : MacAddr) (ind : AttenCharInd) :
    (s.onMeasurement now source ind).state = s.state
      ∧ (s.onMeasurement now source ind).resultsDeadline = s.resultsDeadline
      ∧ ((s.onMeasurement now source ind).deadline = s.deadline
        ∨ (s.onMeasurement now source ind).deadline = some (s.reportDeadline now)) := by
  cases hm : ind.profile.meanAttenuation with
  | none =>
    rw [onMeasurement_of_none hm]
    exact ⟨rfl, rfl, .inl rfl⟩
  | some mean =>
    cases hf : s.tooFar mean with
    | true =>
      rw [onMeasurement_of_tooFar hm hf]
      exact ⟨rfl, rfl, .inl rfl⟩
    | false =>
      rw [onMeasurement_of_some hm hf]
      refine ⟨rfl, rfl, ?_⟩
      dsimp only
      split
      · exact .inr rfl
      · exact .inl rfl

/-- A key ends the run, and a confirmation that is no key changes nothing. -/
theorem onMatchCnf_or (s : Ev) (source : MacAddr) (cnf : SlacMatchCnf) :
    s.onMatchCnf source cnf = s ∨ (s.onMatchCnf source cnf).state = .matched := by
  unfold onMatchCnf
  split
  · exact .inl rfl
  · split
    · exact .inl rfl
    · split
      · exact .inl rfl
      · split
        · exact .inl rfl
        · exact .inr rfl

/-- A frame does not take a vehicle into the wait, and leaves the end of its window alone. -/
theorem handleFrame_wait {s : Ev} {now : Instant} {raw : List UInt8}
    (h : (s.handleFrame now raw).state = .awaitingMeasurements) :
    s.state = .awaitingMeasurements
      ∧ (s.handleFrame now raw).resultsDeadline = s.resultsDeadline
      ∧ ((s.handleFrame now raw).deadline = s.deadline
        ∨ (s.handleFrame now raw).deadline = some (s.reportDeadline now)) := by
  unfold handleFrame at h ⊢
  split at h
  -- a station that answers is noted
  · next source cnf hr =>
    unfold onParmCnf at h ⊢
    split at h
    · next hfound =>
      rw [if_pos hfound, note_eq]
      rw [note_eq] at h
      exact ⟨h, rfl, .inl rfl⟩
    · next hfound =>
      rw [if_neg hfound]
      exact ⟨h, rfl, .inl rfl⟩
  -- a measurement may bring the deadline forward
  · next source ind hr =>
    split at h
    · next hconcerns =>
      rw [if_pos hconcerns]
      obtain ⟨hstate, hstop, hdeadline⟩ := s.onMeasurement_wait now source ind
      exact ⟨hstate.symm.trans h, hstop, hdeadline⟩
    · next hconcerns =>
      rw [if_neg hconcerns]
      exact ⟨h, rfl, .inl rfl⟩
  -- a confirmation ends the wait, or is none of this vehicle's
  · next source cnf hr =>
    rcases s.onMatchCnf_or source cnf with hsame | hmatched
    · rw [hsame] at h ⊢
      exact ⟨h, rfl, .inl rfl⟩
    · rw [hmatched] at h
      cases h
  · exact ⟨h, rfl, .inl rfl⟩

/-! ## The invariant

The window is opened when the burst ends and is not opened again in that run. -/

/-- A call that leaves the vehicle waiting, within the window, changes nothing about it. -/
theorem Window.keep {log later : List (Transition Ev Call)} {s : Ev} {e : Transition Ev Call}
    {now : Instant} {c : Call} (h : Window log s e later now)
    (hs : s.state = .awaitingMeasurements) (hs' : (s.call c).state = .awaitingMeasurements)
    (hstop : (s.call c).resultsDeadline = s.resultsDeadline)
    (hdeadline : ∃ d, (s.call c).deadline = some d ∧ d ≤ windowEnd now) :
    Window (log ++ [taken call s c]) (s.call c) e (later ++ [taken call s c]) now where
  since := by
    refine h.since.concat ?_
    rintro ⟨hsounding, -⟩
    have hsounding : s.state = .sounding := hsounding
    rw [hs] at hsounding
    cases hsounding
  ended := h.ended
  waiting t ht := by
    rcases List.mem_append.mp ht with ht | ht
    · exact h.waiting t ht
    · rw [List.mem_singleton.mp ht]
      exact hs'
  stop := hstop.trans h.stop
  deadline := hdeadline

/-- The end of the burst opens the window. -/
theorem window_of_burst {log : List (Transition Ev Call)} {s : Ev} {now : Instant}
    (hs : s.state = .sounding)
    (hcall : s.call (.timeout now)
      = { s with
          state := .awaitingMeasurements
          deadline := some (windowEnd now)
          resultsDeadline := some (windowEnd now) }) :
    Window (log ++ [taken call s (.timeout now)]) (s.call (.timeout now))
      (taken call s (.timeout now)) [] now where
  since := since_concat_self ⟨hs, by rw [taken, hcall]⟩
  ended := rfl
  waiting t ht := by cases ht
  stop := by rw [hcall]
  deadline := ⟨windowEnd now, by rw [hcall], Instant.le_refl _⟩

/-- **One call.** Whatever it is, it does not take the deadline past the window. -/
theorem windowed_call {log : List (Transition Ev Call)} {s : Ev} (h : Windowed log s) (c : Call) :
    Windowed (log ++ [taken call s c]) (s.call c) := by
  -- a call after which the vehicle waits as it did
  have hkeep (hs : s.state = .awaitingMeasurements) (hsame : (s.call c).state = s.state)
      (hstop : (s.call c).resultsDeadline = s.resultsDeadline)
      (hdeadline : (s.call c).deadline = s.deadline) :
      Windowed (log ++ [taken call s c]) (s.call c) := by
    intro hs'
    obtain ⟨e, later, now, hwindow⟩ := h hs
    exact ⟨e, _, now, hwindow.keep hs hs' hstop (hdeadline ▸ hwindow.deadline)⟩
  intro hs'
  cases c with
  | start now =>
    obtain ⟨o, -, hstart⟩ := s.start_eq now
    rw [show s.call (.start now) = _ from hstart] at hs'
    cases hs'
  | frame now raw =>
    obtain ⟨hs, hstop, hdeadline⟩ := handleFrame_wait hs'
    rcases hdeadline with hdeadline | hdeadline
    · exact hkeep hs (hs'.trans hs.symm) hstop hdeadline hs'
    · obtain ⟨e, later, start, hwindow⟩ := h hs
      exact ⟨e, _, start, hwindow.keep hs hs' hstop
        ⟨_, hdeadline, reportDeadline_le hwindow.stop now⟩⟩
  | timeout now =>
    have heffect := effect_call s (.timeout now)
    generalize hcall : s.call (.timeout now) = s' at heffect
    rw [hcall] at hs'
    rw [← hcall]
    cases heffect with
    | waiting => exact hkeep hs' (by rw [hcall]) (by rw [hcall]) (by rw [hcall]) (by rwa [hcall])
    | ended hs =>
      rw [fail_state] at hs'
      cases hs'
    | begun hs =>
      -- the first of the announcements comes next
      rcases ({ s with
          deadline := none
          remainingStarts := Timers.cEvStartAttenCharInds
          remainingSounds := Timers.cEvMatchMnbc
          state := .sounding } : Ev).sendNextSound_cases now with
        ⟨-, o, -, hsend⟩ | ⟨hnone, -⟩ | ⟨hnone, -⟩
      · rw [show ({ s with deadline := none } : Ev).beginSounding now = _ from hsend] at hs'
        cases hs'
      · exact absurd (show (3 : UInt8) > 0 by decide) hnone
      · exact absurd (show (3 : UInt8) > 0 by decide) hnone
    | sounded hs =>
      rcases ({ s with deadline := none } : Ev).sendNextSound_cases now with
        ⟨-, o, -, hsend⟩ | ⟨-, -, o, -, hsend⟩ | ⟨-, -, hsend⟩
      · rw [hsend] at hs'
        exact absurd (hs.symm.trans hs') (by decide)
      · rw [hsend] at hs'
        exact absurd (hs.symm.trans hs') (by decide)
      · exact ⟨_, [], now, window_of_burst hs (hcall.trans hsend)⟩
    | chosen hs hb =>
      obtain ⟨o, o', -, -, hchoose⟩ := choose_eq (s := { s with deadline := none }) hb now
      rw [hchoose] at hs'
      cases hs'
    | lapsed hs =>
      have hs' : s.state = .awaitingMeasurements := hs'
      simp [hs'] at hs
  | pollTransmit => exact hkeep hs' rfl rfl rfl hs'
  | pollEvent => exact hkeep hs' rfl rfl rfl hs'

theorem windowed_after (config : EvConfig) (calls : List Call) :
    Windowed (history config calls) (after config calls) := by
  unfold history after
  refine invariant_trace (I := Windowed) ?_ (fun log s c hs => windowed_call hs c) calls
  intro hs
  cases hs

/-- A timeout at or after the deadline of a vehicle that waits is the choice. -/
theorem handleTimeout_of_waiting {s : Ev} {d now : Instant} (hs : s.state = .awaitingMeasurements)
    (hd : s.deadline = some d) (hdue : d ≤ now) :
    s.handleTimeout now = ({ s with deadline := none } : Ev).choose now := by
  obtain ⟨config, state, best, answered, sounds, starts, deadline, stop, out, events⟩ := s
  cases hs
  cases hd
  unfold handleTimeout
  rw [if_neg (by simpa using Instant.not_lt.mpr hdue)]

/-- The choice ends the wait: a station is asked for its key, or the run fails. -/
theorem choose_leaves (s : Ev) (now : Instant) :
    (s.choose now).state = .awaitingKey ∨ (s.choose now).state = .failed := by
  rcases Option.eq_none_or_eq_some s.best with hbest | ⟨⟨mac, id, mean⟩, hbest⟩
  · rw [choose_of_none hbest]
    exact .inr (fail_state _ _)
  · obtain ⟨o, o', -, -, hchoose⟩ := choose_eq hbest now
    rw [hchoose]
    exact .inl rfl

/-- **The vehicle cannot be stalled.** After every sequence of calls that leaves it waiting for
reports, the wait began when a burst ended, the deadline is armed and within the window of that
burst, and a timeout at the end of the window or later ends the wait. -/
theorem not_stalled (config : EvConfig) (calls : List Call)
    (h : (after config calls).state = .awaitingMeasurements) :
    ∃ e later ended d, Since EndsBurst (history config calls) e later ∧ e.call = .timeout ended
      ∧ (∀ t ∈ later, t.after.state = .awaitingMeasurements)
      ∧ (after config calls).deadline = some d
      ∧ d ≤ ended + Millis.fromMillis Timers.ttEvAttenResultsMs
      ∧ ∀ now : Instant, ended + Millis.fromMillis Timers.ttEvAttenResultsMs ≤ now →
        ((after config calls).call (.timeout now)).state ≠ .awaitingMeasurements := by
  obtain ⟨e, later, ended, hwindow⟩ := windowed_after config calls h
  obtain ⟨d, hd, hle⟩ := hwindow.deadline
  refine ⟨e, later, ended, d, hwindow.since, hwindow.ended, hwindow.waiting, hd, hle, ?_⟩
  intro now hnow
  have htimeout := handleTimeout_of_waiting h hd (Instant.le_trans hle hnow)
  rw [call, htimeout]
  rcases choose_leaves { after config calls with deadline := none } now with hleft | hleft
  · rw [hleft]
    decide
  · rw [hleft]
    decide

/-- Twenty reports on end, and the wait is still bounded. -/
theorem not_stalled_flooded :
    ∃ e later ended d,
      Since EndsBurst (history Sample.vehicle ([.start ⟨0⟩, Sample.parmCnf 0x45] ++ Sample.burst
          ++ List.replicate 20 (Sample.attenInd 0x45 30))) e later ∧ e.call = .timeout ended
        ∧ (∀ t ∈ later, t.after.state = .awaitingMeasurements)
        ∧ (after Sample.vehicle ([.start ⟨0⟩, Sample.parmCnf 0x45] ++ Sample.burst
            ++ List.replicate 20 (Sample.attenInd 0x45 30))).deadline = some d
        ∧ d ≤ ended + Millis.fromMillis Timers.ttEvAttenResultsMs
        ∧ ∀ now : Instant, ended + Millis.fromMillis Timers.ttEvAttenResultsMs ≤ now →
          ((after Sample.vehicle ([.start ⟨0⟩, Sample.parmCnf 0x45] ++ Sample.burst
              ++ List.replicate 20 (Sample.attenInd 0x45 30))).call (.timeout now)).state
            ≠ .awaitingMeasurements :=
  not_stalled Sample.vehicle _ (by decide +kernel)

end Iso15118.Slac.Ev
