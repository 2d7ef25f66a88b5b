import Iso15118.Slac.Station.Effect

/-!
# The run in progress and the request that opened it

A station holds at most one run, and everything it reports or hands over is for that run. This
module ties the run to the history: the `CM_SLAC_PARM.REQ` that opened it, and what has been
observed and reached since.

* **`Evse.call_keeps`** — the frame condition: a call that opens no run keeps the run's vehicle
  and id, and only `observe` touches the stored profile;
* **`Evse.Traced`**, **`Evse.exists_traced`** — the invariant over whole runs.
-/

namespace Iso15118.Slac.Evse

open Iso15118.Lib Iso15118.Session

/-! ## What the building blocks leave alone

Only opening a run and observing a profile touch the fields that a run is traced by. -/

section Keeps

variable (s : Evse)

@[simp] theorem fail_run (reason : Reason) : (s.fail reason).run = s.run := by
  unfold fail; split <;> rfl

@[simp] theorem fail_measured (reason : Reason) : (s.fail reason).measured = s.measured := by
  unfold fail; split <;> rfl

@[simp] theorem note_run (e : EvseEvent) : (s.note e).run = s.run := by
  unfold note; split <;> rfl

@[simp] theorem note_measured (e : EvseEvent) : (s.note e).measured = s.measured := by
  unfold note; split <;> rfl

variable (destination : MacAddr) (mmtype : Mmtype) (encode : Nat → Except SlacError (List UInt8))

@[simp] theorem queue_run : (s.queue destination mmtype encode).run = s.run := by
  unfold queue
  split
  · split <;> rfl
  · exact fail_run s _

@[simp] theorem queue_measured : (s.queue destination mmtype encode).measured = s.measured := by
  unfold queue
  split
  · split <;> rfl
  · exact fail_measured s _

@[simp] theorem arm_run (now : Instant) (after : UInt64) : (s.arm now after).run = s.run := rfl

@[simp] theorem arm_measured (now : Instant) (after : UInt64) :
    (s.arm now after).measured = s.measured := rfl

@[simp] theorem finishSounding_run (now : Instant) : (s.finishSounding now).run = s.run := by
  unfold finishSounding
  split
  · rfl
  · split
    · rfl
    · split
      · exact fail_run s _
      · split
        · exact fail_run s _
        · simp [report]

@[simp] theorem finishSounding_measured (now : Instant) :
    (s.finishSounding now).measured = s.measured := by
  unfold finishSounding
  split
  · rfl
  · split
    · rfl
    · split
      · exact fail_measured s _
      · split
        · exact fail_measured s _
        · simp [report]

end Keeps

/-- A run under the same vehicle and the same id. -/
def SameRun (r r' : Run) : Prop := r.pevMac = r'.pevMac ∧ r.id = r'.id

/-- **What a call keeps.** A call that opens no run keeps the run's vehicle and id, and the
stored profile unless it observes a new one. -/
theorem call_keeps {s : Evse} {c : Call} (hopen : opening (taken call s c) = none) {r' : Run}
    (hrun : (s.call c).run = some r') :
    (∃ r, s.run = some r ∧ SameRun r r')
      ∧ ((∃ p, c = .observe p ∧ (s.call c).measured = some p)
          ∨ ((∀ p, c ≠ .observe p) ∧ (s.call c).measured = s.measured)) := by
  -- most calls leave the run alone
  have hsame : ∀ {s' : Evse}, s'.run = some r' → s'.run = s.run →
      ∃ r, s.run = some r ∧ SameRun r r' :=
    fun h heq => ⟨r', heq ▸ h, rfl, rfl⟩
  have heffect := effect_call s c
  generalize hcall : s.call c = s' at heffect hrun
  cases heffect with
  | quiet =>
    refine ⟨hsame hrun rfl, ?_⟩
    -- a profile the station is given is stored whether or not a run is on
    by_cases hobs : ∃ p, c = .observe p
    · obtain ⟨p, rfl⟩ := hobs
      exact .inl ⟨p, rfl, by rw [← hcall]; rfl⟩
    · exact .inr ⟨fun p hp => hobs ⟨p, hp⟩, rfl⟩
  | opened hr ha => simp [opening, taken, hr, ha] at hopen
  -- the two that count a sound or an announcement change nothing the run is known by
  | announced hr hb =>
    obtain ⟨hbound, -, -⟩ := run_of_bound hb
    cases hrun
    exact ⟨⟨_, hbound, rfl, rfl⟩, .inr ⟨fun p h => (by cases h), rfl⟩⟩
  | sounded hr hb =>
    obtain ⟨hbound, -, -⟩ := run_of_bound hb
    cases hrun
    exact ⟨⟨_, hbound, rfl, rfl⟩, .inr ⟨fun p h => (by cases h), rfl⟩⟩
  | soundedLast hr hb hl =>
    obtain ⟨hbound, -, -⟩ := run_of_bound hb
    rw [finishSounding_run] at hrun
    cases hrun
    exact ⟨⟨_, hbound, rfl, rfl⟩, .inr ⟨fun p h => (by cases h), by simp⟩⟩
  | rejected hr hb hid hres =>
    exact ⟨hsame hrun (by simp), .inr ⟨fun p h => (by cases h), by simp⟩⟩
  | refused hr hb hmac hid hs =>
    exact ⟨hsame hrun (by simp), .inr ⟨fun p h => (by cases h), by simp⟩⟩
  | granted hr hb hmac hid hs =>
    exact ⟨hsame hrun (by simp [grant]), .inr ⟨fun p h => (by cases h), by simp [grant]⟩⟩
  | windowClosed hd hs _ hsounds =>
    exact ⟨hsame hrun (by simp), .inr ⟨fun p h => (by cases h), by simp⟩⟩
  | timedOut hd hs =>
    exact ⟨hsame hrun (by simp), .inr ⟨fun p h => (by cases h), by simp⟩⟩
  | lapsed hd => exact ⟨hsame hrun rfl, .inr ⟨fun p h => (by cases h), rfl⟩⟩
  | observed profile => exact ⟨hsame hrun rfl, .inl ⟨profile, rfl, rfl⟩⟩
  | reset => cases hrun
  | polledTransmit => exact ⟨hsame hrun rfl, .inr ⟨fun p h => (by cases h), rfl⟩⟩
  | polledEvent => exact ⟨hsame hrun rfl, .inr ⟨fun p h => (by cases h), rfl⟩⟩

/-! ## The invariant

The run in progress, what opened it and what has happened since. A call that opens no run extends
the trace. -/

/-- The call opens a run. -/
def Opens (t : Transition Evse Call) : Prop := (opening t).isSome = true

/-- The profile was passed to `observe` in this stretch of the run. -/
def Observed (log : List (Transition Evse Call)) (p : AttenProfile) : Prop :=
  ∃ t ∈ log, t.call = .observe p

/-- The run `r` of a station after `log`: opened by `e`, with `later` since. -/
structure Traced (log : List (Transition Evse Call)) (s : Evse) (r : Run)
    (e : Transition Evse Call) (later : List (Transition Evse Call)) : Prop where
  since : Since Opens log e later
  opened : opening e = some (r.pevMac, r.id)
  measured : (∃ p, s.measured = some p ∧ Observed later p)
    ∨ (s.measured = e.before.measured ∧ ∀ p, ¬ Observed later p)
  reached : s.state = .measured → ∃ t ∈ later, t.after.state = .measured

/-- What an opening is: an admitted `CM_SLAC_PARM.REQ`, and the call creates its run. -/
theorem call_of_opening {s : Evse} {c : Call} {source : MacAddr} {runId : RunId}
    (h : opening (taken call s c) = some (source, runId)) :
    ∃ now req, s.call c = s.openRun now source req ∧ req.runId = runId := by
  unfold opening taken at h
  simp only at h
  split at h
  case h_2 => cases h
  case h_1 now raw =>
    split at h
    case h_2 => cases h
    case h_1 src req hr =>
      split at h
      case isFalse => cases h
      case isTrue ha =>
        cases h
        refine ⟨now, req, ?_, rfl⟩
        show s.handleFrame now raw = _
        simp [handleFrame, hr, onParmReq, ha]

/-- An opened run starts its own trace. -/
theorem traced_of_opening {log : List (Transition Evse Call)} {s : Evse} {c : Call}
    {source : MacAddr} {runId : RunId} (ho : opening (taken call s c) = some (source, runId))
    {r : Run} (hrun : (s.call c).run = some r) :
    Traced (log ++ [taken call s c]) (s.call c) r (taken call s c) [] := by
  obtain ⟨now, req, hcall, hid⟩ := call_of_opening ho
  obtain ⟨o, -, hopen⟩ := s.openRun_eq now source req
  have hopens : Opens (taken call s c) := by simp [Opens, ho]
  have hnone : ∀ p, ¬ Observed [] p := by
    rintro p ⟨t, ht, -⟩
    cases ht
  rw [hcall, hopen] at hrun ⊢
  cases hrun
  refine ⟨since_concat_self hopens, ?_, .inr ⟨rfl, hnone⟩, fun h => by cases h⟩
  rw [ho, ← hid]
  rfl

/-- A call that opens no run extends the trace of the run it finds. -/
theorem Traced.concat {log later : List (Transition Evse Call)} {s : Evse} {r r' : Run}
    {e : Transition Evse Call} (h : Traced log s r e later) {c : Call}
    (hopen : opening (taken call s c) = none) (hsame : SameRun r r')
    (hmeasured : (∃ p, c = .observe p ∧ (s.call c).measured = some p)
      ∨ ((∀ p, c ≠ .observe p) ∧ (s.call c).measured = s.measured)) :
    Traced (log ++ [taken call s c]) (s.call c) r' e (later ++ [taken call s c]) where
  since := h.since.concat (by simp [Opens, hopen])
  opened := by rw [h.opened, hsame.1, hsame.2]
  measured := by
    rcases hmeasured with ⟨p, rfl, hp⟩ | ⟨hobs, hp⟩
    · exact .inl ⟨p, hp, _, List.mem_append_right _ (List.mem_singleton_self _), rfl⟩
    · rcases h.measured with ⟨p, hsome, t, ht, hcall⟩ | ⟨hbefore, hnone⟩
      · exact .inl ⟨p, hp.trans hsome, t, List.mem_append_left _ ht, hcall⟩
      · refine .inr ⟨hp.trans hbefore, fun p => ?_⟩
        rintro ⟨t, ht, hcall⟩
        rcases List.mem_append.mp ht with ht | ht
        · exact hnone p ⟨t, ht, hcall⟩
        · rw [List.mem_singleton.mp ht] at hcall
          exact hobs p hcall
  reached hs := ⟨_, List.mem_append_right _ (List.mem_singleton_self _), hs⟩

/-- **Every run has its opening.** Whatever the calls, the run a station holds was opened by the
last admitted `CM_SLAC_PARM.REQ`, and its stored profile was observed since then or was there
before. -/
theorem exists_traced (config : EvseConfig) (calls : List Call) {r : Run}
    (hrun : (after config calls).run = some r) :
    ∃ e later, Traced (history config calls) (after config calls) r e later := by
  unfold after history at *
  induction calls using List.reverseRecOn generalizing r with
  | nil => cases hrun
  | append_singleton xs c ih =>
    rw [run_concat] at hrun ⊢
    rw [trace_concat]
    cases ho : opening (taken call (Lib.run call (new config) xs) c) with
    | some opened =>
      obtain ⟨source, runId⟩ := opened
      exact ⟨_, [], traced_of_opening ho hrun⟩
    | none =>
      obtain ⟨⟨r₀, hr₀, hsame⟩, hmeasured⟩ := call_keeps ho hrun
      obtain ⟨e, later, htraced⟩ := ih hr₀
      exact ⟨e, _, htraced.concat ho hsame hmeasured⟩

end Iso15118.Slac.Evse
