import Iso15118.Slac.Station.Freshness

/-!
# Reporting what was sent

A station tells its application that a burst was measured and reported, and that the key was
handed over. The frame goes through a queue that drops what does not fit, and the state and the
event do not wait for it: with the queue full, the application hears of a match, and programs its
modem, while the vehicle never gets the confirmation.

**`Evse.reports_sent_iff`** says exactly when the reports are true: when there is room in the queue
at every key request that is granted and at every burst that is measured.
-/

namespace Iso15118.Slac.Evse

open Iso15118.Lib Iso15118.Session

/-! ## What is reported, and what is sent

An event says that something was sent, and the frame is in the queue or is not; both are read off
one call. -/

/-- A `Matched` event and the confirmation with the key go out in one step. -/
def MatchSent (t : Transition Evse Call) : Prop :=
  ∀ pevId pevMac nmk, .matched pevId pevMac nmk ∈ emitted t →
    ∃ o ∈ queued t, ∃ run cnf, t.after.run = some run ∧ o.destination = pevMac
      ∧ receive o.frame = some (t.after.config.mac, .matchCnf cnf)
      ∧ cnf.pevId = pevId ∧ cnf.pevMac = pevMac ∧ cnf.nmk = nmk ∧ cnf.runId = run.id

/-- A station that becomes measured sends the vehicle its profile in the same step. -/
def MeasurementSent (t : Transition Evse Call) : Prop :=
  t.before.state ≠ .measured → t.after.state = .measured →
    ∃ o ∈ queued t, ∃ run profile, t.after.run = some run ∧ t.after.measured = some profile
      ∧ o.destination = run.pevMac
      ∧ receive o.frame = some (t.after.config.mac, .attenInd (t.after.attenInd run profile))

def ReportsSent (config : EvseConfig) (calls : List Call) : Prop :=
  Along (fun _ t => MatchSent t ∧ MeasurementSent t) (history config calls)

/-! ## The calls that report

There are two of them, each with one frame: a key that is granted, and a burst that is closed. -/

/-- The call is a key request that is granted. -/
structure Grants (t : Transition Evse Call) (run : Run) (req : SlacMatchReq) : Prop where
  request : ∃ now raw source, t.call = .frame now raw
    ∧ receive raw = some (source, .matchReq req) ∧ t.before.bound req.runId source = some run
  mac : req.evseMac = t.before.config.mac
  id : req.evseId = t.before.config.id
  state : t.before.state = .measured

/-- The call closes a burst with a profile to report: near enough, and one that can be written. -/
structure Reports (t : Transition Evse Call) (profile : AttenProfile) : Prop where
  closes : closesBurst t = true
  measured : t.before.measured = some profile
  near : t.before.tooFar profile = false
  groups : profile.numGroups.toNat ≤ aagLen

/-- There is room for the frame of a call that reports. -/
def HasRoom (t : Transition Evse Call) : Prop :=
  (∃ run req, Grants t run req) ∨ (∃ profile, Reports t profile) →
    t.before.out.length < maxPendingFrames

variable {s : Evse} {c : Call}

theorem Grants.call {run : Run} {req : SlacMatchReq} (h : Grants (taken call s c) run req) :
    s.call c = s.grant run req := by
  obtain ⟨now, raw, source, hcall, hr, hb⟩ := h.request
  obtain rfl : c = .frame now raw := hcall
  have hs : s.state = .measured := h.state
  have hmac : req.evseMac = s.config.mac := h.mac
  have hid : req.evseId = s.config.id := h.id
  have hb : s.bound req.runId source = some run := hb
  show s.handleFrame now raw = _
  simp [handleFrame, hr, onMatchReq, hb, hmac, hid, hs]

/-- Only a grant reports a match. -/
theorem grants_of_matched {pevId : StationId} {pevMac : MacAddr} {nmk : Nmk}
    (h : .matched pevId pevMac nmk ∈ emitted (taken call s c)) :
    ∃ run req, Grants (taken call s c) run req := by
  cases puts_call s c with
  | failure hq he =>
    obtain ⟨reason, hreason⟩ := he _ h
    cases hreason
  | confirmation hopen hq he => cases he _ h
  | report hc hrun hm hq he => rcases he _ h with h | h <;> cases h
  | @key now raw source req run hcall hr hb hmac hid hs hq he =>
    exact ⟨run, req, ⟨now, raw, source, hcall, hr, hb⟩, hmac, hid, hs⟩

theorem fail_state_ne_measured {s : Evse} {reason : Reason} (h : s.state ≠ .measured) :
    (s.fail reason).state ≠ .measured := by
  unfold fail
  split
  · exact h
  · exact fun h => by cases h

/-- A burst that ends measured was sounding, with a profile to report. -/
theorem finishSounding_measured_of {s : Evse} {now : Instant} {run : Run} (hrun : s.run = some run)
    (hne : s.state ≠ .measured) (h : (s.finishSounding now).state = .measured) :
    s.state = .sounding ∧ ∃ profile, s.measured = some profile ∧ s.tooFar profile = false
      ∧ profile.numGroups.toNat ≤ aagLen := by
  by_cases hs : s.state = .sounding
  · rcases finishSounding_cases now hrun hs with
      ⟨-, hfin⟩ | ⟨_, -, -, hfin⟩ | ⟨profile, hm, hnear, hfin⟩
    · rw [hfin] at h
      exact absurd h (fail_state_ne_measured hne)
    · rw [hfin] at h
      exact absurd h (fail_state_ne_measured hne)
    · rw [hfin] at h
      rcases Nat.lt_or_ge aagLen profile.numGroups.toNat with hgroups | hgroups
      · rw [report_eq_of_lt hgroups] at h
        cases h
      · exact ⟨hs, profile, hm, hnear, hgroups⟩
  · rw [finishSounding_of_ne hs] at h
    exact absurd h hne

/-- Only a report makes a station measured. -/
theorem reports_of_measured (hne : s.state ≠ .measured) (h : (s.call c).state = .measured) :
    ∃ profile, Reports (taken call s c) profile := by
  have heffect := effect_call s c
  generalize hcall : s.call c = s' at heffect h
  cases heffect with
  | quiet => exact absurd h hne
  | @opened now raw source req hr ha =>
    obtain ⟨o, -, hopen⟩ := s.openRun_eq now source req
    rw [hopen] at h
    cases h
  | announced hr hb => exact absurd h hne
  | sounded hr hb => exact absurd h hne
  -- the last sound of the burst
  | @soundedLast now raw source ind run hr hb hl =>
    obtain ⟨hs, profile, hm, hnear, hgroups⟩ :=
      finishSounding_measured_of (s := { s with run := some (Run.sounded run ind) }) rfl hne h
    refine ⟨profile, ?_, hm, hnear, hgroups⟩
    have hs : s.state = .sounding := hs
    simp [closesBurst, taken, hs, hr, hb, hl]
  | rejected hr hb hid hres => exact absurd h (fail_state_ne_measured hne)
  | refused hr hb hmac hid hs => exact absurd h (fail_state_ne_measured hne)
  | granted hr hb hmac hid hs => exact absurd hs hne
  -- or the window that closes on it
  | windowClosed hd hs hrun hsounds =>
    obtain ⟨-, profile, hm, hnear, hgroups⟩ :=
      finishSounding_measured_of (s := { s with deadline := none }) hrun hne h
    refine ⟨profile, ?_, hm, hnear, hgroups⟩
    simp [closesBurst, taken, hs, hd, hrun, hsounds]
  | timedOut hd hs => exact absurd h (fail_state_ne_measured hne)
  | lapsed hd => exact absurd h hne
  | observed profile => exact absurd h hne
  | reset => cases h
  | polledTransmit => exact absurd h hne
  | polledEvent => exact absurd h hne

/-! ## Sent exactly when there is room

A frame goes into the queue exactly if there is room for one more. Where there is none the event
is raised all the same. -/

theorem pushed_of_lt {o : Outgoing} (h : s.out.length < maxPendingFrames) :
    s.pushed o = s.out ++ [o] := if_pos h

theorem pushed_of_not_lt {o : Outgoing} (h : ¬ s.out.length < maxPendingFrames) :
    s.pushed o = s.out := if_neg h

/-- The confirmation of a match is queued exactly when the queue has a place for its frame. -/
theorem matchSent_iff {run : Run} {req : SlacMatchReq} (h : Grants (taken call s c) run req) :
    MatchSent (taken call s c) ↔ s.out.length < maxPendingFrames := by
  obtain ⟨o, hcarries, hgrant⟩ := s.grant_eq run req
  have hcall := h.call
  rw [hgrant] at hcall
  have he : emitted (taken call s c) = [.matched req.pevId req.pevMac s.config.nmk] :=
    emitted_of_append (by simp [taken, hcall])
  have hrun : s.run = some run := by
    obtain ⟨now, raw, source, -, -, hb⟩ := h.request
    exact (run_of_bound hb).1
  constructor
  · intro hsent
    obtain ⟨o', ho', -⟩ := hsent _ _ _ (he ▸ List.mem_singleton_self _)
    by_contra hfull
    have hq : queued (taken call s c) = [] :=
      queued_of_append (by simp [taken, hcall, pushed_of_not_lt hfull])
    rw [hq] at ho'
    cases ho'
  · intro hroom pevId pevMac nmk hmem
    rw [he] at hmem
    cases List.mem_singleton.mp hmem
    have hq : queued (taken call s c) = [o] :=
      queued_of_append (by simp [taken, hcall, pushed_of_lt hroom])
    refine ⟨o, hq ▸ List.mem_singleton_self o, run, s.matchCnf run req, ?_, hcarries.destination_eq,
      ?_, rfl, rfl, rfl, rfl⟩
    · show (s.call c).run = some run
      rw [hcall]
      exact hrun
    · show receive o.frame = some ((s.call c).config.mac, _)
      rw [hcall]
      exact hcarries.receive_eq (m := .matchCnf _) fun _ hm => by cases hm

/-- The measurement that closes a burst is queued exactly when the queue has a place for its frame.
-/
theorem measurementSent_iff {profile : AttenProfile} (h : Reports (taken call s c) profile) :
    MeasurementSent (taken call s c) ↔ s.out.length < maxPendingFrames := by
  obtain ⟨s₁, r, run, now, hcall, -, hrun, hs₁, hm, -, hconfig, hout⟩ :=
    call_of_closesBurst h.closes
  have hprofile : s₁.measured = some profile := hm.trans h.measured
  have hnear : s₁.tooFar profile = false := by
    have hnear : s.tooFar profile = false := h.near
    unfold tooFar at hnear ⊢
    rwa [hconfig]
  obtain ⟨o, hcarries, hreport⟩ := report_eq h.groups now run (s := s₁)
  -- the burst ends in a report, for its profile is there and near enough
  have hfin : s₁.finishSounding now = s₁.report now run profile := by
    rcases finishSounding_cases now hrun hs₁ with ⟨hnone, -⟩ | ⟨p, hp, hfar, -⟩ | ⟨p, hp, -, hfin⟩
    · rw [hprofile] at hnone
      cases hnone
    · cases hprofile.symm.trans hp
      rw [hnear] at hfar
      cases hfar
    · cases hprofile.symm.trans hp
      exact hfin
  rw [hfin, hreport] at hcall
  have hne : s.state ≠ .measured := by
    intro hs
    have hcloses := h.closes
    simp [closesBurst, taken, hs] at hcloses
  constructor
  -- a full queue drops the frame, and nothing of the call is queued
  · intro hsent
    obtain ⟨o', ho', -⟩ := hsent hne (by simp [taken, hcall])
    by_contra hfull
    rw [← hout] at hfull
    have hq : queued (taken call s c) = [] :=
      queued_of_append (by simp [taken, hcall, pushed_of_not_lt hfull, hout])
    rw [hq] at ho'
    cases ho'
  -- the frame that is queued is read back as the measurement
  · intro hroom _ _
    rw [← hout] at hroom
    have hq : queued (taken call s c) = [o] :=
      queued_of_append (by simp [taken, hcall, pushed_of_lt hroom, hout])
    refine ⟨o, hq ▸ List.mem_singleton_self o, run, profile, ?_, ?_, hcarries.destination_eq, ?_⟩
    · show (s.call c).run = some run
      rw [hcall]
      exact hrun
    · show (s.call c).measured = some profile
      rw [hcall]
      exact hprofile
    · show receive o.frame
        = some ((s.call c).config.mac, .attenInd ((s.call c).attenInd run profile))
      rw [hcall]
      refine hcarries.receive_eq (m := .attenInd _) fun ind hind => ?_
      cases hind
      exact h.groups

/-- What a call reports is sent exactly when there is room for it. -/
theorem sent_iff_hasRoom (s : Evse) (c : Call) :
    MatchSent (taken call s c) ∧ MeasurementSent (taken call s c) ↔ HasRoom (taken call s c) := by
  constructor
  · rintro ⟨hmatch, hmeasured⟩ (⟨run, req, hgrants⟩ | ⟨profile, hreports⟩)
    · exact (matchSent_iff hgrants).mp hmatch
    · exact (measurementSent_iff hreports).mp hmeasured
  · intro hroom
    constructor
    · intro pevId pevMac nmk hmem
      obtain ⟨run, req, hgrants⟩ := grants_of_matched hmem
      exact (matchSent_iff hgrants).mpr (hroom (.inl ⟨run, req, hgrants⟩)) _ _ _ hmem
    · intro hne hs
      obtain ⟨profile, hreports⟩ := reports_of_measured hne hs
      exact (measurementSent_iff hreports).mpr (hroom (.inr ⟨profile, hreports⟩)) hne hs

/-- **What is reported has been sent, exactly.** In every history of a station each `Matched` event
goes with its confirmation and each measured burst with its profile, if and only if there is room
in the queue whenever a key request is granted or a burst is reported. -/
theorem reports_sent_iff (config : EvseConfig) (calls : List Call) :
    ReportsSent config calls ↔ Along (fun _ t => HasRoom t) (history config calls) := by
  unfold ReportsSent history
  rw [along_trace, along_trace]
  constructor
  · intro h xs c ys heq
    exact (sent_iff_hasRoom _ c).mp (h xs c ys heq)
  · intro h xs c ys heq
    exact (sent_iff_hasRoom _ c).mpr (h xs c ys heq)

/-- The vehicle opens its run sixteen times before the station gets round to sending, and the
burst is measured: the profile finds the queue full. -/
theorem not_reportsSent_fullQueue :
    ¬ ReportsSent Sample.station
      (List.replicate 16 Sample.parmReq ++ [Sample.startAtten, .observe Sample.profile]
        ++ [Sample.sound]) := by
  intro h
  unfold ReportsSent history at h
  rw [trace_concat] at h
  obtain ⟨-, hmeasured⟩ := ((along_concat _ _).mp h).2
  obtain ⟨o, ho, -⟩ := hmeasured (by decide +kernel) (by decide +kernel)
  have hnone : queued (taken call (Lib.run call (new Sample.station)
      (List.replicate 16 Sample.parmReq ++ [Sample.startAtten, .observe Sample.profile]))
        Sample.sound) = [] := by
    decide +kernel
  rw [hnone] at ho
  cases ho

end Iso15118.Slac.Evse
