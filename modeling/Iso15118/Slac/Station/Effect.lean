import Iso15118.Slac.Station.Basic

/-!
# What a call can do to a station

The engine of `Station/Basic` read backwards. Results about runs go by cases on these two and
never unfold a handler again:

* **`Evse.Effect`** — the station a call leaves, one constructor per branch of the engine, with
  **`Evse.effect_call`**;
* **`Evse.Puts`** — the frames and events a call appends, with **`Evse.puts_call`**.
-/

namespace Iso15118.Slac.Evse

open Iso15118.Lib Iso15118.Session

/-! ## What the building blocks do

One lemma per block: the station it leaves, with the frame it queues given by what the frame
carries. A confirmation always fits its frame; a report does unless the profile claims more
carrier groups than exist. -/

/-- The frame queue after one more frame, if there is room. -/
def pushed (s : Evse) (o : Outgoing) : List Outgoing :=
  if s.out.length < maxPendingFrames then s.out ++ [o] else s.out

/-- The event queue after one more informational event, if there is room. -/
def noted (s : Evse) (e : EvseEvent) : List EvseEvent :=
  if s.events.length < maxPendingEvents then s.events ++ [e] else s.events

theorem fail_of_failed {s : Evse} {reason : Reason} (h : s.state = .failed) : s.fail reason = s :=
  if_pos h

theorem fail_of_not_failed {s : Evse} {reason : Reason} (h : s.state ≠ .failed) :
    s.fail reason
      = { s with state := .failed, deadline := none, events := s.events ++ [.failed reason] } :=
  if_neg h

theorem note_eq (s : Evse) (e : EvseEvent) : s.note e = { s with events := s.noted e } := by
  unfold note noted
  split <;> rfl

theorem queue_of_ok {s : Evse} {destination : MacAddr} {mmtype : Mmtype}
    {encode : Nat → Except SlacError (List UInt8)} {o : Outgoing}
    (h : frame destination s.config.mac mmtype encode = .ok o) :
    s.queue destination mmtype encode = { s with out := s.pushed o } := by
  unfold queue pushed
  rw [h]
  simp only
  split <;> rfl

theorem queue_of_error {s : Evse} {destination : MacAddr} {mmtype : Mmtype}
    {encode : Nat → Except SlacError (List UInt8)} {e : SlacError}
    (h : frame destination s.config.mac mmtype encode = .error e) :
    s.queue destination mmtype encode = s.fail .encodingFailed := by
  unfold queue
  rw [h]

/-- An opened run is sounding, and the vehicle is sent a confirmation. -/
theorem openRun_eq (s : Evse) (now : Instant) (source : MacAddr) (req : SlacParmReq) :
    ∃ o : Outgoing,
      o.Carries source s.config.mac .slacParmCnf (parmCnf source req).fields.flatten
        ∧ s.openRun now source req
          = { s with
              run := some (newRun source req)
              state := .sounding
              events := s.noted (.runStarted req.runId)
              out := s.pushed o
              deadline := some (now + Millis.fromMillis Timers.ttEvseMatchSessionMs) } := by
  obtain ⟨o, hframe, hcarries⟩ := frame_carries source s.config.mac
    ((parmCnf source req).encode_ok (by decide)) (by simp [SlacParmCnf.fields, profileBytes])
    (show Mmtype.fromU16 Mmtype.slacParmCnf.asU16 = .slacParmCnf by decide)
  refine ⟨o, hcarries, ?_⟩
  have hqueue := queue_of_ok (s := { s with
    run := some (newRun source req)
    state := .sounding
    events := s.noted (.runStarted req.runId) }) hframe
  unfold openRun
  simp only [note_eq]
  exact congrArg (arm · now Timers.ttEvseMatchSessionMs) hqueue

/-- A report leaves the station measured, and the vehicle is sent the profile. -/
theorem report_eq {s : Evse} {profile : AttenProfile} (hgroups : profile.numGroups.toNat ≤ aagLen)
    (now : Instant) (run : Run) :
    ∃ o : Outgoing,
      o.Carries run.pevMac s.config.mac .attenCharInd (s.attenInd run profile).fields.flatten
        ∧ s.report now run profile
          = { s with
              state := .measured
              events := s.noted (.measured (meanOf profile) run.sounds)
              out := s.pushed o
              deadline := some (now + Millis.fromMillis Timers.ttEvseMatchSessionMs) } := by
  obtain ⟨o, hframe, hcarries⟩ := frame_carries run.pevMac s.config.mac
    ((s.attenInd run profile).encode_ok hgroups (by decide))
    (by simp [AttenCharInd.fields, profileBytes, aagLen])
    (show Mmtype.fromU16 Mmtype.attenCharInd.asU16 = .attenCharInd by decide)
  refine ⟨o, hcarries, ?_⟩
  have hqueue := queue_of_ok (s := { s with
    state := .measured
    events := s.noted (.measured (meanOf profile) run.sounds) }) hframe
  unfold report
  simp only [note_eq]
  exact congrArg (arm · now Timers.ttEvseMatchSessionMs) hqueue

/-- A report that cannot be encoded ends the run. -/
theorem report_eq_of_lt {s : Evse} {profile : AttenProfile}
    (hgroups : aagLen < profile.numGroups.toNat) (now : Instant) (run : Run) :
    s.report now run profile
      = { s with
          state := .failed
          events := s.noted (.measured (meanOf profile) run.sounds) ++ [.failed .encodingFailed]
          deadline := some (now + Millis.fromMillis Timers.ttEvseMatchSessionMs) } := by
  have hframe : ∀ destination source, frame destination source .attenCharInd
      (s.attenInd run profile).encode = .error (.tooManyGroups profile.numGroups) := by
    intro destination source
    have hvalidate : AttenProfile.validate profile.numGroups
        = .error (.tooManyGroups profile.numGroups) := if_pos hgroups
    unfold frame AttenCharInd.encode
    show ((AttenProfile.validate profile.numGroups >>= _) >>= _) = _
    rw [hvalidate]
    rfl
  have hqueue := queue_of_error (s := { s with
    state := .measured
    events := s.noted (.measured (meanOf profile) run.sounds) }) (hframe run.pevMac _)
  unfold report
  simp only [note_eq]
  exact congrArg (arm · now Timers.ttEvseMatchSessionMs) hqueue

/-- A grant leaves the station matched, and the vehicle is sent the key. -/
theorem grant_eq (s : Evse) (run : Run) (req : SlacMatchReq) :
    ∃ o : Outgoing,
      o.Carries req.pevMac s.config.mac .slacMatchCnf (s.matchCnf run req).fields.flatten
        ∧ s.grant run req
          = { s with
              state := .matched
              deadline := none
              out := s.pushed o
              events := s.events ++ [.matched req.pevId req.pevMac s.config.nmk] } := by
  obtain ⟨o, hframe, hcarries⟩ := frame_carries req.pevMac s.config.mac
    ((s.matchCnf run req).encode_ok (by decide)) (by simp [SlacMatchCnf.fields, profileBytes])
    (show Mmtype.fromU16 Mmtype.slacMatchCnf.asU16 = .slacMatchCnf by decide)
  refine ⟨o, hcarries, ?_⟩
  unfold grant
  rw [queue_of_ok hframe]

theorem exists_noted (s : Evse) (e : EvseEvent) :
    ∃ es, s.noted e = s.events ++ es ∧ ∀ x ∈ es, x = e := by
  unfold noted
  split
  · exact ⟨[e], rfl, fun x hx => List.mem_singleton.mp hx⟩
  · exact ⟨[], (List.append_nil _).symm, fun x hx => by cases hx⟩

theorem exists_pushed (s : Evse) (o : Outgoing) :
    ∃ os, s.pushed o = s.out ++ os ∧ ∀ x ∈ os, x = o := by
  unfold pushed
  split
  · exact ⟨[o], rfl, fun x hx => List.mem_singleton.mp hx⟩
  · exact ⟨[], (List.append_nil _).symm, fun x hx => by cases hx⟩

theorem emitted_of_append {t : Transition Evse Call} {es : List EvseEvent}
    (h : t.after.events = t.before.events ++ es) : emitted t = es := by
  unfold emitted
  rw [h, List.drop_left]

theorem queued_of_append {t : Transition Evse Call} {os : List Outgoing}
    (h : t.after.out = t.before.out ++ os) : queued t = os := by
  unfold queued
  rw [h, List.drop_left]

/-- Closing the burst of a run that is sounding. -/
theorem finishSounding_cases {s : Evse} {run : Run} (now : Instant) (hrun : s.run = some run)
    (hs : s.state = .sounding) :
    (s.measured = none ∧ s.finishSounding now = s.fail .noMeasurement)
      ∨ (∃ profile, s.measured = some profile ∧ s.tooFar profile = true
          ∧ s.finishSounding now = s.fail .tooFarAway)
      ∨ ∃ profile, s.measured = some profile ∧ s.tooFar profile = false
          ∧ s.finishSounding now = s.report now run profile := by
  unfold finishSounding
  rw [if_neg (not_not.mpr hs), hrun]
  cases hm : s.measured with
  | none => exact .inl ⟨rfl, rfl⟩
  | some profile =>
    cases hfar : s.tooFar profile with
    | true => exact .inr (.inl ⟨profile, rfl, hfar, by simp [hfar]⟩)
    | false => exact .inr (.inr ⟨profile, rfl, hfar, by simp [hfar]⟩)

theorem finishSounding_of_ne {s : Evse} {now : Instant} (hs : s.state ≠ .sounding) :
    s.finishSounding now = s := if_pos hs

theorem run_of_bound {s : Evse} {runId : RunId} {source : MacAddr} {run : Run}
    (h : s.bound runId source = some run) :
    s.run = some run ∧ run.id = runId ∧ run.pevMac = source := by
  obtain ⟨hrun, hbound⟩ := Option.filter_eq_some_iff.mp h
  exact ⟨hrun, by simpa using hbound⟩

/-! ## What a call can do

The blocks put together, handler by handler. A branch has the conditions that lead to it as
arguments. -/

/-- Every branch of the engine, with what leads to it. -/
inductive Effect (s : Evse) : Call → Evse → Prop where
  /-- The frame is somebody else's, or says nothing new; the deadline has not passed. -/
  | quiet (c : Call) : Effect s c s
  | opened {now : Instant} {raw : List UInt8} {source : MacAddr} {req : SlacParmReq}
      (hr : receive raw = some (source, .parmReq req)) (ha : s.admits source req = true) :
      Effect s (.frame now raw) (s.openRun now source req)
  | announced {now : Instant} {raw : List UInt8} {source : MacAddr} {ind : StartAttenCharInd}
      {run : Run} (hr : receive raw = some (source, .startAtten ind))
      (hb : s.bound ind.runId source = some run) :
      Effect s (.frame now raw)
        (({ s with run := some { run with expectedSounds := ind.numSounds } } : Evse).arm now
          Timers.ttEvseMatchMnbcMs)
  | sounded {now : Instant} {raw : List UInt8} {source : MacAddr} {ind : MnbcSoundInd} {run : Run}
      (hr : receive raw = some (source, .sound ind)) (hb : s.bound ind.runId source = some run) :
      Effect s (.frame now raw) { s with run := some (Run.sounded run ind) }
  | soundedLast {now : Instant} {raw : List UInt8} {source : MacAddr} {ind : MnbcSoundInd}
      {run : Run} (hr : receive raw = some (source, .sound ind))
      (hb : s.bound ind.runId source = some run)
      (hl : (Run.sounded run ind).sounds ≥ run.expectedSounds) :
      Effect s (.frame now raw)
        (({ s with run := some (Run.sounded run ind) } : Evse).finishSounding now)
  | rejected {now : Instant} {raw : List UInt8} {source : MacAddr} {rsp : AttenCharRsp} {run : Run}
      (hr : receive raw = some (source, .attenRsp rsp)) (hb : s.bound rsp.runId source = some run)
      (hid : rsp.respId = s.config.id) (hres : rsp.result ≠ 0) :
      Effect s (.frame now raw) (s.fail .rejected)
  | refused {now : Instant} {raw : List UInt8} {source : MacAddr} {req : SlacMatchReq} {run : Run}
      (hr : receive raw = some (source, .matchReq req)) (hb : s.bound req.runId source = some run)
      (hmac : req.evseMac = s.config.mac) (hid : req.evseId = s.config.id)
      (hs : s.state ≠ .measured) : Effect s (.frame now raw) (s.fail .outOfSequence)
  | granted {now : Instant} {raw : List UInt8} {source : MacAddr} {req : SlacMatchReq} {run : Run}
      (hr : receive raw = some (source, .matchReq req)) (hb : s.bound req.runId source = some run)
      (hmac : req.evseMac = s.config.mac) (hid : req.evseId = s.config.id)
      (hs : s.state = .measured) : Effect s (.frame now raw) (s.grant run req)
  | windowClosed {now : Instant} {run : Run} (hd : s.deadline.any (fun d => d ≤ now) = true)
      (hs : s.state = .sounding) (hrun : s.run = some run) (hsounds : run.sounds > 0) :
      Effect s (.timeout now) (({ s with deadline := none } : Evse).finishSounding now)
  | timedOut {now : Instant} (hd : s.deadline.any (fun d => d ≤ now) = true)
      (hs : s.state = .sounding ∨ s.state = .measured) :
      Effect s (.timeout now) (({ s with deadline := none } : Evse).fail .timeout)
  | lapsed {now : Instant} (hd : s.deadline.any (fun d => d ≤ now) = true) :
      Effect s (.timeout now) { s with deadline := none }
  | observed (profile : AttenProfile) : Effect s (.observe profile) (s.observe profile)
  | reset : Effect s .reset s.reset
  | polledTransmit : Effect s .pollTransmit { s with out := s.out.tail }
  | polledEvent : Effect s .pollEvent { s with events := s.events.tail }

theorem effect_onParmReq {s : Evse} {now : Instant} {raw : List UInt8} {source : MacAddr}
    {req : SlacParmReq} (hr : receive raw = some (source, .parmReq req)) :
    s.Effect (.frame now raw) (s.onParmReq now source req) := by
  unfold onParmReq
  split
  · next ha => exact .opened hr ha
  · exact .quiet _

theorem effect_onStartAtten {s : Evse} {now : Instant} {raw : List UInt8} {source : MacAddr}
    {ind : StartAttenCharInd} (hr : receive raw = some (source, .startAtten ind)) :
    s.Effect (.frame now raw) (s.onStartAtten now source ind) := by
  unfold onStartAtten
  split
  · exact .quiet _
  · next run hb => exact .announced hr hb

theorem effect_onSound {s : Evse} {now : Instant} {raw : List UInt8} {source : MacAddr}
    {ind : MnbcSoundInd} (hr : receive raw = some (source, .sound ind)) :
    s.Effect (.frame now raw) (s.onSound now source ind) := by
  unfold onSound
  split
  · exact .quiet _
  · next run hb =>
    simp only
    split
    · next hl => exact .soundedLast hr hb hl
    · exact .sounded hr hb

theorem effect_onAttenRsp {s : Evse} {now : Instant} {raw : List UInt8} {source : MacAddr}
    {rsp : AttenCharRsp} (hr : receive raw = some (source, .attenRsp rsp)) :
    s.Effect (.frame now raw) (s.onAttenRsp source rsp) := by
  unfold onAttenRsp
  split
  · exact .quiet _
  · next hb =>
    obtain ⟨run, hrun⟩ := Option.ne_none_iff_exists'.mp (by simpa using hb)
    split
    · exact .quiet _
    · next hid =>
      split
      · next hres => exact .rejected hr hrun (not_not.mp hid) hres
      · exact .quiet _

theorem effect_onMatchReq {s : Evse} {now : Instant} {raw : List UInt8} {source : MacAddr}
    {req : SlacMatchReq} (hr : receive raw = some (source, .matchReq req)) :
    s.Effect (.frame now raw) (s.onMatchReq source req) := by
  unfold onMatchReq
  split
  · exact .quiet _
  · next run hb =>
    split
    · exact .quiet _
    · next haddr =>
      obtain ⟨hmac, hid⟩ := not_or.mp haddr
      split
      · next hs => exact .refused hr hb (not_not.mp hmac) (not_not.mp hid) hs
      · next hs => exact .granted hr hb (not_not.mp hmac) (not_not.mp hid) (not_not.mp hs)

theorem effect_handleTimeout (s : Evse) (now : Instant) :
    s.Effect (.timeout now) (s.handleTimeout now) := by
  unfold handleTimeout
  split
  · next hd =>
    simp only
    split
    · next hs =>
      split
      · next hany =>
        obtain ⟨run, hrun, hsounds⟩ := (Option.any_eq_true _ _).mp hany
        exact .windowClosed hd hs hrun (by simpa using hsounds)
      · exact .timedOut hd (.inl hs)
    · next hs => exact .timedOut hd (.inr hs)
    · exact .lapsed hd
    · exact .lapsed hd
    · exact .lapsed hd
  · exact .quiet _

/-- **What a call can do.** Every call takes one of the engine's branches. -/
theorem effect_call (s : Evse) (c : Call) : s.Effect c (s.call c) := by
  cases c with
  | frame now raw =>
    show s.Effect _ (s.handleFrame now raw)
    unfold handleFrame
    split
    · next hr => exact effect_onParmReq hr
    · next hr => exact effect_onStartAtten hr
    · next hr => exact effect_onSound hr
    · next hr => exact effect_onAttenRsp hr
    · next hr => exact effect_onMatchReq hr
    · exact .quiet _
  | timeout now => exact effect_handleTimeout s now
  | observe profile => exact .observed profile
  | reset => exact .reset
  | pollTransmit => exact .polledTransmit
  | pollEvent => exact .polledEvent

/-! ## What a call puts out

The frames and events of each branch. Most calls put out nothing. -/

/-- The frames and events a call can append: a failure, the confirmation of an opened run, the
report of a closed burst, or the key. -/
inductive Puts (t : Transition Evse Call) : Prop where
  | failure (hq : queued t = []) (he : ∀ x ∈ emitted t, ∃ reason, x = .failed reason)
  | confirmation {source : MacAddr} {req : SlacParmReq}
      (ho : opening t = some (source, req.runId))
      (hq : ∀ o ∈ queued t, o.Carries source t.before.config.mac .slacParmCnf
        (parmCnf source req).fields.flatten)
      (he : ∀ x ∈ emitted t, x = .runStarted req.runId)
  | report {run : Run} {profile : AttenProfile} (hc : closesBurst t = true)
      (hrun : t.after.run = some run) (hm : t.before.measured = some profile)
      (hq : ∀ o ∈ queued t, profile.numGroups.toNat ≤ aagLen
        ∧ o.Carries run.pevMac t.before.config.mac .attenCharInd
            (t.before.attenInd run profile).fields.flatten)
      (he : ∀ x ∈ emitted t,
        x = .measured (meanOf profile) run.sounds ∨ x = .failed .encodingFailed)
  | key {now : Instant} {raw : List UInt8} {source : MacAddr} {req : SlacMatchReq} {run : Run}
      (hcall : t.call = .frame now raw) (hr : receive raw = some (source, .matchReq req))
      (hb : t.before.bound req.runId source = some run)
      (hmac : req.evseMac = t.before.config.mac) (hid : req.evseId = t.before.config.id)
      (hs : t.before.state = .measured)
      (hq : ∀ o ∈ queued t, o.Carries req.pevMac t.before.config.mac .slacMatchCnf
        (t.before.matchCnf run req).fields.flatten)
      (he : emitted t = [.matched req.pevId req.pevMac t.before.config.nmk])

theorem puts_of_quiet {s s' : Evse} {c : Call} (hcall : s.call c = s')
    (hevents : s'.events = s.events) (hout : s'.out = s.out) : Puts (taken call s c) := by
  have hq : queued (taken call s c) = [] := queued_of_append (by simp [taken, hcall, hout])
  have he : emitted (taken call s c) = [] := emitted_of_append (by simp [taken, hcall, hevents])
  exact .failure hq (by simp [he])

theorem puts_of_fail {s s₁ : Evse} {c : Call} {reason : Reason} (hcall : s.call c = s₁.fail reason)
    (hevents : s₁.events = s.events) (hout : s₁.out = s.out) : Puts (taken call s c) := by
  by_cases hf : s₁.state = .failed
  · rw [fail_of_failed hf] at hcall
    exact puts_of_quiet hcall hevents hout
  · rw [fail_of_not_failed hf] at hcall
    have hq : queued (taken call s c) = [] := queued_of_append (by simp [taken, hcall, hout])
    have he : emitted (taken call s c) = [.failed reason] :=
      emitted_of_append (by simp [taken, hcall, hevents])
    exact .failure hq (by simp [he])

/-- Closing the burst: the report, if there is something to report. -/
theorem puts_of_finishSounding {s s₁ : Evse} {c : Call} {now : Instant} {run : Run}
    (hcall : s.call c = s₁.finishSounding now) (hrun : s₁.run = some run)
    (hconfig : s₁.config = s.config) (hm : s₁.measured = s.measured)
    (hevents : s₁.events = s.events) (hout : s₁.out = s.out) (hstate : s₁.state = s.state)
    (hclose : s.state = .sounding → closesBurst (taken call s c) = true) :
    Puts (taken call s c) := by
  by_cases hs : s₁.state = .sounding
  · -- the run is rejected, there is nothing measured, or there is a profile to report
    rcases finishSounding_cases now hrun hs with ⟨-, h⟩ | ⟨profile, -, -, h⟩ | ⟨profile, hp, -, h⟩
    · exact puts_of_fail (hcall.trans h) hevents hout
    · exact puts_of_fail (hcall.trans h) hevents hout
    · rw [h] at hcall
      rw [hstate] at hs
      rw [hm] at hp
      obtain ⟨es, hnoted, hes⟩ := s₁.exists_noted (.measured (meanOf profile) run.sounds)
      rcases Nat.lt_or_ge aagLen profile.numGroups.toNat with hgroups | hgroups
      · -- the report cannot be encoded, and nothing is queued
        rw [report_eq_of_lt hgroups] at hcall
        have hq : queued (taken call s c) = [] := queued_of_append (by simp [taken, hcall, hout])
        have he : emitted (taken call s c) = es ++ [.failed .encodingFailed] :=
          emitted_of_append (by simp [taken, hcall, hnoted, hevents])
        have hafter : (taken call s c).after.run = some run := by simp [taken, hcall, hrun]
        refine .report (hclose hs) hafter hp (by simp [hq]) fun x hx => ?_
        rw [he] at hx
        rcases List.mem_append.mp hx with hx | hx
        · exact .inl (hes x hx)
        · exact .inr (List.mem_singleton.mp hx)
      -- it is encoded, and queued where there is room
      · obtain ⟨o, hcarries, hreport⟩ := report_eq hgroups now run (s := s₁)
        rw [hreport] at hcall
        obtain ⟨os, hpushed, hos⟩ := s₁.exists_pushed o
        have hq : queued (taken call s c) = os :=
          queued_of_append (by simp [taken, hcall, hpushed, hout])
        have he : emitted (taken call s c) = es :=
          emitted_of_append (by simp [taken, hcall, hnoted, hevents])
        have hafter : (taken call s c).after.run = some run := by simp [taken, hcall, hrun]
        refine .report (hclose hs) hafter hp (fun x hx => ?_) fun x hx => ?_
        · rw [hq] at hx
          rw [hos x hx]
          unfold attenInd at hcarries ⊢
          rw [hconfig] at hcarries
          exact ⟨hgroups, hcarries⟩
        · rw [he] at hx
          exact .inl (hes x hx)
  -- nothing is sounded any more
  · rw [finishSounding_of_ne hs] at hcall
    exact puts_of_quiet hcall hevents hout

/-- **What a call puts out.** -/
theorem puts_call (s : Evse) (c : Call) : Puts (taken call s c) := by
  have heffect := effect_call s c
  generalize hcall : s.call c = s' at heffect
  cases heffect with
  | quiet => exact puts_of_quiet hcall rfl rfl
  | @opened now raw source req hr ha =>
    obtain ⟨o, hcarries, hopen⟩ := s.openRun_eq now source req
    rw [hopen] at hcall
    -- a full queue drops the notice or the frame, and what is queued is still no other
    obtain ⟨es, hnoted, hes⟩ := s.exists_noted (.runStarted req.runId)
    obtain ⟨os, hpushed, hos⟩ := s.exists_pushed o
    have hq : queued (taken call s (.frame now raw)) = os :=
      queued_of_append (by simp [taken, hcall, hpushed])
    have he : emitted (taken call s (.frame now raw)) = es :=
      emitted_of_append (by simp [taken, hcall, hnoted])
    have ho : opening (taken call s (.frame now raw)) = some (source, req.runId) := by
      simp [opening, taken, hr, ha]
    refine .confirmation ho (fun x hx => ?_) fun x hx => ?_
    · rw [hq] at hx
      rw [hos x hx]
      exact hcarries
    · rw [he] at hx
      exact hes x hx
  | announced hr hb => exact puts_of_quiet hcall rfl rfl
  | sounded hr hb => exact puts_of_quiet hcall rfl rfl
  -- the last packet closes the burst
  | soundedLast hr hb hl =>
    refine puts_of_finishSounding hcall rfl rfl rfl rfl rfl rfl fun hs => ?_
    simp [closesBurst, taken, hs, hr, hb, hl]
  | rejected hr hb _ _ => exact puts_of_fail hcall rfl rfl
  | refused hr hb _ _ _ => exact puts_of_fail hcall rfl rfl
  -- the key is handed over: one frame, and the match
  | @granted now raw source req run hr hb hmac hid hs =>
    obtain ⟨o, hcarries, hgrant⟩ := s.grant_eq run req
    rw [hgrant] at hcall
    obtain ⟨os, hpushed, hos⟩ := s.exists_pushed o
    have hq : queued (taken call s (.frame now raw)) = os :=
      queued_of_append (by simp [taken, hcall, hpushed])
    refine .key rfl hr hb hmac hid hs (fun x hx => ?_) (emitted_of_append (by simp [taken, hcall]))
    rw [hq] at hx
    rw [hos x hx]
    exact hcarries
  -- so does the window, over a burst of which something has arrived
  | windowClosed hd hs hrun hsounds =>
    refine puts_of_finishSounding hcall hrun rfl rfl rfl rfl rfl fun _ => ?_
    simp [closesBurst, taken, hs, hd, hrun, hsounds]
  | timedOut hd hs => exact puts_of_fail hcall rfl rfl
  | lapsed hd => exact puts_of_quiet hcall rfl rfl
  | observed profile => exact puts_of_quiet hcall rfl rfl
  -- a reset, and a poll, empty a queue
  | reset =>
    have hq : queued (taken call s .reset) = [] :=
      List.drop_eq_nil_of_le (by simp [taken, hcall, Evse.reset])
    have he : emitted (taken call s .reset) = [] :=
      emitted_of_append (by simp [taken, hcall, Evse.reset])
    exact .failure hq (by simp [he])
  | polledTransmit =>
    have hq : queued (taken call s .pollTransmit) = [] :=
      List.drop_eq_nil_of_le (by simp [taken, hcall])
    have he : emitted (taken call s .pollTransmit) = [] :=
      emitted_of_append (by simp [taken, hcall])
    exact .failure hq (by simp [he])
  | polledEvent =>
    have hq : queued (taken call s .pollEvent) = [] := queued_of_append (by simp [taken, hcall])
    have he : emitted (taken call s .pollEvent) = [] :=
      List.drop_eq_nil_of_le (by simp [taken, hcall])
    exact .failure hq (by simp [he])

/-! ## What a call leaves in the queue

Frames are only added at the end and taken from the front. -/

/-- The configuration stays, and the queue has grown or frames have left it. -/
structure Follows (s s' : Evse) : Prop where
  config : s'.config = s.config
  out : s.out <+: s'.out ∨ s'.out <:+ s.out

theorem Follows.of_same {s s' : Evse} (hconfig : s'.config = s.config) (hout : s'.out = s.out) :
    Follows s s' := ⟨hconfig, .inl (hout ▸ List.prefix_refl _)⟩

theorem Follows.of_pushed {s s' : Evse} {o : Outgoing} (hconfig : s'.config = s.config)
    (hout : s'.out = s.pushed o) : Follows s s' := by
  obtain ⟨os, hpushed, -⟩ := s.exists_pushed o
  exact ⟨hconfig, .inl ⟨os, by rw [hout, hpushed]⟩⟩

theorem follows_fail (s : Evse) (reason : Reason) : Follows s (s.fail reason) := by
  unfold fail
  split
  · exact .of_same rfl rfl
  · exact .of_same rfl rfl

theorem follows_finishSounding {s : Evse} (now : Instant) {run : Run} (hrun : s.run = some run) :
    Follows s (s.finishSounding now) := by
  by_cases hs : s.state = .sounding
  · rcases finishSounding_cases now hrun hs with ⟨-, h⟩ | ⟨profile, -, -, h⟩ | ⟨profile, -, -, h⟩
    · rw [h]
      exact follows_fail s _
    · rw [h]
      exact follows_fail s _
    · rw [h]
      rcases Nat.lt_or_ge aagLen profile.numGroups.toNat with hgroups | hgroups
      · rw [report_eq_of_lt hgroups]
        exact .of_same rfl rfl
      · obtain ⟨o, -, hreport⟩ := report_eq hgroups now run (s := s)
        rw [hreport]
        exact .of_pushed rfl rfl
  · rw [finishSounding_of_ne hs]
    exact .of_same rfl rfl

/-- A call keeps the configuration, and adds frames at the end of the queue or takes them from its
front. -/
theorem follows_call (s : Evse) (c : Call) : Follows s (s.call c) := by
  have heffect := effect_call s c
  generalize s.call c = s' at heffect
  cases heffect with
  | quiet => exact .of_same rfl rfl
  | opened hr ha =>
    obtain ⟨o, -, hopen⟩ := s.openRun_eq _ _ _
    rw [hopen]
    exact .of_pushed rfl rfl
  | announced hr hb => exact .of_same rfl rfl
  | sounded hr hb => exact .of_same rfl rfl
  | @soundedLast now raw source ind run hr hb hl =>
    have h := follows_finishSounding (s := { s with run := some (Run.sounded run ind) }) now rfl
    exact ⟨h.config, h.out⟩
  | rejected hr hb _ _ => exact follows_fail s _
  | refused hr hb _ _ _ => exact follows_fail s _
  | @granted _ _ _ req run hr hb _ _ _ =>
    obtain ⟨o, -, hgrant⟩ := s.grant_eq run req
    rw [hgrant]
    exact .of_pushed rfl rfl
  | @windowClosed now _ hd hs hrun _ =>
    have h := follows_finishSounding (s := { s with deadline := none }) now hrun
    exact ⟨h.config, h.out⟩
  | timedOut hd hs =>
    have h := follows_fail { s with deadline := none } .timeout
    exact ⟨h.config, h.out⟩
  | lapsed hd => exact .of_same rfl rfl
  | observed profile => exact .of_same rfl rfl
  | reset => exact ⟨rfl, .inr (List.nil_suffix)⟩
  | polledTransmit => exact ⟨rfl, .inr (List.tail_suffix _)⟩
  | polledEvent => exact .of_same rfl rfl

/-- What is in the queue after a call was there before it, or the call queued it. -/
theorem mem_out_call {s : Evse} {c : Call} {o : Outgoing} (h : o ∈ (s.call c).out) :
    o ∈ s.out ∨ o ∈ queued (taken call s c) := by
  rcases (follows_call s c).out with ⟨os, hos⟩ | hsuffix
  · have hq : queued (taken call s c) = os := queued_of_append hos.symm
    rw [← hos] at h
    rw [hq]
    exact List.mem_append.mp h
  · exact .inl (hsuffix.mem h)

end Iso15118.Slac.Evse
