import Iso15118.Slac.Station.Runs

/-!
# Reporting what was measured in this run

A station reports the attenuation its modem measured over the sounding burst of the run, and a
run in which it measured nothing fails: a station that answered with an old measurement would be
claiming a loudness nobody heard. The stored profile, however, outlives the run it was observed
in — a run that ends by timeout, rejection or failure leaves it behind, and opening the next run
does not clear it.

`Evse.measurements_fresh_iff` says exactly when the reports are fresh and every run with nothing
observed ends for want of a measurement: when every burst that closes has been observed since its
run was opened, or had no profile left over to fall back on, and no run ends in another way before
something was observed in it.
-/

namespace Iso15118.Slac.Evse

open Iso15118.Lib Iso15118.Session

/-! ## Freshness along a run

The rules are about single calls, seen from the stretch of the run they are made in. So is the
condition under which they hold. -/

/-- A `Measured` event gives the mean of a profile observed since the run was opened. -/
def EventFresh (log : List (Transition Evse Call)) (t : Transition Evse Call) : Prop :=
  ∀ mean sounds, .measured mean sounds ∈ emitted t →
    ∃ e later p, Since Opens log e later ∧ Observed later p ∧ mean = meanOf p

/-- A `CM_ATTEN_CHAR.IND` is about the run in progress and carries a profile observed since that
run was opened. -/
def ReportFresh (log : List (Transition Evse Call)) (t : Transition Evse Call) : Prop :=
  ∀ o ∈ queued t, ∀ f, parseFrame o.frame = .ok f → f.mmtype = .attenCharInd →
    ∃ e later ind, Since Opens log e later ∧ AttenCharInd.decode f.payload = .ok ind
      ∧ opening e = some (ind.sourceAddress, ind.runId) ∧ Observed later ind.profile

/-- A run in which nothing has been observed since it was opened ends in one way only: it fails for
want of a measurement. That is how it ends when its burst closes, and it ends in no other way. -/
def SilenceFails (log : List (Transition Evse Call)) (t : Transition Evse Call) : Prop :=
  closesBurst t = true ∨ EndsRun t → ∀ e later, Since Opens log e later →
    (∀ p, ¬ Observed later p) → emitted t = [.failed .noMeasurement]

def MeasurementsFresh (config : EvseConfig) (calls : List Call) : Prop :=
  Along (fun log t => EventFresh log t ∧ ReportFresh log t ∧ SilenceFails log t)
    (history config calls)

/-- Every burst that closes belongs to a run that was opened with no stored profile, or has been
observed since; and a run that is ended in any other way has been. -/
structure Renewed (log : List (Transition Evse Call)) (t : Transition Evse Call) : Prop where
  closing : closesBurst t = true → ∀ e later, Since Opens log e later →
    e.before.measured = none ∨ ∃ p, Observed later p
  ending : endsOtherwise t = true → ∀ e later, Since Opens log e later → ∃ p, Observed later p

def ProfilesRenewed (config : EvseConfig) (calls : List Call) : Prop :=
  Along Renewed (history config calls)

/-! ## Closing the burst

What closing a burst comes to depends on the stored profile alone. -/

/-- A call that closes the burst is made in a sounding run, and comes down to `finishSounding`. -/
theorem call_of_closesBurst {s : Evse} {c : Call} (h : closesBurst (taken call s c) = true) :
    ∃ (s₁ : Evse) (r r₁ : Run) (now : Instant),
      s.call c = s₁.finishSounding now ∧ s.run = some r ∧ s₁.run = some r₁
      ∧ s₁.state = .sounding ∧ s₁.measured = s.measured ∧ s₁.events = s.events
      ∧ s₁.config = s.config ∧ s₁.out = s.out := by
  unfold closesBurst taken at h
  simp only [Bool.and_eq_true, decide_eq_true_eq] at h
  obtain ⟨hs, h⟩ := h
  cases c with
  | frame now raw =>
    simp only at h
    split at h
    case h_2 => cases h
    -- the sound that was still missing
    case h_1 source ind hr =>
      obtain ⟨run, hb, hl⟩ := (Option.any_eq_true _ _).mp h
      refine ⟨{ s with run := some (Run.sounded run ind) }, run, _, now, ?_,
        (run_of_bound hb).1, rfl, hs, rfl, rfl, rfl, rfl⟩
      show s.handleFrame now raw = _
      simp only [handleFrame, hr, onSound, hb]
      exact if_pos (of_decide_eq_true hl)
  | timeout now =>
    simp only [Bool.and_eq_true] at h
    obtain ⟨hd, hany⟩ := h
    -- or the window, once there was a sound
    obtain ⟨run, hrun, -⟩ := (Option.any_eq_true _ _).mp hany
    refine ⟨{ s with deadline := none }, run, run, now, ?_, hrun, hrun, hs, rfl, rfl, rfl,
      rfl⟩
    show s.handleTimeout now = _
    simp [handleTimeout, hd, hs, hany]
  | observe _ => cases h
  | reset => cases h
  | pollTransmit => cases h
  | pollEvent => cases h

theorem opening_of_closesBurst {t : Transition Evse Call} (h : closesBurst t = true) :
    opening t = none := by
  unfold closesBurst at h
  rw [Bool.and_eq_true] at h
  have hcall := h.2
  unfold opening
  split at hcall
  case h_1 now raw hframe =>
    split at hcall
    case h_1 hr => simp [hframe, hr]
    case h_2 => cases hcall
  case h_2 now htimeout => rw [htimeout]
  case h_3 => cases hcall

/-- Closing a burst fails for want of a measurement exactly when no profile is stored. -/
theorem emitted_of_closesBurst {s : Evse} {c : Call} (h : closesBurst (taken call s c) = true) :
    emitted (taken call s c) = [.failed .noMeasurement] ↔ s.measured = none := by
  obtain ⟨s₁, r, r₁, now, hcall, -, hrun₁, hs₁, hm, hevents, -⟩ := call_of_closesBurst h
  have hfail : ∀ reason, s₁.finishSounding now = s₁.fail reason →
      emitted (taken call s c) = [.failed reason] := by
    intro reason hfin
    rw [hfin, fail_of_not_failed (by simp [hs₁])] at hcall
    exact emitted_of_append (by simp [taken, hcall, hevents])
  rw [← hm]
  rcases finishSounding_cases now hrun₁ hs₁ with
    ⟨hnone, hfin⟩ | ⟨profile, hsome, -, hfin⟩ | ⟨profile, hsome, -, hfin⟩
  · exact iff_of_true (hfail _ hfin) hnone
  · refine iff_of_false ?_ (by simp [hsome])
    rw [hfail _ hfin]
    simp
  · refine iff_of_false ?_ (by simp [hsome])
    rw [hfin] at hcall
    -- with a profile there is a notice or an encoding failure, and never this one
    obtain ⟨es, hnoted, hes⟩ := s₁.exists_noted (.measured (meanOf profile) r₁.sounds)
    intro hemitted
    have hmem : EvseEvent.failed .noMeasurement ∈ emitted (taken call s c) := by simp [hemitted]
    rcases Nat.lt_or_ge aagLen profile.numGroups.toNat with hgroups | hgroups
    · rw [report_eq_of_lt hgroups] at hcall
      have he : emitted (taken call s c) = es ++ [.failed .encodingFailed] :=
        emitted_of_append (by simp [taken, hcall, hnoted, hevents])
      rw [he] at hmem
      rcases List.mem_append.mp hmem with hmem | hmem
      · cases hes _ hmem
      · cases List.mem_singleton.mp hmem
    · obtain ⟨o, -, hreport⟩ := report_eq hgroups now r₁ (s := s₁)
      rw [hreport] at hcall
      have he : emitted (taken call s c) = es :=
        emitted_of_append (by simp [taken, hcall, hnoted, hevents])
      rw [he] at hmem
      cases hes _ hmem

/-! ## The end of a run

A run ends where its burst closes with nothing to report, and otherwise by a rejection, a key
request, a deadline or a reset. Only the first of these says that a measurement is missing. -/

theorem emitted_fail {s s₁ : Evse} {c : Call} {reason : Reason} (hcall : s.call c = s₁.fail reason)
    (hstate : s₁.state ≠ .failed) (hevents : s₁.events = s.events) :
    emitted (taken call s c) = [.failed reason] ∧ ¬ (taken call s c).after.InProgress := by
  rw [fail_of_not_failed hstate] at hcall
  have hafter : (taken call s c).after.state = .failed := by simp [taken, hcall]
  refine ⟨emitted_of_append (by simp [taken, hcall, hevents]), ?_⟩
  rintro (h | h)
  · simp [hafter] at h
  · simp [hafter] at h

theorem InProgress.not_failed {s : Evse} (h : s.InProgress) : s.state ≠ .failed := by
  rcases h with h | h <;> simp [h]

/-- What ends a run otherwise does end it, and reports something else than a missing measurement. -/
theorem endsRun_of_endsOtherwise {s : Evse} {c : Call}
    (h : endsOtherwise (taken call s c) = true) :
    EndsRun (taken call s c) ∧ emitted (taken call s c) ≠ [.failed .noMeasurement] := by
  unfold endsOtherwise at h
  rw [Bool.and_eq_true, decide_eq_true_eq] at h
  obtain ⟨(hprogress : s.InProgress), h⟩ := h
  -- whatever fails the run does so from a state that has not failed yet, and reports why
  have hfails : ∀ {s₁ : Evse} {reason : Reason}, s.call c = s₁.fail reason → s₁.state = s.state →
      s₁.events = s.events → reason ≠ .noMeasurement →
      EndsRun (taken call s c) ∧ emitted (taken call s c) ≠ [.failed .noMeasurement] := by
    intro s₁ reason hcall hstate hevents hreason
    obtain ⟨hemitted, hover⟩ := emitted_fail hcall (hstate ▸ hprogress.not_failed) hevents
    refine ⟨⟨hprogress, hover⟩, ?_⟩
    rw [hemitted]
    simpa using hreason
  -- only four calls can end a run: two frames, the clock and the application
  cases c with
  | frame now raw =>
    have hcall : s.call (.frame now raw) = s.handleFrame now raw := rfl
    simp only [taken] at h
    split at h
    case h_1 source rsp hr =>
      -- the vehicle rejects what it was told
      simp only [Bool.and_eq_true, decide_eq_true_eq] at h
      obtain ⟨⟨hbound, hid⟩, hres⟩ := h
      have hid : rsp.respId = s.config.id := of_decide_eq_true hid
      have hbound : ¬ (s.bound rsp.runId source).isNone = true := by
        rw [Option.isNone_iff_eq_none, ← ne_eq, Option.ne_none_iff_isSome]
        exact hbound
      have hreject : s.call (.frame now raw) = s.fail .rejected := by
        rw [hcall, handleFrame, hr]
        simp only [onAttenRsp]
        rw [if_neg hbound, if_neg (not_not.mpr hid), if_pos hres]
      exact hfails hreject rfl rfl (by decide)
    case h_2 source req hr =>
      simp only [Bool.and_eq_true] at h
      obtain ⟨⟨hbound, hmac⟩, hid⟩ := h
      have hmac : req.evseMac = s.config.mac := of_decide_eq_true hmac
      have hid : req.evseId = s.config.id := of_decide_eq_true hid
      obtain ⟨run, hrun⟩ := Option.isSome_iff_exists.mp hbound
      have hreq : s.call (.frame now raw)
          = if s.state ≠ .measured then s.fail .outOfSequence else s.grant run req := by
        rw [hcall, handleFrame, hr]
        simp only [onMatchReq, hrun]
        rw [if_neg (by simp [hmac, hid])]
      by_cases hs : s.state = .measured
      · -- the key is handed over
        rw [if_neg (not_not.mpr hs)] at hreq
        obtain ⟨o, -, hgrant⟩ := s.grant_eq run req
        rw [hgrant] at hreq
        have hemitted : emitted (taken call s (.frame now raw))
            = [.matched req.pevId req.pevMac s.config.nmk] :=
          emitted_of_append (by simp [taken, hreq])
        refine ⟨⟨hprogress, ?_⟩, by rw [hemitted]; simp⟩
        have hafter : (taken call s (.frame now raw)).after.state = .matched := by
          simp [taken, hreq]
        rintro (hstate | hstate)
        · simp [hafter] at hstate
        · simp [hafter] at hstate
      · rw [if_pos hs] at hreq
        exact hfails hreq rfl rfl (by decide)
    case h_3 => cases h
  | timeout now =>
    -- the match timer: it ends a run that is measured, or one of which nothing was heard
    simp only [taken, Bool.and_eq_true, Bool.not_eq_true'] at h
    obtain ⟨hdue, hcloses⟩ := h
    have htimeout : s.call (.timeout now) = ({ s with deadline := none } : Evse).fail .timeout := by
      show s.handleTimeout now = _
      rw [handleTimeout, if_pos hdue]
      rcases hprogress with hs | hs
      · -- nothing was heard of the burst, or it would be closed now
        have hquiet : s.run.any (fun r => r.sounds > 0) = false := by
          simpa [closesBurst, hs, hdue] using hcloses
        simp only [hs, hquiet, Bool.false_eq_true, if_false]
      · simp only [hs]
    exact hfails htimeout rfl rfl (by decide)
  | reset =>
    have hemitted : emitted (taken call s .reset) = [] :=
      emitted_of_append (by simp [taken, call, reset])
    refine ⟨⟨hprogress, ?_⟩, by rw [hemitted]; simp⟩
    rintro (hstate | hstate) <;> cases hstate
  | observe profile => cases h
  | pollTransmit => cases h
  | pollEvent => cases h

/-- A run that ends does so where its burst closes, or otherwise. -/
theorem closesBurst_or_endsOtherwise {s : Evse} {c : Call} (h : EndsRun (taken call s c)) :
    closesBurst (taken call s c) = true ∨ endsOtherwise (taken call s c) = true := by
  obtain ⟨(hprogress : s.InProgress), (hover : ¬ (s.call c).InProgress)⟩ := h
  have hsame : (s.call c).state ≠ s.state := by
    intro heq
    exact hover (by rw [InProgress, heq]; exact hprogress)
  have heffect := effect_call s c
  generalize hcall : s.call c = s' at heffect hsame hover
  -- most calls leave the run going
  cases heffect with
  | quiet => exact absurd rfl hsame
  | opened hr ha =>
    obtain ⟨o, -, hopen⟩ := s.openRun_eq _ _ _
    rw [hopen] at hover
    exact absurd (.inl rfl) hover
  | announced hr hb => exact absurd rfl hsame
  | sounded hr hb => exact absurd rfl hsame
  -- the last sound closes the burst, unless the sounding was over already
  | soundedLast hr hb hl =>
    rcases hprogress with hs | hs
    · exact .inl (by simp [closesBurst, taken, hs, hr, hb, hl])
    · rw [finishSounding_of_ne (by simp [hs])] at hsame
      exact absurd rfl hsame
  | rejected hr hb hid hres =>
    exact .inr (by simp [endsOtherwise, taken, hprogress, hr, hb, hid, hres])
  | refused hr hb hmac hid hs =>
    exact .inr (by simp [endsOtherwise, taken, hprogress, hr, hb, hmac, hid])
  | granted hr hb hmac hid hs =>
    exact .inr (by simp [endsOtherwise, taken, hprogress, hr, hb, hmac, hid])
  | windowClosed hd hs hrun hsounds =>
    exact .inl (by simp [closesBurst, taken, hs, hd, hrun, hsounds])
  -- a deadline closes a burst that is on, and ends any other run
  | @timedOut now hd hs =>
    by_cases hcloses : closesBurst (taken call s (.timeout now)) = true
    · exact .inl hcloses
    · refine .inr ?_
      unfold endsOtherwise
      simp only [Bool.not_eq_true] at hcloses
      rw [hcloses]
      simp [taken, hprogress, hd]
  | lapsed hd => exact absurd rfl hsame
  | observed profile => exact absurd rfl hsame
  | reset => exact .inr (by simp [endsOtherwise, taken, hprogress])
  | polledTransmit => exact absurd rfl hsame
  | polledEvent => exact absurd rfl hsame

/-! ## Fresh exactly when renewed

A closing burst reports what is stored. In a run that is renewed that was observed in the run,
and in one that is not nothing was. -/

/-- What a report carries, read back off the wire. -/
theorem decode_of_carries {o : Outgoing} {destination source : MacAddr} {ind : AttenCharInd}
    (h : o.Carries destination source .attenCharInd ind.fields.flatten)
    (hgroups : ind.profile.numGroups.toNat ≤ aagLen) {f : Frame}
    (hparse : parseFrame o.frame = .ok f) : AttenCharInd.decode f.payload = .ok ind := by
  obtain ⟨padding, hparses⟩ := h.parses
  rw [hparse] at hparses
  cases hparses
  exact ind.decode_fields hgroups padding

section Call

variable {config : EvseConfig} {xs : List Call} {c : Call}

/-- In a renewed run, the profile a closing burst finds stored was observed in the run. -/
theorem observed_of_renewed
    (hclose : closesBurst (taken call (after config xs) c) = true)
    (hrenewed : Renewed (history config xs) (taken call (after config xs) c)) :
    ∃ r e later, (after config xs).run = some r
      ∧ Traced (history config xs) (after config xs) r e later
      ∧ ∀ p, (after config xs).measured = some p → Observed later p := by
  obtain ⟨-, r, -, -, -, hrun, -⟩ := call_of_closesBurst hclose
  obtain ⟨e, later, htraced⟩ := exists_traced config xs hrun
  refine ⟨r, e, later, hrun, htraced, fun p hp => ?_⟩
  rcases htraced.measured with ⟨q, hq, hobs⟩ | ⟨hbefore, hnone⟩
  · rw [hp] at hq
    cases hq
    exact hobs
  · -- nothing observed since the opening, so the opening found no profile either
    rcases hrenewed.closing hclose e later htraced.since with hbefore' | ⟨q, hobs⟩
    · rw [hp, hbefore'] at hbefore
      cases hbefore
    · exact absurd hobs (hnone q)

/-- A burst that was observed in its own run is reported from that run, and a silent one fails. -/
theorem fresh_of_renewed (hrenewed : Renewed (history config xs) (taken call (after config xs) c)) :
    EventFresh (history config xs) (taken call (after config xs) c)
      ∧ ReportFresh (history config xs) (taken call (after config xs) c)
      ∧ SilenceFails (history config xs) (taken call (after config xs) c) := by
  refine ⟨?_, ?_, ?_⟩
  -- only a report notes a measurement, and only a report is an ATTEN_CHAR.IND
  · intro mean sounds hmem
    cases puts_call (after config xs) c with
    | failure hq he => obtain ⟨reason, h⟩ := he _ hmem; cases h
    | confirmation ho hq he => cases he _ hmem
    | @report run profile hc hrun hm hq he =>
      obtain ⟨r, e, later, -, htraced, hobs⟩ := observed_of_renewed hc hrenewed
      rcases he _ hmem with h | h
      · cases h
        exact ⟨e, later, profile, htraced.since, hobs profile hm, rfl⟩
      · cases h
    | key hcall hr hb hmac hid hs hq he =>
      rw [he] at hmem
      cases List.mem_singleton.mp hmem
  · intro o ho f hparse htype
    cases puts_call (after config xs) c with
    | failure hq he => rw [hq] at ho; cases ho
    | confirmation hopen hq he =>
      rw [(hq o ho).mmtype_eq hparse] at htype
      cases htype
    | @report run profile hc hrun hm hq he =>
      obtain ⟨hgroups, hcarries⟩ := hq o ho
      obtain ⟨r, e, later, hbefore, htraced, hobs⟩ := observed_of_renewed hc hrenewed
      refine ⟨e, later, _, htraced.since, decode_of_carries hcarries hgroups hparse, ?_,
        hobs profile hm⟩
      obtain ⟨⟨r₀, hr₀, hsame⟩, -⟩ := call_keeps (opening_of_closesBurst hc) hrun
      rw [hbefore] at hr₀
      cases hr₀
      rw [htraced.opened, hsame.1, hsame.2]
      rfl
    | key hcall hr hb hmac hid hs hq he =>
      rw [(hq o ho).mmtype_eq hparse] at htype
      cases htype
  · intro hends e later hsince hnone
    -- a run that ends otherwise than by its burst has been observed
    have hclose : closesBurst (taken call (after config xs) c) = true := by
      rcases hends with hclose | hends
      · exact hclose
      · refine (closesBurst_or_endsOtherwise hends).resolve_right fun hother => ?_
        obtain ⟨p, hp⟩ := hrenewed.ending hother e later hsince
        exact hnone p hp
    obtain ⟨r, e', later', -, htraced, hobs⟩ := observed_of_renewed hclose hrenewed
    obtain ⟨rfl, rfl⟩ := hsince.unique htraced.since
    refine (emitted_of_closesBurst hclose).mpr ?_
    by_contra hm
    obtain ⟨p, hp⟩ := Option.ne_none_iff_exists'.mp hm
    exact hnone p (hobs p hp)

theorem renewed_of_silenceFails
    (h : SilenceFails (history config xs) (taken call (after config xs) c)) :
    Renewed (history config xs) (taken call (after config xs) c) := by
  refine ⟨fun hclose e later hsince => ?_, fun hother e later hsince => ?_⟩
  · by_cases hobs : ∃ p, Observed later p
    · exact .inr hobs
    · -- nothing was observed, so the run fails for want of a measurement: none was stored
      have hnone : ∀ p, ¬ Observed later p := fun p hp => hobs ⟨p, hp⟩
      have hm := (emitted_of_closesBurst hclose).mp (h (.inl hclose) e later hsince hnone)
      obtain ⟨-, r, -, -, -, hrun, -⟩ := call_of_closesBurst hclose
      obtain ⟨e', later', htraced⟩ := exists_traced config xs hrun
      obtain ⟨rfl, rfl⟩ := hsince.unique htraced.since
      rcases htraced.measured with ⟨p, -, hp⟩ | ⟨hbefore, -⟩
      · exact absurd hp (hnone p)
      · exact .inl (hbefore.symm.trans hm)
  · -- the run ends, and with nothing observed it would end for want of a measurement
    obtain ⟨hends, hemitted⟩ := endsRun_of_endsOtherwise hother
    by_contra hobs
    exact hemitted (h (.inr hends) e later hsince fun p hp => hobs ⟨p, hp⟩)

end Call

/-- **Fresh measurements, exactly.** Every report and every `Measured` event of a run gives a
profile observed since the run was opened, and a run with nothing observed since then ends for want
of a measurement and in no other way, if and only if every burst that closes belongs to a run that
was opened with no stored profile or has been observed since, and every run that ends otherwise has
been observed. -/
theorem measurements_fresh_iff (config : EvseConfig) (calls : List Call) :
    MeasurementsFresh config calls ↔ ProfilesRenewed config calls := by
  unfold MeasurementsFresh ProfilesRenewed history
  rw [along_trace, along_trace]
  constructor
  · intro h xs c ys heq
    exact renewed_of_silenceFails (h xs c ys heq).2.2
  · intro h xs c ys heq
    exact fresh_of_renewed (h xs c ys heq)

/-- A run that times out after its report leaves its profile behind, and the next run, in which
nothing is observed, reports it again. -/
theorem not_measurementsFresh_staleProfile :
    ¬ MeasurementsFresh Sample.station
      ([Sample.parmReq, Sample.startAtten, .observe Sample.profile, Sample.sound,
        .timeout ⟨20000⟩] ++ [Sample.parmReq] ++ [Sample.startAtten] ++ [Sample.sound]) := by
  intro h
  unfold MeasurementsFresh history at h
  rw [trace_concat] at h
  obtain ⟨hevent, -, -⟩ := ((along_concat _ _).mp h).2
  obtain ⟨e, later, p, hsince, ⟨t, ht, hobserve⟩, -⟩ := hevent 30 1 (by decide +kernel)
  -- the run was opened one call before the announcement of its burst
  rw [trace_concat] at hsince
  obtain ⟨mid, rfl, hmid⟩ := since_concat_of_not_mark (by unfold Opens; decide +kernel) hsince
  rw [trace_concat] at hmid
  obtain ⟨-, rfl⟩ := since_concat_of_mark (by unfold Opens; decide +kernel) hmid
  rw [List.mem_singleton.mp ht] at hobserve
  cases hobserve

end Iso15118.Slac.Evse
