import Iso15118.Slac.Station.Outcome

/-!
# What a station holds for an application that does not come for it

Frames and informational events stop at a limit. A failure and a match are queued beyond it, on the
ground that a run has one outcome; but anything on the medium can open the next run of a station
that has failed, and fail that one too.

* **`Evse.Held`** — the invariant: the outcome a run in progress is owed is already counted;
* **`Evse.queues_bounded`** — the frames are bounded whatever comes in, and the events in every run
  in which a station whose event queue is full is not brought to another outcome.
-/

namespace Iso15118.Slac.Evse

open Iso15118.Lib Iso15118.Session

/-- The event queue is full, and the call opens a run where none was in progress, or undoes a
match. -/
def Overruns (s : Evse) (c : Call) : Prop :=
  maxPendingEvents < s.events.length
    ∧ ((opening (taken call s c)).isSome = true ∧ credit s.state = 0
      ∨ s.state = .matched ∧ s.unsettles c = true)

/-- The queues are within their limits, with the outcome of a run in progress counted as if it were
there. -/
structure Held (s : Evse) : Prop where
  idle : s.IdleFree
  frames : s.out.length ≤ maxPendingFrames
  events : s.events.length + credit s.state ≤ maxPendingEvents + 1

theorem length_pushed {s : Evse} (h : s.out.length ≤ maxPendingFrames) (o : Outgoing) :
    (s.pushed o).length ≤ maxPendingFrames := by
  unfold pushed
  split
  · rw [List.length_append, List.length_singleton]
    omega
  · exact h

/-! ## Frames

No block queues a frame without asking for room. -/

theorem frames_fail {s : Evse} (h : s.out.length ≤ maxPendingFrames) (reason : Reason) :
    (s.fail reason).out.length ≤ maxPendingFrames := by
  unfold fail
  split
  · exact h
  · exact h

theorem frames_finishSounding {s : Evse} (h : s.out.length ≤ maxPendingFrames) (now : Instant)
    {run : Run} (hrun : s.run = some run) :
    (s.finishSounding now).out.length ≤ maxPendingFrames := by
  by_cases hs : s.state = .sounding
  · rcases finishSounding_cases now hrun hs with
      ⟨-, hfin⟩ | ⟨profile, -, -, hfin⟩ | ⟨profile, -, -, hfin⟩
    · rw [hfin]
      exact frames_fail h _
    · rw [hfin]
      exact frames_fail h _
    · rw [hfin]
      rcases Nat.lt_or_ge aagLen profile.numGroups.toNat with hgroups | hgroups
      · rw [report_eq_of_lt hgroups]
        exact h
      · obtain ⟨o, -, hreport⟩ := report_eq hgroups now run (s := s)
        rw [hreport]
        exact length_pushed h o
  · rw [finishSounding_of_ne hs]
    exact h

/-- No call queues a frame beyond the limit. -/
theorem frames_call {s : Evse} (h : s.out.length ≤ maxPendingFrames) (c : Call) :
    (s.call c).out.length ≤ maxPendingFrames := by
  have heffect := effect_call s c
  generalize s.call c = s' at heffect
  cases heffect with
  | quiet => exact h
  | opened hr ha =>
    obtain ⟨o, -, hopen⟩ := s.openRun_eq _ _ _
    rw [hopen]
    exact length_pushed h o
  | announced hr hb => exact h
  | sounded hr hb => exact h
  | @soundedLast now raw source ind run hr hb hl =>
    exact frames_finishSounding (s := { s with run := some (Run.sounded run ind) }) h now rfl
  | rejected hr hb _ _ => exact frames_fail h _
  | refused hr hb _ _ _ => exact frames_fail h _
  | @granted _ _ _ req run hr hb _ _ _ =>
    obtain ⟨o, -, hgrant⟩ := s.grant_eq run req
    rw [hgrant]
    exact length_pushed h o
  | windowClosed hd hs hrun _ =>
    exact frames_finishSounding (s := { s with deadline := none }) h _ hrun
  | timedOut hd hs => exact frames_fail (s := { s with deadline := none }) h _
  | lapsed hd => exact h
  | observed profile => exact h
  | reset => exact Nat.zero_le _
  | polledTransmit =>
    rw [List.length_tail]
    exact Nat.le_trans (Nat.sub_le _ 1) h
  | polledEvent => exact h

/-! ## Events

Notices ask for room and outcomes do not. The outcome that a run is owed is counted from its
beginning, so it has its place when it comes. -/

theorem length_noted (s : Evse) (e : EvseEvent) :
    (s.noted e).length ≤ Nat.max maxPendingEvents s.events.length := by
  unfold noted
  split
  · rw [List.length_append, List.length_singleton]
    exact Nat.le_trans (by omega) (Nat.le_max_left ..)
  · exact Nat.le_max_right ..

/-- A failure takes the place of the outcome that was owed, or there is still room for it. -/
theorem events_fail {s : Evse} {reason : Reason}
    (h : s.events.length + credit s.state ≤ maxPendingEvents + 1)
    (hroom : credit s.state = 0 → s.state ≠ .failed → s.events.length ≤ maxPendingEvents) :
    (s.fail reason).events.length + credit (s.fail reason).state ≤ maxPendingEvents + 1 := by
  by_cases hf : s.state = .failed
  · rw [fail_of_failed hf]
    exact h
  · rw [fail_of_not_failed hf]
    show (s.events ++ [EvseEvent.failed reason]).length + 0 ≤ maxPendingEvents + 1
    rw [List.length_append, List.length_singleton]
    by_cases hcredit : credit s.state = 0
    · have hle := hroom hcredit hf
      omega
    · omega

/-- The end of a burst adds one event at most, and takes the credit for it. -/
theorem events_finishSounding {s : Evse}
    (h : s.events.length + credit s.state ≤ maxPendingEvents + 1) (now : Instant) {run : Run}
    (hrun : s.run = some run) :
    (s.finishSounding now).events.length + credit (s.finishSounding now).state
      ≤ maxPendingEvents + 1 := by
  by_cases hs : s.state = .sounding
  · have howed : credit s.state = 1 := by
      rw [hs]
      rfl
    have hfail : ∀ reason, (s.fail reason).events.length + credit (s.fail reason).state
        ≤ maxPendingEvents + 1 := fun reason => events_fail h fun hzero _ => by omega
    rcases finishSounding_cases now hrun hs with
      ⟨-, hfin⟩ | ⟨profile, -, -, hfin⟩ | ⟨profile, -, -, hfin⟩
    · rw [hfin]
      exact hfail _
    · rw [hfin]
      exact hfail _
    · rw [hfin]
      have hnoted := s.length_noted (.measured (meanOf profile) run.sounds)
      have hmax : Nat.max maxPendingEvents s.events.length = maxPendingEvents :=
        Nat.max_eq_left (by omega)
      rcases Nat.lt_or_ge aagLen profile.numGroups.toNat with hgroups | hgroups
      · rw [report_eq_of_lt hgroups]
        show (_ ++ [_]).length + 0 ≤ maxPendingEvents + 1
        rw [List.length_append, List.length_singleton]
        omega
      · obtain ⟨o, -, hreport⟩ := report_eq hgroups now run (s := s)
        rw [hreport]
        show (s.noted _).length + 1 ≤ maxPendingEvents + 1
        omega
  · rw [finishSounding_of_ne hs]
    exact h

/-- **One call.** A call that does not bring a station with a full event queue to another outcome
keeps the queues within their limits. -/
theorem Held.call {s : Evse} {c : Call} (h : s.Held) (hroom : ¬ s.Overruns c) :
    (s.call c).Held := by
  refine ⟨h.idle.call c, frames_call h.frames c, ?_⟩
  have hevents := h.events
  have heffect := effect_call s c
  generalize hcall : s.call c = s' at heffect
  cases heffect with
  | quiet => exact hevents
  | @opened now raw source req hr ha =>
    obtain ⟨o, -, hopen⟩ := s.openRun_eq now source req
    rw [hopen]
    have hnoted := s.length_noted (.runStarted req.runId)
    show (s.noted _).length + 1 ≤ maxPendingEvents + 1
    have hle : s.events.length ≤ maxPendingEvents := by
      by_cases hcredit : credit s.state = 0
      · by_contra hfull
        exact hroom ⟨by omega, .inl ⟨by simp [opening, taken, hr, ha], hcredit⟩⟩
      · omega
    have hmax : Nat.max maxPendingEvents s.events.length = maxPendingEvents := Nat.max_eq_left hle
    omega
  | announced hr hb => exact hevents
  | sounded hr hb => exact hevents
  | @soundedLast now raw source ind run hr hb hl =>
    exact events_finishSounding (s := { s with run := some (Run.sounded run ind) }) hevents now rfl
  | rejected hr hb hid hres =>
    refine events_fail hevents fun hcredit hfailed => ?_
    -- the queue is full and no event is owed: the call is the overrun
    by_contra hfull
    -- a run whose outcome is still owed has a slot kept; only a matched one can overrun
    have hidle := h.idle.ne_idle hb
    have hmatched : s.state = .matched := by
      cases hs : s.state <;> simp_all [credit]
    exact hroom ⟨by omega, .inr ⟨hmatched, by simp [unsettles, hr, hb, hid, hres]⟩⟩
  | refused hr hb hmac hid _ =>
    refine events_fail hevents fun hcredit hfailed => ?_
    by_contra hfull
    have hidle := h.idle.ne_idle hb
    have hmatched : s.state = .matched := by
      cases hs : s.state <;> simp_all [credit]
    exact hroom ⟨by omega, .inr ⟨hmatched, by simp [unsettles, hr, hb, hid, hmac]⟩⟩
  | @granted _ _ _ req run hr hb _ _ hs =>
    obtain ⟨o, -, hgrant⟩ := s.grant_eq run req
    rw [hgrant]
    -- the outcome takes the slot that was kept for it
    have howed : credit s.state = 1 := by
      rw [hs]
      rfl
    show (s.events ++ [_]).length + 0 ≤ maxPendingEvents + 1
    rw [List.length_append, List.length_singleton]
    omega
  | windowClosed hd hs hrun _ =>
    exact events_finishSounding (s := { s with deadline := none }) hevents _ hrun
  | timedOut hd hs =>
    refine events_fail (s := { s with deadline := none }) hevents fun hcredit _ => ?_
    have hcredit : credit s.state = 0 := hcredit
    rcases hs with hs | hs
    · rw [hs] at hcredit
      cases hcredit
    · rw [hs] at hcredit
      cases hcredit
  | lapsed hd => exact hevents
  | observed profile => exact hevents
  | reset =>
    show s.events.length + 0 ≤ maxPendingEvents + 1
    omega
  | polledTransmit => exact hevents
  | polledEvent =>
    show s.events.tail.length + credit s.state ≤ maxPendingEvents + 1
    rw [List.length_tail]
    omega

theorem held_new (config : EvseConfig) : (new config).Held where
  idle _ := rfl
  frames := Nat.zero_le _
  events := Nat.zero_le _

/-- **The queues are bounded**: the frames in every state of every run, whether anybody drains the
queues or not, and the events in every state of a run in which no run is opened, and no match
undone, on a station that holds more than `MAX_PENDING_EVENTS` of them. -/
theorem queues_bounded (config : EvseConfig) (calls : List Call) :
    (after config calls).out.length ≤ maxPendingFrames
      ∧ (Along (fun _ t => ¬ t.before.Overruns t.call) (history config calls) →
        ∀ xs ys, calls = xs ++ ys →
          (after config xs).events.length ≤ maxPendingEvents + 1) := by
  constructor
  · unfold after
    induction calls using List.reverseRecOn with
    | nil => exact Nat.zero_le _
    | append_singleton xs c ih =>
      rw [run_concat]
      exact frames_call ih c
  · rintro h xs ys rfl
    have hheld : ∀ xs, Along (fun _ t => ¬ t.before.Overruns t.call) (history config xs) →
        (after config xs).Held := by
      intro xs
      unfold after history
      induction xs using List.reverseRecOn with
      | nil => exact fun _ => held_new config
      | append_singleton xs c ih =>
        intro h
        rw [trace_concat] at h
        obtain ⟨hxs, hc⟩ := (along_concat _ _).mp h
        rw [run_concat]
        exact (ih hxs).call hc
    unfold history at h
    rw [trace_append] at h
    have hevents := (hheld xs h.of_append).events
    omega

/-- A run that is opened and closed by a key request that comes too early. -/
def opensAndFails : List Call := [Sample.parmReq, Sample.matchReq Sample.pevMac]

theorem call_parmReq {s : Evse} (hs : s.state = .idle ∨ s.state = .failed) :
    s.call Sample.parmReq = s.openRun ⟨0⟩ Sample.pevMac ⟨Sample.runId⟩ := by
  have hreceive : receive (wire broadcast Sample.pevMac .slacParmReq
      (SlacParmReq.mk Sample.runId).encode)
        = some (Sample.pevMac, .parmReq ⟨Sample.runId⟩) := by decide +kernel
  have hadmits : s.admits Sample.pevMac ⟨Sample.runId⟩ = true := by
    rcases hs with hs | hs <;> simp [admits, hs]
  unfold Sample.parmReq call handleFrame
  dsimp only
  rw [hreceive]
  exact if_pos hadmits

theorem call_matchReq {s : Evse} (hconfig : s.config = Sample.station)
    (hs : s.state = .sounding) (hrun : s.run = some (newRun Sample.pevMac ⟨Sample.runId⟩)) :
    s.call (Sample.matchReq Sample.pevMac) = s.fail .outOfSequence := by
  have hreceive : receive (wire Sample.station.mac Sample.pevMac .slacMatchReq
      (SlacMatchReq.mk Sample.pevId Sample.pevMac Sample.station.id Sample.station.mac
        Sample.runId).encode)
        = some (Sample.pevMac, .matchReq ⟨Sample.pevId, Sample.pevMac, Sample.station.id,
          Sample.station.mac, Sample.runId⟩) := by decide +kernel
  unfold Sample.matchReq call handleFrame
  dsimp only
  rw [hreceive]
  have hbound : s.bound Sample.runId Sample.pevMac
      = some (newRun Sample.pevMac ⟨Sample.runId⟩) := by
    unfold bound
    rw [hrun]
    exact Option.filter_some_pos (by simp [newRun])
  dsimp only
  unfold onMatchReq
  rw [hbound, hconfig, hs]
  simp

theorem opensAndFails_events {s : Evse} (hconfig : s.config = Sample.station)
    (hs : s.state = .idle ∨ s.state = .failed) :
    (Lib.run call s opensAndFails).config = Sample.station
      ∧ (Lib.run call s opensAndFails).state = .failed
      ∧ s.events.length < (Lib.run call s opensAndFails).events.length := by
  obtain ⟨o, -, hopen⟩ := s.openRun_eq ⟨0⟩ Sample.pevMac ⟨Sample.runId⟩
  unfold opensAndFails
  rw [run_cons, run_cons, run_nil, call_parmReq hs, hopen,
    call_matchReq (by exact hconfig) rfl rfl, fail_of_not_failed (by simp)]
  refine ⟨hconfig, rfl, ?_⟩
  obtain ⟨es, hnoted, -⟩ := s.exists_noted (.runStarted Sample.runId)
  show s.events.length < (s.noted _ ++ [_]).length
  rw [hnoted, List.length_append, List.length_append, List.length_singleton]
  omega

theorem opensAndFails_run (n : Nat) :
    n ≤ (after Sample.station (List.replicate n opensAndFails).flatten).events.length := by
  have hrun : ∀ (n : Nat) (s : Evse), s.config = Sample.station →
      s.state = .idle ∨ s.state = .failed →
      n + s.events.length
        ≤ (Lib.run call s (List.replicate n opensAndFails).flatten).events.length := by
    intro n
    induction n with
    | zero => exact fun s _ _ => Nat.le_of_eq (Nat.zero_add _)
    | succ n ih =>
      intro s hconfig hs
      obtain ⟨hconfig', hstate, hmore⟩ := opensAndFails_events hconfig hs
      have hrest := ih _ hconfig' (.inr hstate)
      rw [List.replicate_succ, List.flatten_cons, run_append]
      omega
  have hevents := hrun n (new Sample.station) rfl (.inl rfl)
  exact hevents

/-- Sixty-six runs that are opened and failed, one after the other, leave an outcome each. -/
theorem not_queues_bounded :
    ¬ ∀ (config : EvseConfig) (calls : List Call),
      (∀ c ∈ calls, (∃ now raw, c = .frame now raw) ∨ ∃ now, c = .timeout now) →
      (after config calls).out.length ≤ maxPendingFrames
        ∧ (after config calls).events.length ≤ maxPendingEvents + 1 := by
  intro h
  have hbound := (h Sample.station (List.replicate 66 opensAndFails).flatten ?_).2
  · have hmany := opensAndFails_run 66
    have hlimit : maxPendingEvents = 64 := rfl
    omega
  · intro c hc
    obtain ⟨calls, hcalls, hmem⟩ := List.mem_flatten.mp hc
    rw [(List.mem_replicate.mp hcalls).2] at hmem
    rcases List.mem_cons.mp hmem with rfl | hmem
    · exact .inl ⟨_, _, rfl⟩
    · rw [List.mem_singleton.mp hmem]
      exact .inl ⟨_, _, rfl⟩

/-- Thirty-three runs that are opened and failed fill the queue to its bound, and never past it. -/
theorem queues_bounded_full :
    (after Sample.station (List.replicate 33 opensAndFails).flatten).out.length ≤ maxPendingFrames
      ∧ (after Sample.station (List.replicate 33 opensAndFails).flatten).events.length
        = maxPendingEvents + 1
      ∧ ∀ xs ys, (List.replicate 33 opensAndFails).flatten = xs ++ ys →
        (after Sample.station xs).events.length ≤ maxPendingEvents + 1 := by
  obtain ⟨hframes, hevents⟩ :=
    queues_bounded Sample.station (List.replicate 33 opensAndFails).flatten
  refine ⟨hframes, by decide +kernel, hevents (along_const.mpr fun t ht hover => ?_)⟩
  -- the last of them is opened when the queue is full, but holds no more
  have hfull : ∀ t ∈ history Sample.station (List.replicate 33 opensAndFails).flatten,
      t.before.events.length ≤ maxPendingEvents := by decide +kernel
  exact absurd hover.1 (Nat.not_lt.mpr (hfull t ht))

end Iso15118.Slac.Evse
