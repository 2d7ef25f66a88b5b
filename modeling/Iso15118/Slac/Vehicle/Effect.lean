import Iso15118.Slac.Vehicle.Basic

/-!
# What a call can do to a vehicle

The engine of `Vehicle/Basic` read backwards, as `Station/Effect` reads the station's: one lemma
per building block, then **`Ev.Effect`** with one constructor per branch, and **`Ev.effect_call`**.
Every message a vehicle sends fits its frame, so no branch ends in a failed encoding.

Where the engine does nothing about a frame there is one constructor for all of it, so that a proof
by cases has as many cases as the engine has things it can do; and a constructor has as arguments
only what the results about runs ask for, the state it is in and what it has heard.
-/

namespace Iso15118.Slac.Ev

open Iso15118.Lib Iso15118.Session

/-! ## The building blocks

One lemma for each block: the vehicle it leaves, with its frame given by what the frame carries. -/

/-- The frame queue after one more frame, if there is room. -/
def pushed (out : List Outgoing) (o : Outgoing) : List Outgoing :=
  if out.length < maxPendingFrames then out ++ [o] else out

/-- The event queue after one more informational event, if there is room. -/
def noted (s : Ev) (e : EvEvent) : List EvEvent :=
  if s.events.length < maxPendingEvents then s.events ++ [e] else s.events

theorem note_eq (s : Ev) (e : EvEvent) : s.note e = { s with events := s.noted e } := by
  unfold note noted
  split <;> rfl

theorem exists_noted (s : Ev) (e : EvEvent) :
    ∃ es, s.noted e = s.events ++ es ∧ ∀ x ∈ es, x = e := by
  unfold noted
  split
  · exact ⟨[e], rfl, fun x hx => List.mem_singleton.mp hx⟩
  · exact ⟨[], (List.append_nil _).symm, fun x hx => by cases hx⟩

theorem fail_of_failed {s : Ev} {reason : Reason} (h : s.state = .failed) : s.fail reason = s :=
  if_pos h

theorem fail_of_not_failed {s : Ev} {reason : Reason} (h : s.state ≠ .failed) :
    s.fail reason
      = { s with state := .failed, deadline := none, events := s.events ++ [.failed reason] } :=
  if_neg h

theorem queue_of_ok {s : Ev} {destination : MacAddr} {mmtype : Mmtype}
    {encode : Nat → Except SlacError (List UInt8)} {o : Outgoing}
    (h : frame destination s.config.mac mmtype encode = .ok o) :
    s.queue destination mmtype encode = { s with out := pushed s.out o } := by
  unfold queue pushed
  rw [h]
  simp only
  split <;> rfl

/-- A started run has one frame to send, the request that opens it. -/
theorem start_eq (s : Ev) (now : Instant) :
    ∃ o : Outgoing,
      o.Carries broadcast s.config.mac .slacParmReq (SlacParmReq.mk s.config.runId).fields.flatten
        ∧ s.start now
          = { s with
              best := none
              answered := []
              remainingSounds := 0
              remainingStarts := 0
              out := [o]
              resultsDeadline := none
              state := .probing
              deadline := some (now + Millis.fromMillis Timers.ttMatchResponseMs) } := by
  obtain ⟨o, hframe, hcarries⟩ := frame_carries broadcast s.config.mac
    ((SlacParmReq.mk s.config.runId).encode_ok (by decide))
    (by simp [SlacParmReq.fields, profileBytes])
    (show Mmtype.fromU16 Mmtype.slacParmReq.asU16 = .slacParmReq by decide)
  refine ⟨o, hcarries, ?_⟩
  have hqueue := queue_of_ok (s := { s with
    best := none
    answered := []
    remainingSounds := 0
    remainingStarts := 0
    out := []
    resultsDeadline := none }) hframe
  unfold start
  simp only [hqueue]
  rfl

/-- The next message of the burst is an announcement, a sounding packet, or the end of it. -/
theorem sendNextSound_cases (s : Ev) (now : Instant) :
    (s.remainingStarts > 0 ∧ ∃ o : Outgoing,
        o.Carries broadcast s.config.mac .startAttenCharInd s.startAttenInd.fields.flatten
          ∧ s.sendNextSound now
            = { s with
                remainingStarts := s.remainingStarts - 1
                out := pushed s.out o
                deadline := some (now + Millis.fromMillis Timers.tpEvBatchMsgIntervalMs) })
      ∨ (¬ s.remainingStarts > 0 ∧ s.remainingSounds > 0 ∧ ∃ o : Outgoing,
        o.Carries broadcast s.config.mac .mnbcSoundInd
            ({ s with remainingSounds := s.remainingSounds - 1 } : Ev).soundInd.fields.flatten
          ∧ s.sendNextSound now
            = { s with
                remainingSounds := s.remainingSounds - 1
                out := pushed s.out o
                deadline := some (now + Millis.fromMillis Timers.tpEvBatchMsgIntervalMs) })
      ∨ (¬ s.remainingStarts > 0 ∧ ¬ s.remainingSounds > 0 ∧ s.sendNextSound now
          = { s with
              state := .awaitingMeasurements
              deadline := some (now + Millis.fromMillis Timers.ttEvAttenResultsMs)
              resultsDeadline := some (now + Millis.fromMillis Timers.ttEvAttenResultsMs) }) := by
  unfold sendNextSound
  by_cases hstarts : s.remainingStarts > 0
  -- an announcement, one of those that remain
  · obtain ⟨o, hframe, hcarries⟩ := frame_carries broadcast s.config.mac
      (s.startAttenInd.encode_ok (by decide)) (by simp [StartAttenCharInd.fields, profileBytes])
      (show Mmtype.fromU16 Mmtype.startAttenCharInd.asU16 = .startAttenCharInd by decide)
    refine .inl ⟨hstarts, o, hcarries, ?_⟩
    have hqueue := queue_of_ok (s := { s with remainingStarts := s.remainingStarts - 1 }) hframe
    rw [if_pos hstarts]
    exact congrArg (arm · now Timers.tpEvBatchMsgIntervalMs) hqueue
  · rw [if_neg hstarts]
    -- the announcements are over: the sounding packets, and then the wait
    by_cases hsounds : s.remainingSounds > 0
    · let ind := ({ s with remainingSounds := s.remainingSounds - 1 } : Ev).soundInd
      obtain ⟨o, hframe, hcarries⟩ := frame_carries broadcast s.config.mac
        (ind.encode_ok (by decide)) (by simp [MnbcSoundInd.fields, profileBytes])
        (show Mmtype.fromU16 Mmtype.mnbcSoundInd.asU16 = .mnbcSoundInd by decide)
      refine .inr (.inl ⟨hstarts, hsounds, o, hcarries, ?_⟩)
      have hqueue := queue_of_ok (s := { s with remainingSounds := s.remainingSounds - 1 }) hframe
      rw [if_pos hsounds]
      exact congrArg (arm · now Timers.tpEvBatchMsgIntervalMs) hqueue
    -- nothing remains: the vehicle waits for the measurements
    · rw [if_neg hsounds]
      exact .inr (.inr ⟨hstarts, hsounds, rfl⟩)

/-- The chosen station is sent an acknowledgement and a request for its key. -/
theorem choose_eq {s : Ev} {mac : MacAddr} {id : StationId} {mean : UInt8}
    (hbest : s.best = some (mac, id, mean)) (now : Instant) :
    ∃ o o' : Outgoing,
      o.Carries mac s.config.mac .attenCharRsp (s.attenRsp id).fields.flatten
        ∧ o'.Carries mac s.config.mac .slacMatchReq (s.matchReq mac id).fields.flatten
        ∧ s.choose now
          = { s with
              out := pushed (pushed s.out o) o'
              state := .awaitingKey
              deadline := some (now + Millis.fromMillis Timers.ttMatchJoinMs) } := by
  obtain ⟨o, hframe, hcarries⟩ := frame_carries mac s.config.mac
    ((s.attenRsp id).encode_ok (by decide)) (by simp [AttenCharRsp.fields, profileBytes])
    (show Mmtype.fromU16 Mmtype.attenCharRsp.asU16 = .attenCharRsp by decide)
  obtain ⟨o', hframe', hcarries'⟩ := frame_carries mac s.config.mac
    ((s.matchReq mac id).encode_ok (by decide)) (by simp [SlacMatchReq.fields, profileBytes])
    (show Mmtype.fromU16 Mmtype.slacMatchReq.asU16 = .slacMatchReq by decide)
  refine ⟨o, o', hcarries, hcarries', ?_⟩
  have hqueue := queue_of_ok (s := s) hframe
  have hqueue' := queue_of_ok (s := { s with out := pushed s.out o }) hframe'
  unfold choose
  split
  · next hnone => rw [hbest] at hnone; cases hnone
  · next hsome =>
    rw [hbest] at hsome
    cases hsome
    simp only [hqueue]
    exact congrArg
      (fun s : Ev => ({ s with state := .awaitingKey } : Ev).arm now Timers.ttMatchJoinMs) hqueue'

theorem choose_of_none {s : Ev} (hbest : s.best = none) (now : Instant) :
    s.choose now = s.fail .tooFarAway := by
  unfold choose
  split
  · rfl
  · next hsome => rw [hbest] at hsome; cases hsome

/-- A report within the limit is noted, may be the best so far, and sets the deadline of a vehicle
that waits for reports. -/
theorem onMeasurement_of_some {s : Ev} {source : MacAddr} {ind : AttenCharInd} {mean : UInt8}
    (hm : ind.profile.meanAttenuation = some mean) (hf : s.tooFar mean = false) (now : Instant) :
    s.onMeasurement now source ind
      = { s with
          events := s.noted (.measurement source mean)
          best := if s.improves mean then some (source, ind.respId, mean) else s.best
          deadline :=
            if s.state = .awaitingMeasurements then some (s.reportDeadline now)
            else s.deadline } := by
  unfold onMeasurement
  rw [hm]
  simp only [note_eq]
  rw [if_neg (by simpa [Ev.tooFar] using hf)]
  have himp : ({ s with events := s.noted (.measurement source mean) } : Ev).improves mean
      = s.improves mean := rfl
  rw [himp]
  cases s.improves mean with
  | true =>
    simp only [if_true]
    split
    · rfl
    · rfl
  | false =>
    simp only [Bool.false_eq_true, if_false]
    split
    · rfl
    · rfl

/-- One past the limit is noted. -/
theorem onMeasurement_of_tooFar {s : Ev} {source : MacAddr} {ind : AttenCharInd} {mean : UInt8}
    (hm : ind.profile.meanAttenuation = some mean) (hf : s.tooFar mean = true) (now : Instant) :
    s.onMeasurement now source ind = { s with events := s.noted (.measurement source mean) } := by
  unfold onMeasurement
  rw [hm]
  simp only [note_eq]
  rw [if_pos (by simpa [Ev.tooFar] using hf)]

/-- One with no groups is none. -/
theorem onMeasurement_of_none {s : Ev} {source : MacAddr} {ind : AttenCharInd}
    (hm : ind.profile.meanAttenuation = none) (now : Instant) :
    s.onMeasurement now source ind = s := by
  unfold onMeasurement
  rw [hm]

/-! ## What a call can do

The blocks put together, handler by handler. -/

/-- Every branch of the engine, with what leads to it. -/
inductive Effect (s : Ev) : Call → Ev → Prop where
  | quiet {now : Instant} {raw : List UInt8} : Effect s (.frame now raw) s
  | waiting {now : Instant} : Effect s (.timeout now) s
  | started {now : Instant} : Effect s (.start now) (s.start now)
  | found {now : Instant} {raw : List UInt8} {source : MacAddr} :
      Effect s (.frame now raw)
        { s with answered := s.answered ++ [source], events := s.noted (.stationFound source) }
  | tooFar {now : Instant} {raw : List UInt8} {source : MacAddr} {mean : UInt8} :
      Effect s (.frame now raw) { s with events := s.noted (.measurement source mean) }
  | reported {now : Instant} {raw : List UInt8} {source : MacAddr} {ind : AttenCharInd}
      {mean : UInt8} {deadline : Option Instant} (hr : receive raw = some (source, .attenInd ind))
      (hc : s.concerns ind = true) (hm : ind.profile.meanAttenuation = some mean)
      (hf : s.tooFar mean = false) :
      Effect s (.frame now raw)
        { s with
          events := s.noted (.measurement source mean)
          best := if s.improves mean then some (source, ind.respId, mean) else s.best
          deadline := deadline }
  | keyed {now : Instant} {raw : List UInt8} {source : MacAddr} {cnf : SlacMatchCnf} {mean : UInt8}
      (hr : receive raw = some (source, .matchCnf cnf)) (hs : s.state = .awaitingKey)
      (hb : s.best = some (cnf.evseMac, cnf.evseId, mean)) (hsource : source = cnf.evseMac) :
      Effect s (.frame now raw)
        { s with
          state := .matched
          deadline := none
          events := s.events ++ [.matched cnf.evseMac cnf.evseId cnf.nmk cnf.nid] }
  | ended {now : Instant} {reason : Reason} (hs : s.state ≠ .idle) :
      Effect s (.timeout now) (({ s with deadline := none } : Ev).fail reason)
  | begun {now : Instant} (hs : s.state = .probing) :
      Effect s (.timeout now) (({ s with deadline := none } : Ev).beginSounding now)
  | sounded {now : Instant} (hs : s.state = .sounding) :
      Effect s (.timeout now) (({ s with deadline := none } : Ev).sendNextSound now)
  | chosen {now : Instant} {mac : MacAddr} {id : StationId} {mean : UInt8}
      (hs : s.state = .awaitingMeasurements) (hb : s.best = some (mac, id, mean)) :
      Effect s (.timeout now) (({ s with deadline := none } : Ev).choose now)
  | lapsed {now : Instant} (hs : s.state = .idle ∨ s.state = .matched ∨ s.state = .failed) :
      Effect s (.timeout now) { s with deadline := none }
  | polledTransmit : Effect s .pollTransmit { s with out := s.out.tail }
  | polledEvent : Effect s .pollEvent { s with events := s.events.tail }

theorem effect_onParmCnf {s : Ev} {now : Instant} {raw : List UInt8} {source : MacAddr}
    {cnf : SlacParmCnf} : s.Effect (.frame now raw) (s.onParmCnf source cnf) := by
  unfold onParmCnf
  split
  · rw [note_eq]
    exact .found
  · exact .quiet

theorem effect_onMeasurement {s : Ev} {now : Instant} {raw : List UInt8} {source : MacAddr}
    {ind : AttenCharInd} (hr : receive raw = some (source, .attenInd ind))
    (hc : s.concerns ind = true) : s.Effect (.frame now raw) (s.onMeasurement now source ind) := by
  cases hm : ind.profile.meanAttenuation with
  | none =>
    rw [onMeasurement_of_none hm]
    exact .quiet
  | some mean =>
    cases hf : s.tooFar mean with
    | true =>
      rw [onMeasurement_of_tooFar hm hf]
      exact .tooFar
    | false =>
      rw [onMeasurement_of_some hm hf]
      exact .reported hr hc hm hf

theorem effect_onMatchCnf {s : Ev} {now : Instant} {raw : List UInt8} {source : MacAddr}
    {cnf : SlacMatchCnf} (hr : receive raw = some (source, .matchCnf cnf)) :
    s.Effect (.frame now raw) (s.onMatchCnf source cnf) := by
  unfold onMatchCnf
  split
  · exact .quiet
  · next hstate =>
    obtain ⟨hs, -⟩ := not_or.mp hstate
    split
    · exact .quiet
    · next mac id mean hbest =>
      split
      · exact .quiet
      · next hfrom =>
        simp only [ne_eq, not_or, not_not] at hfrom
        obtain ⟨rfl, hmac, rfl⟩ := hfrom
        split
        · exact .quiet
        · exact .keyed hr (not_not.mp hs) (by rw [hbest, hmac]) hmac.symm

/-- What a deadline does to the vehicle: it goes on sounding, stops waiting, or fails. -/
theorem effect_handleTimeout (s : Ev) (now : Instant) :
    s.Effect (.timeout now) (s.handleTimeout now) := by
  unfold handleTimeout
  split
  · exact .waiting
  · simp only
    split
    · next hs =>
      split
      · exact .ended (by simp [hs])
      · exact .begun hs
    · next hs => exact .sounded hs
    · next hs =>
      by_cases hb : s.best = none
      · rw [choose_of_none (s := { s with deadline := none }) hb]
        exact .ended (by simp [hs])
      · obtain ⟨⟨mac, id, mean⟩, hb⟩ := Option.ne_none_iff_exists'.mp hb
        exact .chosen hs hb
    · next hs => exact .ended (by simp [hs])
    · next hs => exact .lapsed (.inl hs)
    · next hs => exact .lapsed (.inr (.inl hs))
    · next hs => exact .lapsed (.inr (.inr hs))

/-- **What a call can do.** Every call takes one of the engine's branches. -/
theorem effect_call (s : Ev) (c : Call) : s.Effect c (s.call c) := by
  cases c with
  | start now => exact .started
  | frame now raw =>
    show s.Effect _ (s.handleFrame now raw)
    unfold handleFrame
    split
    · exact effect_onParmCnf
    · next hr =>
      split
      · next hc => exact effect_onMeasurement hr hc
      · exact .quiet
    · next hr => exact effect_onMatchCnf hr
    · exact .quiet
  | timeout now => exact effect_handleTimeout s now
  | pollTransmit => exact .polledTransmit
  | pollEvent => exact .polledEvent

/-! ## What a call leaves in the queue

Frames are only added at the end and taken from the front, until a start empties the queue. -/

/-- The configuration stays, and the queue has grown or frames have left it. -/
structure Follows (s s' : Ev) : Prop where
  config : s'.config = s.config
  out : s.out <+: s'.out ∨ s'.out <:+ s.out

theorem Follows.of_same {s s' : Ev} (hconfig : s'.config = s.config) (hout : s'.out = s.out) :
    Follows s s' := ⟨hconfig, .inl (hout ▸ List.prefix_refl _)⟩

theorem prefix_pushed (out : List Outgoing) (o : Outgoing) : out <+: pushed out o := by
  unfold pushed
  split
  · exact List.prefix_append out [o]
  · exact List.prefix_refl out

theorem follows_fail (s : Ev) (reason : Reason) : Follows s (s.fail reason) := by
  unfold fail
  split
  · exact .of_same rfl rfl
  · exact .of_same rfl rfl

theorem follows_sendNextSound (s : Ev) (now : Instant) : Follows s (s.sendNextSound now) := by
  rcases s.sendNextSound_cases now with ⟨-, o, -, h⟩ | ⟨-, -, o, -, h⟩ | ⟨-, -, h⟩
  · rw [h]
    exact ⟨rfl, .inl (prefix_pushed _ o)⟩
  · rw [h]
    exact ⟨rfl, .inl (prefix_pushed _ o)⟩
  · rw [h]
    exact .of_same rfl rfl

/-- Every call but the start of a run, which empties the queue first. -/
theorem follows_call {s : Ev} {c : Call} (hc : ∀ now, c ≠ .start now) : Follows s (s.call c) := by
  have heffect := effect_call s c
  generalize s.call c = s' at heffect
  cases heffect with
  | quiet => exact .of_same rfl rfl
  | waiting => exact .of_same rfl rfl
  | @started now => exact absurd rfl (hc now)
  | found => exact .of_same rfl rfl
  | tooFar => exact .of_same rfl rfl
  | reported => exact .of_same rfl rfl
  | keyed => exact .of_same rfl rfl
  | @ended now reason hs =>
    have h := follows_fail { s with deadline := none } reason
    exact ⟨h.config, h.out⟩
  | @begun now hs =>
    have h := follows_sendNextSound { s with
      deadline := none
      remainingStarts := Timers.cEvStartAttenCharInds
      remainingSounds := Timers.cEvMatchMnbc
      state := .sounding } now
    exact ⟨h.config, h.out⟩
  | @sounded now hs =>
    have h := follows_sendNextSound { s with deadline := none } now
    exact ⟨h.config, h.out⟩
  | @chosen now mac id mean hs hb =>
    obtain ⟨o, o', -, -, hchoose⟩ := choose_eq (s := { s with deadline := none }) hb now
    rw [hchoose]
    exact ⟨rfl, .inl ((prefix_pushed _ o).trans (prefix_pushed _ o'))⟩
  | lapsed => exact .of_same rfl rfl
  | polledTransmit => exact ⟨rfl, .inr (List.tail_suffix _)⟩
  | polledEvent => exact .of_same rfl rfl

theorem call_config (s : Ev) (c : Call) : (s.call c).config = s.config := by
  cases c with
  | start now =>
    obtain ⟨o, -, hstart⟩ := s.start_eq now
    show (s.start now).config = s.config
    rw [hstart]
  | frame now raw => exact (follows_call (by simp)).config
  | timeout now => exact (follows_call (by simp)).config
  | pollTransmit => rfl
  | pollEvent => rfl

theorem after_config (config : EvConfig) (calls : List Call) :
    (after config calls).config = config := by
  have hall : ∀ c ∈ calls, True := fun _ _ => trivial
  exact run_of_invariant (I := fun s : Ev => s.config = config) (A := fun _ => True)
    (fun s c hs _ => (call_config s c).trans hs) rfl hall

/-- What is in the queue after a call was there before it, or the call queued it. -/
theorem mem_out_call {s : Ev} {c : Call} {o : Outgoing} (h : o ∈ (s.call c).out) :
    o ∈ s.out ∨ o ∈ queued (taken call s c) := by
  unfold queued
  split
  · exact .inr h
  · next hc =>
    have hfollows : Follows s (s.call c) := follows_call hc
    rcases hfollows.out with hprefix | hsuffix
    · obtain ⟨os, hos⟩ := hprefix
      have hdrop : (s.call c).out.drop s.out.length = os := by rw [← hos, List.drop_left]
      show o ∈ s.out ∨ o ∈ (s.call c).out.drop s.out.length
      rw [hdrop]
      rw [← hos] at h
      exact List.mem_append.mp h
    · exact .inl (hsuffix.mem h)

end Iso15118.Slac.Ev
