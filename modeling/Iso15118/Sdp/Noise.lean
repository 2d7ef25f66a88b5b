import Iso15118.Sdp.Basic
import Iso15118.Lib.Deletion

/-!
# Noise on the discovery port

The request goes to a multicast group on a shared segment, so anything can answer. What a datagram
the vehicle must not act on can change is one slot of the engine, the notice:

* **`Discovery.Noise`** — a datagram that is malformed, or that the request refuses;
* **`Discovery.Alike`** — two states that differ in that slot at most, with
  **`Discovery.alike_noise`** and **`Discovery.alike_draining`**, the two steps of the simulation;
* **`Discovery.noise_immunity`** — an application that polls its events until there are none sees
  the same outcomes, attempts, deadlines and requests with any amount of noise as without it.

A refusal takes the slot of one that was waiting in it: **`Discovery.refusal_displaced`**.
-/

namespace Iso15118.Sdp

open Iso15118.Lib Iso15118.Session

/-- The event reports an answer that was refused. -/
def Event.isRefused : Event → Bool
  | .refused _ _ => true
  | _ => false

namespace Discovery

/-! ## Polling until there is nothing

The application is one that polls its events until there are none. -/

/-- `poll_event`, `n` times or until it answers `None`. -/
def pollLoop : Nat → Discovery → List Event × Discovery
  | 0, s => ([], s)
  | n + 1, s =>
      match s.pollEvent with
      | (none, s) => ([], s)
      | (some event, s) =>
          let (events, s) := pollLoop n s
          (event :: events, s)

/-- `poll_event` until it answers `None`. Two slots hold events, so the third poll does. -/
def pollEvents (s : Discovery) : List Event × Discovery := pollLoop 3 s

theorem pollEvents_eq (s : Discovery) :
    s.pollEvents
      = (s.notice.toList ++ s.outcome.toList, { s with notice := none, outcome := none }) := by
  obtain ⟨request, wireless, allow, interval, max, attempts, deadline, pending, outcome, notice,
    accepted, done⟩ := s
  cases notice with
  | none => cases outcome <;> rfl
  | some n => cases outcome <;> rfl

/-- A call of an application that polls its events until there are none. -/
def draining (s : Discovery) : Call → Discovery
  | .pollEvent => s.pollEvents.2
  | c => s.call c

/-- What `poll_transmit` answers, poll by poll. -/
def transmitted (s : Discovery) : Call → List (Option (List UInt8))
  | .pollTransmit => [s.pollTransmit.1]
  | _ => []

/-- The events the application sees, each time it polls them. -/
def shown (s : Discovery) : Call → List (List Event)
  | .pollEvent => [s.pollEvents.1]
  | _ => []

/-! ## Noise

What the two runs may differ in: the notice, and only as long as there is no accepted answer. -/

/-- A datagram that is malformed, or that the request refuses. -/
def Noise (s : Discovery) : Call → Prop
  | .datagram _ frame =>
      match Response.fromFrame frame with
      | .error _ => True
      | .ok response => s.refusal response ≠ none
  | _ => False

/-- The notice of a run with noise next to that of the run without: the same, or a refusal where
there was none or another. -/
def NoticeAlike (noisy quiet : Option Event) : Prop :=
  noisy = quiet ∨ noisy.any Event.isRefused = true ∧ quiet.all Event.isRefused = true

/-- Two states that differ in the notice at most. A conflict is only ever reported once there is
an accepted answer, and from then on no refusal is. -/
structure Alike (noisy quiet : Discovery) : Prop where
  same : noisy = { quiet with notice := noisy.notice }
  notice : NoticeAlike noisy.notice quiet.notice
  waiting : quiet.accepted = none → quiet.notice.all Event.isRefused = true

theorem alike_refl {s : Discovery} (h : s.notice = none) : s.Alike s where
  same := rfl
  notice := .inl rfl
  waiting _ := by simp [h]

/-! ## One step of the run with noise

The call that the other run does not make. All it can do is to put a refusal into the slot. -/

/-- Noise reports a refusal, or nothing. -/
theorem answered_of_refusal {s : Discovery} {response : Response}
    (h : s.refusal response ≠ none) :
    s.answered response = s
      ∨ s.accepted = none ∧ ∃ reason,
          s.answered response = { s with notice := some (.refused response reason) } := by
  unfold answered
  cases ha : s.accepted with
  | some accepted =>
    simp only
    rw [if_neg (fun hc => h hc.2)]
    exact .inl rfl
  | none =>
    simp only
    by_cases hd : s.done = true
    · rw [if_pos hd]
      exact .inl rfl
    · rw [if_neg hd]
      obtain ⟨reason, hreason⟩ := Option.ne_none_iff_exists'.mp h
      rw [hreason]
      exact .inr ⟨trivial, reason, rfl⟩

/-- A refusal in the slot is all that noise leaves behind. -/
theorem alike_noise {noisy quiet : Discovery} {c : Call} (h : noisy.Alike quiet)
    (hc : noisy.Noise c) : (noisy.draining c).Alike quiet := by
  cases c with
  | datagram now frame =>
    show ((noisy.handleDatagram now frame).2).Alike quiet
    unfold handleDatagram
    simp only [Noise] at hc
    cases hr : Response.fromFrame frame with
    | error e => exact h
    | ok response =>
      rw [hr] at hc
      rcases answered_of_refusal hc with heq | ⟨haccepted, reason, heq⟩
      · show (noisy.answered response).Alike quiet
        rw [heq]
        exact h
      · show (noisy.answered response).Alike quiet
        rw [heq]
        -- nothing has been accepted in the run without noise either
        have hquiet : quiet.accepted = none := by
          rw [h.same] at haccepted
          exact haccepted
        have hrefused : NoticeAlike (some (.refused response reason)) quiet.notice :=
          .inr ⟨rfl, h.waiting hquiet⟩
        refine ⟨?_, hrefused, h.waiting⟩
        rw [h.same]
  | start now => exact hc.elim
  | timeout now => exact hc.elim
  | pollTransmit => exact hc.elim
  | pollEvent => exact hc.elim

/-! ## One step of both runs

Each call of the application, from two states that are alike: it does not read the notice, or it
empties it. -/

section Commutes

variable (s : Discovery) (x : Option Event)

theorem send_notice (now : Instant) :
    ({ s with notice := x } : Discovery).send now = { s.send now with notice := x } := by
  unfold send
  simp only
  cases s.request.writeFrame s.wireless (V2gtp.headerLen + requestLen) <;> rfl

theorem handleTimeout_notice (now : Instant) :
    ({ s with notice := x } : Discovery).handleTimeout now
      = { s.handleTimeout now with notice := x } := by
  unfold handleTimeout
  simp only
  split
  · rfl
  · split
    · rfl
    · exact send_notice { s with deadline := none } x now

end Commutes

theorem start_slots (s : Discovery) (now : Instant) : (s.start now).notice = none := by
  unfold start send
  simp only
  cases s.request.writeFrame s.wireless (V2gtp.headerLen + requestLen) <;> rfl

theorem send_slots (s : Discovery) (now : Instant) :
    (s.send now).notice = s.notice ∧ (s.send now).accepted = s.accepted := by
  unfold send
  simp only
  cases s.request.writeFrame s.wireless (V2gtp.headerLen + requestLen) <;> exact ⟨rfl, rfl⟩

theorem handleTimeout_slots (s : Discovery) (now : Instant) :
    (s.handleTimeout now).notice = s.notice ∧ (s.handleTimeout now).accepted = s.accepted := by
  unfold handleTimeout
  simp only
  split
  · exact ⟨rfl, rfl⟩
  · split
    · exact ⟨rfl, rfl⟩
    · exact send_slots { s with deadline := none } now

theorem alike_of_notice {s : Discovery} {x : Option Event} (hx : NoticeAlike x s.notice)
    (hs : s.accepted = none → s.notice.all Event.isRefused = true) :
    ({ s with notice := x } : Discovery).Alike s := ⟨rfl, hx, hs⟩

/-- A well-formed answer does the same to both runs: it leaves the notice as it is in each, or
writes the same one into both. -/
theorem alike_answered {s : Discovery} {x : Option Event} (hx : NoticeAlike x s.notice)
    (hs : s.accepted = none → s.notice.all Event.isRefused = true) (response : Response) :
    (({ s with notice := x } : Discovery).answered response).Alike (s.answered response) := by
  have hrefusal : ({ s with notice := x } : Discovery).refusal response = s.refusal response := rfl
  unfold answered
  simp only [hrefusal]
  obtain ⟨request, wireless, allow, interval, max, attempts, deadline, pending, outcome, notice,
    accepted, done⟩ := s
  cases accepted with
  | some accepted =>
    simp only
    split
    · exact ⟨rfl, .inl rfl, fun hnone => by cases hnone⟩
    · exact ⟨rfl, hx, hs⟩
  | none =>
    simp only
    split
    · exact ⟨rfl, hx, hs⟩
    · split
      · exact ⟨rfl, .inl rfl, fun _ => rfl⟩
      · exact ⟨rfl, hx, fun hnone => by cases hnone⟩

/-- **The simulation.** Whatever the application does, it does to both runs alike. -/
theorem alike_draining {noisy quiet : Discovery} (h : noisy.Alike quiet) (c : Call) :
    (noisy.draining c).Alike (quiet.draining c) := by
  obtain ⟨x, rfl⟩ : ∃ x, noisy = { quiet with notice := x } := ⟨_, h.same⟩
  cases c with
  | start now => exact alike_refl (start_slots quiet now)
  | timeout now =>
    obtain ⟨hnotice, haccepted⟩ := handleTimeout_slots quiet now
    show (({ quiet with notice := x } : Discovery).handleTimeout now).Alike
      (quiet.handleTimeout now)
    rw [handleTimeout_notice]
    refine alike_of_notice ?_ fun hnone => ?_
    · rw [hnotice]
      exact h.notice
    · rw [hnotice]
      exact h.waiting (haccepted ▸ hnone)
  | datagram now frame =>
    show (({ quiet with notice := x } : Discovery).handleDatagram now frame).2.Alike
      (quiet.handleDatagram now frame).2
    unfold handleDatagram
    cases Response.fromFrame frame with
    | error e => exact h
    | ok response => exact alike_answered h.notice h.waiting response
  | pollTransmit => exact ⟨rfl, h.notice, h.waiting⟩
  | pollEvent =>
    show ({ quiet with notice := x } : Discovery).pollEvents.2.Alike quiet.pollEvents.2
    rw [pollEvents_eq, pollEvents_eq]
    exact alike_refl rfl

/-! ## What the application sees

The outputs of the two runs, poll by poll. -/

/-- The two runs show the same outcomes and conflicts, and a poll of the run with noise shows a
refusal where the other one does. -/
def SameOutcome (noisy quiet : List Event) : Prop :=
  noisy.filter (fun e => !e.isRefused) = quiet.filter (fun e => !e.isRefused)
    ∧ (quiet.any Event.isRefused = true → noisy.any Event.isRefused = true)

theorem sameOutcome_of_alike {noisy quiet : Discovery} (h : noisy.Alike quiet) :
    SameOutcome noisy.pollEvents.1 quiet.pollEvents.1 := by
  have houtcome : noisy.outcome = quiet.outcome := by rw [h.same]
  rw [pollEvents_eq, pollEvents_eq, houtcome]
  rcases h.notice with heq | ⟨hnoisy, hquiet⟩
  · rw [heq]
    exact ⟨rfl, id⟩
  · -- the refusals are filtered out on both sides, and the noisy one is there to be seen
    obtain ⟨e, he, hrefused⟩ := (Option.any_eq_true _ _).mp hnoisy
    rw [he]
    refine ⟨?_, fun _ => ?_⟩
    · cases hq : quiet.notice with
      | none => simp [hrefused]
      | some e' =>
        rw [hq] at hquiet
        have hrefused' : e'.isRefused = true := by simpa using hquiet
        simp [hrefused, hrefused']
    · simp [hrefused]

/-! ## Runs with and without noise

The two-run rule of `Lib.Deletion`, with `Alike` for the relation. -/

/-- What `poll_timeout`, `attempts` and `is_finished` report. -/
def reported (s : Discovery) : Option Instant × UInt32 × Bool :=
  (s.pollTimeout, s.attempts, s.isFinished)

/-- Noise puts out nothing an application sees. -/
theorem silent_of_noise {s : Discovery} {c : Call} (hc : s.Noise c) :
    s.transmitted c = [] ∧ s.shown c = [] := by
  cases c with
  | datagram now frame => exact ⟨rfl, rfl⟩
  | start now => exact hc.elim
  | timeout now => exact hc.elim
  | pollTransmit => exact hc.elim
  | pollEvent => exact hc.elim

/-- **Noise does not touch the run.** For every configuration, take any run of an application that
polls its events until there are none, and mark any datagrams that are malformed or refused.
Without them the attempts, the deadline and whether the run is finished are the same at every
point, `poll_transmit` answers the same, and each poll of the events shows the same outcome and
conflict; where it showed a refusal it still shows one. -/
theorem noise_immunity (request : Request) (wireless allowOffLink : Bool) (interval : Millis)
    (maxAttempts : UInt32) (calls : List (Call × Bool))
    (h : MarkedMeet draining Noise
      (configured request wireless allowOffLink interval maxAttempts) calls) :
    let s := configured request wireless allowOffLink interval maxAttempts
    (∀ before rest, calls = before ++ rest →
        (run draining s (made before)).reported = (run draining s (kept before)).reported)
      ∧ outputs draining transmitted s (made calls) = outputs draining transmitted s (kept calls)
      ∧ List.Forall₂ SameOutcome (outputs draining shown s (made calls))
          (outputs draining shown s (kept calls)) := by
  intro s
  -- with and without the noise the two searches stay alike, whatever is called
  have hstart : s.Alike s := alike_refl rfl
  refine ⟨fun before rest heq => ?_, ?_, ?_⟩
  · rw [heq] at h
    have hbefore : MarkedMeet draining Noise s before := Along.of_append h
    have halike := hbefore.related hstart (fun _ _ _ => alike_noise)
      fun _ _ a hrel => alike_draining hrel a
    rw [halike.same]
    rfl
  · refine h.outputs_kept hstart (fun _ _ _ => alike_noise)
      (fun _ _ a hrel => alike_draining hrel a) (fun _ _ hc => (silent_of_noise hc).1) ?_
    intro noisy quiet c hrel
    rw [hrel.same]
    cases c <;> rfl
  -- polled events may differ, for the notice is the one slot that noise may overwrite
  · refine h.outputs_related hstart (fun _ _ _ => alike_noise)
      (fun _ _ a hrel => alike_draining hrel a) (fun _ _ hc => (silent_of_noise hc).2) ?_
    intro noisy quiet c hrel
    cases c with
    | pollEvent => exact .cons (sameOutcome_of_alike hrel) .nil
    | start now => exact .nil
    | timeout now => exact .nil
    | datagram now frame => exact .nil
    | pollTransmit => exact .nil

/-! ## Two refusals

The case that a slot of one place leaves open: two refusals before a poll. -/

namespace Sample

/-- A link-local endpoint without transport security. -/
def plain (host : UInt8) : Response where
  address := ⟨[0xfe, 0x80, 0, 0, 0, 0, 0, 0, 0, 0, 0, 0, 0, 0, 0, host], rfl⟩
  port := 15118
  security := .none
  transport := .tcp

/-- The datagram an answer arrives in. -/
def datagram (response : Response) : Call :=
  .datagram ⟨10⟩ (match response.writeFrame false 28 with
    | .ok frame => frame
    | .error _ => [])

/-- A vehicle that asks for TLS hears one refusal, then another, and polls. The second is the
noise. -/
def twice : List (Call × Bool) :=
  [(.start ⟨0⟩, false), (datagram (plain 1), false), (datagram (plain 2), true),
    (.pollTransmit, false), (.pollEvent, false)]

end Sample

/-- What the run with noise shows is what the other one shows, with refusals added. -/
def OnlyAdds (noisy quiet : List Event) : Prop :=
  quiet.Sublist noisy
    ∧ noisy.filter (fun e => !e.isRefused) = quiet.filter (fun e => !e.isRefused)

theorem noise_twice :
    MarkedMeet draining Noise (configured Request.tls false false Timers.responseTimeout
      Timers.maxRequests) Sample.twice := by
  have hread : Response.fromFrame (match (Sample.plain 2).writeFrame false 28 with
      | .ok frame => frame
      | .error _ => []) = .ok (Sample.plain 2) := by decide +kernel
  unfold MarkedMeet Sample.twice Sample.datagram
  rw [along_cons, along_cons, along_cons, along_cons, along_cons]
  refine ⟨fun h => (by cases h), fun h => (by cases h), fun _ => ?_, fun h => (by cases h),
    fun h => (by cases h), along_nil⟩
  simp only [Noise]
  rw [hread]
  decide +kernel

/-- One slot holds the notice, and the last refusal has it: the refusal that the run without
noise shows is not seen. -/
theorem refusal_displaced :
    ¬ ∀ (request : Request) (wireless allowOffLink : Bool) (interval : Millis)
        (maxAttempts : UInt32) (calls : List (Call × Bool)),
        MarkedMeet draining Noise
          (configured request wireless allowOffLink interval maxAttempts) calls →
        List.Forall₂ OnlyAdds
          (outputs draining shown (configured request wireless allowOffLink interval maxAttempts)
            (made calls))
          (outputs draining shown (configured request wireless allowOffLink interval maxAttempts)
            (kept calls)) := by
  intro h
  have hshown := h Request.tls false false Timers.responseTimeout Timers.maxRequests Sample.twice
    noise_twice
  have hnoisy : outputs draining shown (configured Request.tls false false Timers.responseTimeout
      Timers.maxRequests) (made Sample.twice)
        = [[.refused (Sample.plain 2) .securityDowngrade]] := by decide +kernel
  have hquiet : outputs draining shown (configured Request.tls false false Timers.responseTimeout
      Timers.maxRequests) (kept Sample.twice)
        = [[.refused (Sample.plain 1) .securityDowngrade]] := by decide +kernel
  rw [hnoisy, hquiet] at hshown
  cases hshown with
  | cons hadds _ => exact absurd hadds.1 (by decide)

theorem noise_immunity_twice :
    let s := configured Request.tls false false Timers.responseTimeout Timers.maxRequests
    MarkedMeet draining Noise s Sample.twice
      ∧ outputs draining transmitted s (made Sample.twice)
          = outputs draining transmitted s (kept Sample.twice) :=
  ⟨noise_twice, (noise_immunity Request.tls false false Timers.responseTimeout Timers.maxRequests
    Sample.twice noise_twice).2.1⟩

end Discovery

end Iso15118.Sdp
