import Iso15118.Sdp.Noise
import Mathlib.Data.List.Chain

/-!
# The outcome of a discovery run

Outcome, notice, accepted answer, finished flag, deadline and attempt counter are fields of their
own, and three entry points write them. What keeps them together from one `start` to the next:

* **`Discovery.Effect`** — everything one call can do, with **`Discovery.effect`**;
* **`Discovery.Told`** — the outcomes polled so far and the one that waits are together the run's
  one verdict;
* **`Discovery.Paced`** — the attempt counter counts the requests, and the deadline is an interval
  after the last of them;
* **`Discovery.outcome_discipline`** — what an application sees of a run, and what the segment
  does.
-/

namespace Iso15118.Sdp

open Iso15118.Lib Iso15118.Session

/-- The event ends the run. -/
def Event.isOutcome : Event → Bool
  | .found _ | .gaveUp _ => true
  | _ => false

/-- The answer has the transport, the security and the address the run asks for. -/
structure Usable (request : Request) (allowOffLink : Bool) (response : Response) : Prop where
  transport : response.transport = request.transport
  security : request.security = .tls → response.security = .tls
  link : allowOffLink = true ∨ response.isLinkLocal = true

namespace Discovery

/-- An answer is not refused exactly when it is usable: its security, its transport and its address
suit the request. -/
theorem refusal_eq_none_iff {s : Discovery} {response : Response} :
    s.refusal response = none ↔ Usable s.request s.allowOffLink response := by
  unfold refusal
  split
  · next htransport => exact iff_of_false nofun fun h => htransport h.transport
  · next htransport =>
    split
    · next hless =>
      refine iff_of_false nofun fun h => ?_
      rw [h.security hless.1] at hless
      cases hless.2
    · next hless =>
      split
      · next hlink =>
        refine iff_of_false nofun fun h => ?_
        rcases h.link with hallow | hlocal
        · exact hlink.1 hallow
        · exact hlink.2 hlocal
      · next hlink =>
        refine iff_of_true rfl ⟨not_not.mp htransport, fun htls => ?_, ?_⟩
        · cases hsecurity : response.security with
          | tls => rfl
          | none => exact absurd ⟨htls, hsecurity⟩ hless
        · by_contra hneither
          exact hlink (not_or.mp hneither)

/-! ## What one call does

A case for each branch of the engine, so that nothing later unfolds it. -/

/-- The buffer is exactly the frame's size. -/
theorem exists_writeFrame_eq (request : Request) (wireless : Bool) :
    ∃ frame, request.writeFrame wireless (V2gtp.headerLen + requestLen) = .ok frame :=
  ⟨_, rfl⟩

theorem exists_send_eq (s : Discovery) (now : Instant) :
    ∃ frame, s.send now = { s with
      pending := some frame
      attempts := s.attempts + 1
      deadline := some (now + s.interval) } := by
  obtain ⟨frame, hframe⟩ := exists_writeFrame_eq s.request s.wireless
  refine ⟨frame, ?_⟩
  unfold send
  rw [hframe]
  rfl

/-- Everything one call can do. -/
inductive Effect (s : Discovery) : Call → Discovery → Prop where
  | started {now frame} : Effect s (.start now) { s with
      pending := some frame
      attempts := 1
      deadline := some (now + s.interval)
      outcome := none
      notice := none
      accepted := none
      done := false }
  | early {now} : Effect s (.timeout now) s
  | gaveUp {now} (hdone : s.done = false) (hout : s.maxAttempts ≤ s.attempts) :
      Effect s (.timeout now) { s with
        deadline := none
        done := true
        outcome := some (.gaveUp s.attempts) }
  | repeated {now d frame} (hdone : s.done = false) (hd : s.deadline = some d) (hdue : d ≤ now)
      (hleft : s.attempts < s.maxAttempts) : Effect s (.timeout now) { s with
        pending := some frame
        attempts := s.attempts + 1
        deadline := some (now + s.interval) }
  | unheeded {now frame} : Effect s (.datagram now frame) s
  | conflicting {now frame accepted other} (ha : s.accepted = some accepted) :
      Effect s (.datagram now frame) { s with notice := some (.conflict accepted other) }
  | refused {now frame response reason} (ha : s.accepted = none) :
      Effect s (.datagram now frame) { s with notice := some (.refused response reason) }
  | found {now frame response} (hf : Response.fromFrame frame = .ok response)
      (ha : s.accepted = none) (hdone : s.done = false) (hr : s.refusal response = none) :
      Effect s (.datagram now frame) { s with
        done := true
        deadline := none
        pending := none
        accepted := some response
        outcome := some (.found response) }
  | transmitted : Effect s .pollTransmit { s with pending := none }
  | noticed {e} (he : s.notice = some e) : Effect s .pollEvent { s with notice := none }
  | reported (hn : s.notice = none) : Effect s .pollEvent { s with outcome := none }

/-- What a deadline does to the search: nothing before it is due, another request, or giving up. -/
theorem effect_timeout (s : Discovery) (now : Instant) :
    Effect s (.timeout now) (s.handleTimeout now) := by
  unfold handleTimeout
  split
  · exact .early
  · next hwait =>
    obtain ⟨hdone, hdue⟩ := not_or.mp hwait
    have hdone := Bool.eq_false_iff.mpr hdone
    dsimp only
    split
    · next hout => exact .gaveUp hdone hout
    · next hleft =>
      obtain ⟨frame, hsend⟩ := exists_send_eq { s with deadline := none } now
      rw [hsend]
      cases hd : s.deadline with
      | none =>
        rw [hd] at hdue
        exact absurd rfl hdue
      | some d =>
        rw [hd, Option.all_some, decide_eq_true_iff, Instant.not_lt] at hdue
        exact .repeated hdone hd hdue (UInt32.not_le.mp hleft)

theorem effect_datagram (s : Discovery) (now : Instant) (frame : List UInt8) :
    Effect s (.datagram now frame) (s.handleDatagram now frame).2 := by
  unfold handleDatagram
  cases hf : Response.fromFrame frame with
  | error e => exact .unheeded
  | ok response =>
    dsimp only
    unfold answered
    split
    · next accepted ha =>
      split
      · exact .conflicting ha
      · exact .unheeded
    · next ha =>
      split
      · exact .unheeded
      · next hdone =>
        split
        · exact .refused ha
        · next hr => exact .found hf ha (Bool.eq_false_iff.mpr hdone) hr

/-- **Every call has one of these effects.** -/
theorem effect (s : Discovery) (c : Call) : Effect s c (s.call c) := by
  cases c with
  | start now =>
    obtain ⟨frame, hsend⟩ := exists_send_eq { s with
      attempts := 0, done := false, outcome := none, notice := none, accepted := none } now
    show Effect s (.start now) (s.start now)
    unfold start
    rw [hsend]
    exact .started
  | timeout now => exact s.effect_timeout now
  | datagram now frame => exact s.effect_datagram now frame
  | pollTransmit => exact .transmitted
  | pollEvent =>
    show Effect s .pollEvent s.pollEvent.2
    unfold pollEvent
    split
    · next e he => exact .noticed he
    · next hn => exact .reported hn

/-! ## What the log of a run shows

What can be read off the calls and their states: when a request was queued, what was multicast,
which answers came. -/

/-- The time the call is made at. The polls do not look at the clock. -/
def Call.time : Call → Option Instant
  | .start now | .timeout now | .datagram now _ => some now
  | _ => none

/-- The event the application polled. -/
def polled (t : Transition Discovery Call) : List Event :=
  match t.call with
  | .pollEvent => t.before.pollEvent.1.toList
  | _ => []

/-- When a request was queued: by `start`, and by a timeout that counts one more attempt. -/
def requested (t : Transition Discovery Call) : List Instant :=
  match t.call with
  | .start now => [now]
  | .timeout now => if t.after.attempts = t.before.attempts then [] else [now]
  | _ => []

/-- The datagram the application sent. -/
def multicast (t : Transition Discovery Call) : List (List UInt8) :=
  match t.call with
  | .pollTransmit => t.before.pollTransmit.1.toList
  | _ => []

/-- The call brought this answer. -/
def Hears (t : Transition Discovery Call) (response : Response) : Prop :=
  ∃ now frame, t.call = .datagram now frame ∧ Response.fromFrame frame = .ok response

/-- What the calls leave as it was configured. -/
def setup (s : Discovery) : Request × Bool × Millis × UInt32 :=
  (s.request, s.allowOffLink, s.interval, s.maxAttempts)

theorem Effect.setup_eq {s s' : Discovery} {c : Call} (h : Effect s c s') : s'.setup = s.setup := by
  cases h <;> rfl

theorem setup_run (s : Discovery) (calls : List Call) : (run call s calls).setup = s.setup := by
  refine run_of_invariant (I := fun t : Discovery => t.setup = s.setup) (A := fun _ => True)
    ?_ rfl fun _ _ => trivial
  intro t c h _
  exact (t.effect c).setup_eq.trans h

/-! ## The verdict

At any time a run has come to at most one outcome. It waits in its slot or has been polled, and
no call changes it. -/

/-- What the run has come to. -/
def verdict (s : Discovery) : List Event :=
  match s.accepted with
  | some response => [.found response]
  | none => if s.done then [.gaveUp s.attempts] else []

theorem isOutcome_of_mem_verdict (s : Discovery) {e : Event} (h : e ∈ s.verdict) :
    e.isOutcome = true := by
  unfold verdict at h
  split at h
  · rw [List.mem_singleton.mp h]
    rfl
  · split at h
    · rw [List.mem_singleton.mp h]
      rfl
    · cases h

/-- The outcomes polled so far, and the one that waits, are the verdict. -/
structure Told (log : List (Transition Discovery Call)) (s : Discovery) : Prop where
  verdict : (log.flatMap polled).filter Event.isOutcome ++ s.outcome.toList = s.verdict
  notice : ∀ e ∈ s.notice, e.isOutcome = false
  done : ∀ response ∈ s.accepted, s.done = true
  heard : ∀ response ∈ s.accepted,
    Usable s.request s.allowOffLink response ∧ ∃ t ∈ log, Hears t response

namespace Told

variable {log : List (Transition Discovery Call)} {s : Discovery} {c : Call}

/-- An outcome that was polled, or waits, is the verdict. -/
theorem verdict_eq (h : Told log s) {e : Event} (he : e.isOutcome = true)
    (hmem : e ∈ log.flatMap polled ∨ s.outcome = some e) : s.verdict = [e] := by
  have hverdict := h.verdict
  have hin : e ∈ s.verdict := by
    rw [← hverdict]
    rcases hmem with hmem | hwaits
    · exact List.mem_append_left _ (List.mem_filter.mpr ⟨hmem, he⟩)
    · exact List.mem_append_right _ (by rw [hwaits]; exact List.mem_singleton_self e)
  unfold Discovery.verdict at hin ⊢
  split at hin
  · rw [List.mem_singleton.mp hin]
  · split at hin
    · next hdone => rw [if_pos hdone, List.mem_singleton.mp hin]
    · cases hin

theorem accepted_of_found (h : Told log s) {response : Response}
    (hmem : .found response ∈ log.flatMap polled ∨ s.outcome = some (.found response)) :
    s.accepted = some response := by
  have hverdict := h.verdict_eq rfl hmem
  unfold Discovery.verdict at hverdict
  split at hverdict
  · next accepted ha =>
    cases hverdict
    exact ha
  · split at hverdict
    · cases hverdict
    · cases hverdict

theorem length_le_one (h : Told log s) :
    ((log.flatMap polled).filter Event.isOutcome).length ≤ 1 := by
  have hlen := congrArg List.length h.verdict
  rw [List.length_append] at hlen
  have hle : s.verdict.length ≤ 1 := by
    unfold Discovery.verdict
    split
    · exact Nat.le_refl 1
    · split
      · exact Nat.le_refl 1
      · exact Nat.zero_le 1
  omega

theorem concat_heard {t : Transition Discovery Call} {P : Response → Prop}
    (h : ∀ response ∈ s.accepted, P response ∧ ∃ u ∈ log, Hears u response) :
    ∀ response ∈ s.accepted, P response ∧ ∃ u ∈ log ++ [t], Hears u response := by
  intro response hr
  obtain ⟨hp, u, hu, hears⟩ := h response hr
  exact ⟨hp, u, List.mem_append_left _ hu, hears⟩

/-- Nothing is polled, and the verdict stands. -/
theorem silent (h : Told log s) {t : Transition Discovery Call} (ht : polled t = [])
    (deadline : Option Instant) (pending : Option (List UInt8)) {notice : Option Event}
    (hnotice : ∀ e ∈ notice, e.isOutcome = false) {attempts : UInt32}
    (hattempts : attempts = s.attempts ∨ s.done = false) :
    Told (log ++ [t]) { s with attempts, deadline, pending, notice } where
  verdict := by
    rw [List.flatMap_append, List.flatMap_singleton, ht, List.append_nil]
    refine h.verdict.trans ?_
    rcases hattempts with rfl | hdone
    · rfl
    · unfold Discovery.verdict
      dsimp only
      rw [hdone]
      rfl
  notice := hnotice
  done := h.done
  heard := concat_heard h.heard

/-- While there is no verdict, no outcome has been polled and none waits. -/
theorem open_nil (h : Told log s) (ha : s.accepted = none) (hdone : s.done = false) :
    (log.flatMap polled).filter Event.isOutcome = [] := by
  have hverdict := h.verdict
  rw [Discovery.verdict, ha, hdone] at hverdict
  exact (List.append_eq_nil_iff.mp hverdict).1

theorem accepted_of_open (h : Told log s) (hdone : s.done = false) : s.accepted = none := by
  by_contra hsome
  obtain ⟨response, hr⟩ := Option.ne_none_iff_exists'.mp hsome
  rw [h.done response hr] at hdone
  cases hdone

/-- What a call other than `start` makes of the verdict. -/
theorem call (h : Told log s) (hc : ∀ now, c ≠ .start now) :
    Told (log ++ [taken call s c]) (s.call c) := by
  have heffect := s.effect c
  have hlog : (log ++ [taken Discovery.call s c]).flatMap polled
      = log.flatMap polled ++ polled (taken Discovery.call s c) := by
    rw [List.flatMap_append, List.flatMap_singleton]
  generalize s.call c = s' at heffect
  cases heffect with
  | started => exact absurd rfl (hc _)
  | early => exact h.silent rfl _ _ h.notice (.inl rfl)
  | gaveUp hdone hout =>
    have ha := h.accepted_of_open hdone
    refine ⟨?_, h.notice, fun _ _ => rfl, concat_heard h.heard⟩
    rw [hlog, List.filter_append, h.open_nil ha hdone, Discovery.verdict, ha]
    rfl
  | repeated hdone hd hdue hleft => exact h.silent rfl _ _ h.notice (.inr hdone)
  | unheeded => exact h.silent rfl _ _ h.notice (.inl rfl)
  | conflicting ha => exact h.silent rfl _ _ (fun e he => by cases he; rfl) (.inl rfl)
  | refused ha => exact h.silent rfl _ _ (fun e he => by cases he; rfl) (.inl rfl)
  | @found now frame response hf ha hdone hr =>
    refine ⟨?_, h.notice, fun _ _ => rfl, ?_⟩
    · rw [hlog, List.filter_append, h.open_nil ha hdone]
      rfl
    · intro r hmem
      cases hmem
      exact ⟨refusal_eq_none_iff.mp hr, _, List.mem_append_right _ (List.mem_singleton_self _),
        now, frame, rfl, hf⟩
  | transmitted => exact h.silent rfl _ _ h.notice (.inl rfl)
  | @noticed e he =>
    -- the notice is no outcome
    have hpolled : polled (taken Discovery.call s .pollEvent) = [e] := by
      show s.pollEvent.1.toList = [e]
      unfold pollEvent
      rw [he]
      rfl
    refine ⟨?_, nofun, h.done, concat_heard h.heard⟩
    rw [hlog, hpolled, List.filter_append, List.filter_singleton, h.notice e he, cond_false,
      List.append_nil]
    exact h.verdict
  | reported hn =>
    -- the outcome that waited is now one that was polled
    have hpolled : polled (taken Discovery.call s .pollEvent) = s.outcome.toList := by
      show s.pollEvent.1.toList = _
      unfold pollEvent
      rw [hn]
    have houtcome : s.outcome.toList.filter Event.isOutcome = s.outcome.toList := by
      refine List.filter_eq_self.mpr fun e he => s.isOutcome_of_mem_verdict ?_
      rw [← h.verdict]
      exact List.mem_append_right _ he
    refine ⟨?_, h.notice, h.done, concat_heard h.heard⟩
    rw [hlog, hpolled, List.filter_append, houtcome, List.append_assoc]
    exact (congrArg _ (List.append_nil _)).trans h.verdict

end Told

/-! ## The pace of the requests

A request is queued when the timer starts anew, so the next one comes an interval later at the
earliest; each counts as an attempt. -/

/-- One request is sent an interval after the other, or later. -/
def Apart (interval : Millis) (t u : Instant) : Prop :=
  t.millis.toNat + interval.millis.toNat ≤ u.millis.toNat

/-- The attempts count the requests, and the deadline is an interval after the last one. A datagram
that has been sent, or waits, has a request of its own. -/
structure Paced (log : List (Transition Discovery Call)) (s : Discovery) : Prop where
  attempts : s.attempts.toNat = (log.flatMap requested).length
  bounded : (log.flatMap requested).length ≤ max 1 s.maxAttempts.toNat
  apart : (log.flatMap requested).IsChain (Apart s.interval)
  deadline : ∀ d ∈ s.deadline, ∀ last ∈ (log.flatMap requested).getLast?, Apart s.interval last d
  multicast : (log.flatMap multicast).length + s.pending.toList.length
    ≤ (log.flatMap requested).length

namespace Paced

variable {log : List (Transition Discovery Call)} {s : Discovery} {c : Call}

theorem apart_add {interval : Millis} {now : Instant}
    (h : now.millis.toNat + interval.millis.toNat < 2 ^ 64) : Apart interval now (now + interval) :=
  Nat.le_of_eq (Instant.toNat_add h).symm

/-- Nothing is requested and nothing is put on the wire. -/
theorem quiet (h : Paced log s) {t : Transition Discovery Call} (ht : requested t = [])
    (hwire : Discovery.multicast t = []) {deadline : Option Instant}
    (hdeadline : deadline = s.deadline ∨ deadline = none) {pending : Option (List UInt8)}
    (hpending : pending.toList.length ≤ s.pending.toList.length)
    (outcome notice : Option Event) (accepted : Option Response) (done : Bool) :
    Paced (log ++ [t]) { s with deadline, pending, outcome, notice, accepted, done } := by
  have hrequested : (log ++ [t]).flatMap requested = log.flatMap requested := by
    rw [List.flatMap_append, List.flatMap_singleton, ht, List.append_nil]
  have hmulticast : (log ++ [t]).flatMap Discovery.multicast = log.flatMap Discovery.multicast := by
    rw [List.flatMap_append, List.flatMap_singleton, hwire, List.append_nil]
  constructor
  · rw [hrequested]
    exact h.attempts
  · rw [hrequested]
    exact h.bounded
  · rw [hrequested]
    exact h.apart
  · rw [hrequested]
    rcases hdeadline with rfl | rfl
    · exact h.deadline
    · exact nofun
  · rw [hrequested, hmulticast]
    exact Nat.le_trans (Nat.add_le_add_left hpending _) h.multicast

/-- What a call other than `start` makes of the pace. -/
theorem call (h : Paced log s) (hc : ∀ now, c ≠ .start now)
    (hclock : ∀ now, c.time = some now → now.millis.toNat + s.interval.millis.toNat < 2 ^ 64) :
    Paced (log ++ [taken call s c]) (s.call c) := by
  have heffect := s.effect c
  have hrequested : (log ++ [taken Discovery.call s c]).flatMap requested
      = log.flatMap requested ++ requested (taken Discovery.call s c) := by
    rw [List.flatMap_append, List.flatMap_singleton]
  have hmulticast : (log ++ [taken Discovery.call s c]).flatMap Discovery.multicast
      = log.flatMap Discovery.multicast ++ Discovery.multicast (taken Discovery.call s c) := by
    rw [List.flatMap_append, List.flatMap_singleton]
  -- a timeout that leaves the counter alone has sent nothing
  have hkept {now : Instant} (hs : (s.call (.timeout now)).attempts = s.attempts) :
      requested (taken Discovery.call s (.timeout now)) = [] := if_pos hs
  generalize hs' : s.call c = s' at heffect
  cases heffect with
  | started => exact absurd rfl (hc _)
  | early => exact h.quiet (hkept (by rw [hs'])) rfl (.inl rfl) (Nat.le_refl _) _ _ _ _
  | gaveUp hdone hout => exact h.quiet (hkept (by rw [hs'])) rfl (.inr rfl) (Nat.le_refl _) _ _ _ _
  | @repeated now d frame hdone hd hdue hleft =>
    have hcount : (s.attempts + 1).toNat = s.attempts.toNat + 1 := by
      have hlt := UInt32.lt_iff_toNat_lt.mp hleft
      have hmax := s.maxAttempts.toNat_lt
      rw [UInt32.toNat_add, UInt32.toNat_one, Nat.mod_eq_of_lt (by omega)]
    have hsent : requested (taken Discovery.call s (.timeout now)) = [now] := by
      refine if_neg fun heq => ?_
      have heq' : s.attempts + 1 = s.attempts := by
        rw [show (taken Discovery.call s (.timeout now)).after = _ from hs'] at heq
        exact heq
      rw [heq'] at hcount
      omega
    have hlen : (log.flatMap requested ++ [now]).length = (log.flatMap requested).length + 1 := by
      rw [List.length_append, List.length_singleton]
    constructor
    · rw [hrequested, hsent, hlen, ← h.attempts]
      exact hcount
    · have hlt := UInt32.lt_iff_toNat_lt.mp hleft
      rw [hrequested, hsent, hlen, ← h.attempts]
      exact Nat.le_trans hlt (Nat.le_max_right _ _)
    · rw [hrequested, hsent]
      refine List.isChain_append.mpr ⟨h.apart, .singleton now, fun last hlast y hy => ?_⟩
      -- the deadline was an interval after the last request, and it has passed
      cases hy
      exact Nat.le_trans (h.deadline d hd last hlast) (Instant.le_iff_toNat_le.mp hdue)
    · rw [hrequested, hsent]
      intro d' hd' last hlast
      rw [List.getLast?_concat] at hlast
      cases hlast
      cases hd'
      exact apart_add (hclock now rfl)
    · rw [hrequested, hsent, hlen, hmulticast]
      have hm := h.multicast
      show ((log.flatMap Discovery.multicast) ++ []).length + 1 ≤ _
      rw [List.append_nil]
      omega
  | unheeded => exact h.quiet rfl rfl (.inl rfl) (Nat.le_refl _) _ _ _ _
  | conflicting ha => exact h.quiet rfl rfl (.inl rfl) (Nat.le_refl _) _ _ _ _
  | refused ha => exact h.quiet rfl rfl (.inl rfl) (Nat.le_refl _) _ _ _ _
  | found hf ha hdone hr =>
    exact h.quiet rfl rfl (.inr rfl) (Nat.zero_le _) _ _ _ _
  | transmitted =>
    -- the datagram that waited is now one that was sent
    have hsilent : requested (taken Discovery.call s .pollTransmit) = [] := rfl
    have hwire : Discovery.multicast (taken Discovery.call s .pollTransmit)
        = s.pending.toList := rfl
    constructor
    · rw [hrequested, hsilent, List.append_nil]
      exact h.attempts
    · rw [hrequested, hsilent, List.append_nil]
      exact h.bounded
    · rw [hrequested, hsilent, List.append_nil]
      exact h.apart
    · rw [hrequested, hsilent, List.append_nil]
      exact h.deadline
    · rw [hrequested, hsilent, List.append_nil, hmulticast, hwire, List.length_append]
      exact h.multicast
  | noticed he => exact h.quiet rfl rfl (.inl rfl) (Nat.le_refl _) _ _ _ _
  | reported hn => exact h.quiet rfl rfl (.inl rfl) (Nat.le_refl _) _ _ _ _

end Paced

/-! ## From one start to the next

`start` resets everything the invariants are about, whatever went before. A run is cut at its
starts and each stretch is followed from there. -/

/-- `start` begins the log anew. -/
theorem told_start (s : Discovery) (now : Instant) :
    Told [taken call s (.start now)] (s.call (.start now)) := by
  have heffect := s.effect (.start now)
  generalize hs' : s.call (.start now) = s' at heffect
  cases heffect
  exact ⟨rfl, nofun, nofun, nofun⟩

theorem paced_start (s : Discovery) {now : Instant}
    (hclock : now.millis.toNat + s.interval.millis.toNat < 2 ^ 64) :
    Paced [taken call s (.start now)] (s.call (.start now)) := by
  have heffect := s.effect (.start now)
  generalize hs' : s.call (.start now) = s' at heffect
  cases heffect
  refine ⟨rfl, Nat.le_max_left _ _, .singleton now, ?_, Nat.le_refl 1⟩
  intro d hd last hlast
  cases hd
  cases hlast
  exact Paced.apart_add hclock

/-- An answer after the one that was taken, and not the same, is reported next. -/
theorem pollEvent_of_conflict {s : Discovery} {now : Instant} {frame : List UInt8}
    {accepted other : Response} (ha : s.accepted = some accepted)
    (hf : Response.fromFrame frame = .ok other)
    (hu : Usable s.request s.allowOffLink other) (hne : other ≠ accepted) :
    (s.call (.datagram now frame)).pollEvent.1 = some (.conflict accepted other) := by
  have hanswered : s.answered other = { s with notice := some (.conflict accepted other) } := by
    unfold answered
    rw [ha]
    exact if_pos ⟨hne, refusal_eq_none_iff.mpr hu⟩
  show (s.handleDatagram now frame).2.pollEvent.1 = _
  unfold handleDatagram
  rw [hf]
  dsimp only
  rw [hanswered]
  rfl

/-- What holds of every run from one `start` on. Induction on the calls, last one first. -/
theorem told_paced (s : Discovery) (now : Instant) (calls : List Call)
    (hstart : ∀ c ∈ calls, ∀ t, c ≠ .start t)
    (hclock : ∀ c ∈ .start now :: calls, ∀ t, c.time = some t →
      t.millis.toNat + s.interval.millis.toNat < 2 ^ 64) :
    Told (trace call s (.start now :: calls)) (run call s (.start now :: calls))
      ∧ Paced (trace call s (.start now :: calls)) (run call s (.start now :: calls)) := by
  induction calls using List.reverseRecOn with
  | nil =>
    have hnow := hclock (.start now) List.mem_cons_self now rfl
    exact ⟨told_start s now, paced_start s hnow⟩
  | append_singleton calls c ih =>
    obtain ⟨htold, hpaced⟩ := ih (fun c' hc' => hstart c' (List.mem_append_left _ hc'))
      fun c' hc' => hclock c' (by
        rw [← List.cons_append]
        exact List.mem_append_left _ hc')
    have hc := hstart c (List.mem_append_right _ (List.mem_singleton_self c))
    have hinterval : (run call s (.start now :: calls)).interval = s.interval :=
      congrArg (fun p => p.2.2.1) (setup_run s _)
    rw [← List.cons_append, trace_concat, run_concat]
    refine ⟨htold.call hc, hpaced.call hc ?_⟩
    rw [hinterval]
    exact hclock c (List.mem_cons_of_mem _ (List.mem_append_right _ (List.mem_singleton_self c)))

/-- What an application sees of a run from one `start` to the next, and what the segment does. -/
structure Disciplined (request : Request) (allowOffLink : Bool) (interval : Millis)
    (maxAttempts : UInt32) (log : List (Transition Discovery Call)) : Prop where
  /-- There is one outcome at most. -/
  once : ((log.flatMap polled).filter Event.isOutcome).length ≤ 1
  /-- After `found` there is no `gaveUp`, nor the other way round. -/
  exclusive : ∀ response attempts, .found response ∈ log.flatMap polled →
    .gaveUp attempts ∉ log.flatMap polled
  /-- `found` reports an answer that was heard, and is one to act on. -/
  found : ∀ response, .found response ∈ log.flatMap polled →
    Usable request allowOffLink response ∧ ∃ t ∈ log, Hears t response
  /-- One request is sent in any case. -/
  requests : (log.flatMap requested).length ≤ max 1 maxAttempts.toNat
  datagrams : (log.flatMap multicast).length ≤ (log.flatMap requested).length
  apart : (log.flatMap requested).IsChain (Apart interval)
  /-- Once an answer is taken, whether or not `found` was polled yet, the next event after a
  usable answer other than it names both. -/
  conflicts : Along (fun earlier t => ∀ accepted other,
    (.found accepted ∈ earlier.flatMap polled ∨ t.before.outcome = some (.found accepted)) →
    Hears t other → Usable request allowOffLink other → other ≠ accepted →
    t.after.pollEvent.1 = some (.conflict accepted other)) log

/-- A run from `start` on is disciplined, whatever it is started in. -/
theorem disciplined (s : Discovery) (now : Instant) (during : List Call)
    (hstart : ∀ c ∈ during, ∀ t, c ≠ .start t)
    (hclock : ∀ c ∈ .start now :: during, ∀ t, c.time = some t →
      t.millis.toNat + s.interval.millis.toNat < 2 ^ 64) :
    Disciplined s.request s.allowOffLink s.interval s.maxAttempts
      (trace call s (.start now :: during)) := by
  obtain ⟨htold, hpaced⟩ := told_paced s now during hstart hclock
  -- no call changes what the search was set up with
  have hsetup (calls : List Call) : (run call s calls).request = s.request
      ∧ (run call s calls).allowOffLink = s.allowOffLink ∧ (run call s calls).interval = s.interval
      ∧ (run call s calls).maxAttempts = s.maxAttempts := by
    have h := setup_run s calls
    unfold setup at h
    exact ⟨congrArg (·.1) h, congrArg (·.2.1) h, congrArg (·.2.2.1) h, congrArg (·.2.2.2) h⟩
  obtain ⟨hrequest, hallow, hinterval, hmax⟩ := hsetup (.start now :: during)
  have hbounded := hpaced.bounded
  have happart := hpaced.apart
  rw [hmax] at hbounded
  rw [hinterval] at happart
  refine ⟨htold.length_le_one, fun response attempts hfound hgaveUp => ?_,
    fun response hfound => ?_, hbounded, ?_, happart, ?_⟩
  -- one verdict at most, and it cannot be both
  · have hverdict := htold.verdict_eq rfl (.inl hgaveUp)
    rw [htold.verdict_eq rfl (.inl hfound)] at hverdict
    cases hverdict
  · have hheard := htold.heard response (htold.accepted_of_found (.inl hfound))
    rwa [hrequest, hallow] at hheard
  · exact Nat.le_trans (Nat.le_add_right _ _) hpaced.multicast
  · rw [along_trace, along_cons]
    refine ⟨fun accepted other _ hears => ?_, ?_⟩
    · obtain ⟨later, frame, hcall, -⟩ := hears
      cases hcall
    · rintro xs c ys rfl accepted other hfound ⟨later, frame, hcall, hframe⟩ hu hne
      -- an answer heard later, that disagrees with the one accepted
      obtain rfl : c = .datagram later frame := hcall
      have htold := (told_paced s now xs (fun c hc => hstart c (List.mem_append_left _ hc))
        fun c hc => hclock c (by
          rw [← List.cons_append]
          exact List.mem_append_left _ hc)).1
      obtain ⟨hrequest, hallow, -, -⟩ := hsetup (.start now :: xs)
      refine pollEvent_of_conflict (htold.accepted_of_found hfound) hframe ?_ hne
      rwa [hrequest, hallow]

/-- **The outcome discipline.** In every run, each `start` is followed by one outcome at most,
`found` is reported for an answer to act on only, the requests are limited in number and an
interval apart, and a second, different answer is reported as a conflict. Only the timeline must
not end: the deadline keeps the requests apart even if the clock goes back. -/
theorem outcome_discipline (request : Request) (wireless allowOffLink : Bool) (interval : Millis)
    (maxAttempts : UInt32) (before : List Call) (now : Instant) (during : List Call)
    (hstart : ∀ c ∈ during, ∀ t, c ≠ .start t)
    (hclock : ∀ c ∈ .start now :: during, ∀ t, c.time = some t →
      t.millis.toNat + interval.millis.toNat < 2 ^ 64) :
    Disciplined request allowOffLink interval maxAttempts
      (trace call (run call (configured request wireless allowOffLink interval maxAttempts) before)
        (.start now :: during)) := by
  have hsetup : (run call (configured request wireless allowOffLink interval maxAttempts)
      before).setup = (request, allowOffLink, interval, maxAttempts) := setup_run _ _
  generalize run call (configured request wireless allowOffLink interval maxAttempts) before = s
    at hsetup
  cases hsetup
  exact disciplined s now during hstart hclock

/-! ## A run with two answers

Two answers to one request, the second one from somewhere else. -/

namespace Sample

/-- A link-local endpoint with transport security. -/
def secure (host : UInt8) : Response := { plain host with security := .tls }

/-- A vehicle asks twice, is answered, polls, is answered by somebody else, and polls again. -/
def contended : List Call :=
  [.pollTransmit, .timeout ⟨100⟩, .timeout ⟨250⟩, .pollTransmit, datagram (secure 1), .pollEvent,
    datagram (secure 2), .timeout ⟨600⟩, .pollEvent, .pollEvent]

end Sample

theorem outcome_discipline_contended :
    let s := configured Request.tls false false Timers.responseTimeout Timers.maxRequests
    let log := trace call s (.start ⟨0⟩ :: Sample.contended)
    Disciplined Request.tls false Timers.responseTimeout Timers.maxRequests log
      ∧ log.flatMap requested = [⟨0⟩, ⟨250⟩]
      ∧ log.flatMap polled
        = [.found (Sample.secure 1), .conflict (Sample.secure 1) (Sample.secure 2)] :=
  ⟨outcome_discipline Request.tls false false Timers.responseTimeout Timers.maxRequests [] ⟨0⟩
    Sample.contended (by simp [Sample.contended, Sample.datagram])
    (by simp [Sample.contended, Sample.datagram, Call.time, Timers.responseTimeout,
      Millis.fromMillis]),
    by decide +kernel, by decide +kernel⟩

end Discovery

end Iso15118.Sdp
