import Iso15118.Sdp.Outcome

/-!
# The end of an unanswered run

A vehicle that no usable answer reaches does not ask for ever, and is not left without a timer
before it has stopped asking. What ends the run is that its deadline has passed so many times,
whatever was polled and whatever else was heard in between: **`discovery_ends`**.
-/

namespace Iso15118.Sdp

open Iso15118.Lib Iso15118.Session

namespace Discovery

/-- The timer was handled when it had run out, in a run that was going on. -/
def due (t : Transition Discovery Call) : Bool :=
  match t.call with
  | .timeout now => !t.before.done && t.before.deadline.any fun d => d ≤ now
  | _ => false

theorem not_due_iff {s : Discovery} {now : Instant} :
    (s.done = true ∨ s.deadline.all (fun d => now < d) = true)
      ↔ due (taken call s (.timeout now)) = false := by
  show _ ↔ (!s.done && s.deadline.any fun d => decide (d ≤ now)) = false
  cases s.done with
  | true => simp
  | false =>
    cases s.deadline with
    | none => simp
    | some d =>
      have hle : (now < d) ↔ ¬ d ≤ now := by
        show now.millis < d.millis ↔ ¬ d.millis ≤ now.millis
        exact UInt64.not_le.symm
      simp [hle]

/-! ## A run that waits

Without a usable answer only the clock moves a run on, and it does so by one request at a time. -/

/-- While there is no answer: the timer is armed, and has run out as often as a request was sent
after the first; and at the end it has run out once more. -/
structure Waiting (log : List (Transition Discovery Call)) (s : Discovery) : Prop where
  attempts : s.done = false → s.attempts.toNat = log.countP due + 1
  bounded : s.attempts.toNat ≤ max 1 s.maxAttempts.toNat
  armed : s.done = false → s.deadline.isSome = true
  accepted : s.accepted = none
  ended : s.done = true → s.attempts.toNat = max 1 s.maxAttempts.toNat
    ∧ log.countP due = max 1 s.maxAttempts.toNat

namespace Waiting

variable {log : List (Transition Discovery Call)} {s : Discovery}

/-- What leaves the run as it is. -/
theorem quiet (h : Waiting log s) {t : Transition Discovery Call} (ht : due t = false)
    (pending : Option (List UInt8)) (outcome notice : Option Event) :
    Waiting (log ++ [t]) { s with pending, outcome, notice } := by
  have hcount : (log ++ [t]).countP due = log.countP due := by
    rw [List.countP_append, List.countP_singleton, ht]
    rfl
  refine ⟨fun hdone => ?_, h.bounded, h.armed, h.accepted, fun hdone => ?_⟩
  · rw [hcount]
    exact h.attempts hdone
  · rw [hcount]
    exact h.ended hdone

/-- A search that waits goes on waiting across a deadline, or has used up its attempts. -/
theorem timeout (h : Waiting log s) (now : Instant) :
    Waiting (log ++ [taken call s (.timeout now)]) (s.handleTimeout now) := by
  unfold handleTimeout
  split
  · next hearly => exact h.quiet (not_due_iff.mp hearly) s.pending s.outcome s.notice
  · next hdue =>
    have hdue := (Bool.not_eq_false _).mp (mt not_due_iff.mpr hdue)
    have hcount : (log ++ [taken call s (.timeout now)]).countP due = log.countP due + 1 := by
      rw [List.countP_append, List.countP_singleton, hdue]
      rfl
    have hseeking : s.done = false := by
      have hboth : (!s.done && s.deadline.any fun d => decide (d ≤ now)) = true := hdue
      exact (Bool.not_eq_true' _).mp (Bool.and_eq_true_iff.mp hboth).1
    have hattempts := h.attempts hseeking
    have hbounded := h.bounded
    dsimp only
    split
    -- that was the last attempt
    · next hout =>
      have hout : s.maxAttempts.toNat ≤ s.attempts.toNat := hout
      refine ⟨(fun hdone => by cases hdone), hbounded, (fun hdone => by cases hdone), h.accepted,
        fun _ => ⟨?_, ?_⟩⟩
      · show s.attempts.toNat = max 1 s.maxAttempts.toNat
        omega
      · show _ = max 1 s.maxAttempts.toNat
        rw [hcount]
        omega
    · next hleft =>
      have hleft : s.attempts.toNat < s.maxAttempts.toNat := UInt32.not_le.mp hleft
      -- the counter does not wrap, for it is below the maximum
      have hnext : (s.attempts + 1).toNat = s.attempts.toNat + 1 := by
        have hlt := s.maxAttempts.toNat_lt
        rw [UInt32.toNat_add]
        exact Nat.mod_eq_of_lt (by show s.attempts.toNat + 1 < 2 ^ 32; omega)
      obtain ⟨frame, hsend⟩ := exists_send_eq { s with deadline := none } now
      rw [hsend]
      refine ⟨fun _ => ?_, ?_, fun _ => rfl, h.accepted, fun hdone => ?_⟩
      · rw [hcount]
        show (s.attempts + 1).toNat = _
        omega
      · show (s.attempts + 1).toNat ≤ max 1 s.maxAttempts.toNat
        omega
      · cases hseeking.symm.trans hdone

/-- A datagram that is no usable answer. -/
theorem datagram (h : Waiting log s) {now : Instant} {frame : List UInt8}
    (hunusable : ∀ r, Response.fromFrame frame = .ok r → ¬ Usable s.request s.allowOffLink r) :
    Waiting (log ++ [taken call s (.datagram now frame)]) (s.handleDatagram now frame).2 := by
  have hquiet := h.quiet (t := taken call s (.datagram now frame)) rfl s.pending s.outcome
  unfold handleDatagram
  cases hframe : Response.fromFrame frame with
  | error e => exact hquiet s.notice
  | ok r =>
    show Waiting _ (s.answered r)
    unfold answered
    split
    · next accepted haccepted => cases h.accepted.symm.trans haccepted
    · split
      · exact hquiet s.notice
      split
      · exact hquiet _
      · next hrefusal => exact absurd (refusal_eq_none_iff.mp hrefusal) (hunusable r hframe)

theorem call (h : Waiting log s) {c : Call} (hstart : ∀ now, c ≠ .start now)
    (hunusable : ∀ now frame r, c = .datagram now frame → Response.fromFrame frame = .ok r →
      ¬ Usable s.request s.allowOffLink r) :
    Waiting (log ++ [taken Discovery.call s c]) (s.call c) := by
  cases c with
  | start now => exact absurd rfl (hstart now)
  | timeout now => exact h.timeout now
  | datagram now frame => exact h.datagram fun r => hunusable now frame r rfl
  | pollTransmit => exact h.quiet rfl none s.outcome s.notice
  | pollEvent =>
    show Waiting _ s.pollEvent.2
    unfold pollEvent
    cases s.notice with
    | some notice => exact h.quiet rfl s.pending s.outcome none
    | none => exact h.quiet rfl s.pending none none

end Waiting

/-! ## From the start on

The start sends the first request and arms the timer; what follows keeps the count. -/

theorem waiting_start (s : Discovery) (now : Instant) :
    Waiting [taken call s (.start now)] (s.start now) := by
  obtain ⟨frame, hsend⟩ := exists_send_eq { s with
    attempts := 0, done := false, outcome := none, notice := none, accepted := none } now
  unfold start
  rw [hsend]
  exact ⟨fun _ => rfl, Nat.le_max_left _ _, fun _ => rfl, rfl, (fun hdone => by cases hdone)⟩

/-- From `start` on, as long as there is no usable answer. -/
theorem waiting_run (s : Discovery) (now : Instant) (during : List Call)
    (hstart : ∀ c ∈ during, ∀ t, c ≠ .start t)
    (hunusable : ∀ later frame r, .datagram later frame ∈ during →
      Response.fromFrame frame = .ok r → ¬ Usable s.request s.allowOffLink r) :
    Waiting (trace call s (.start now :: during)) (run call s (.start now :: during)) := by
  induction during using List.reverseRecOn with
  | nil => exact waiting_start s now
  | append_singleton xs c ih =>
    have hxs := ih (fun c hc => hstart c (List.mem_append_left _ hc))
      fun later frame r hin => hunusable later frame r (List.mem_append_left _ hin)
    rw [← List.cons_append, trace_concat, run_concat]
    have hsetup := setup_run s (.start now :: xs)
    have hlast : c ∈ xs ++ [c] := List.mem_append_right _ (List.mem_singleton.mpr rfl)
    refine hxs.call (hstart c hlast) fun later frame r hc hframe => ?_
    rw [show (run call s (.start now :: xs)).request = s.request from congrArg (·.1) hsetup,
      show (run call s (.start now :: xs)).allowOffLink = s.allowOffLink
        from congrArg (·.2.1) hsetup]
    exact hunusable later frame r (hc ▸ hlast) hframe

/-- **An unanswered run ends.** From `start` on, with no usable answer, the run goes on with its
timer armed until the timer has run out once for each request it may send, but once at least; then
it is over, with so many requests sent. -/
theorem discovery_ends (request : Request) (wireless allowOffLink : Bool) (interval : Millis)
    (maxAttempts : UInt32) (before : List Call) (now : Instant) (during : List Call)
    (hstart : ∀ c ∈ during, ∀ t, c ≠ .start t)
    (hunusable : ∀ later frame r, .datagram later frame ∈ during →
      Response.fromFrame frame = .ok r → ¬ Usable request allowOffLink r) :
    let s := run call (configured request wireless allowOffLink interval maxAttempts) before
    let log := trace call s (.start now :: during)
    let s' := run call s (.start now :: during)
    (s'.done = true ↔ max 1 maxAttempts.toNat ≤ log.countP due)
      ∧ (s'.done = false → s'.deadline.isSome = true)
      ∧ (s'.done = true → s'.attempts.toNat = max 1 maxAttempts.toNat ∧ s'.accepted = none) := by
  intro s log s'
  have hsetup : s.setup = (request, allowOffLink, interval, maxAttempts) := setup_run _ _
  have hrequest : s.request = request := congrArg (·.1) hsetup
  have hallow : s.allowOffLink = allowOffLink := congrArg (·.2.1) hsetup
  have hmax : s'.maxAttempts = maxAttempts :=
    congrArg (·.2.2.2) ((setup_run s (.start now :: during)).trans hsetup)
  have hwaiting : Waiting log s' := waiting_run s now during hstart (by rwa [hrequest, hallow])
  have hended := hwaiting.ended
  have hbounded := hwaiting.bounded
  rw [hmax] at hended hbounded
  refine ⟨⟨fun hdone => (hended hdone).2.ge, fun hcount => ?_⟩, hwaiting.armed,
    fun hdone => ⟨(hended hdone).1, hwaiting.accepted⟩⟩
  by_contra hseeking
  have hattempts := hwaiting.attempts (Bool.eq_false_iff.mpr hseeking)
  omega

/-- Two requests, a refusal between them, and a timer that runs out twice. -/
theorem discovery_ends_refused :
    let s := configured Request.tls false false Timers.responseTimeout 2
    let during := [.timeout ⟨250⟩, Sample.datagram (Sample.plain 1), .timeout ⟨300⟩, .timeout ⟨500⟩]
    (run call s (.start ⟨0⟩ :: during)).done = true
      ∧ (run call s (.start ⟨0⟩ :: during)).attempts.toNat = 2 := by
  intro s during
  have hread : ∀ later frame, Sample.datagram (Sample.plain 1) = .datagram later frame →
      Response.fromFrame frame = .ok (Sample.plain 1) := by
    intro later frame heq
    cases heq
    decide +kernel
  have hends := discovery_ends Request.tls false false Timers.responseTimeout 2 [] ⟨0⟩ during
    (by simp [during, Sample.datagram]) fun later frame r hin hr => by
      have heq : Sample.datagram (Sample.plain 1) = .datagram later frame := by
        simpa [during, eq_comm] using hin
      cases (hread later frame heq).symm.trans hr
      exact fun h => absurd (h.security rfl) (by decide)
  have hcount : (trace call s (.start ⟨0⟩ :: during)).countP due = 2 := by decide +kernel
  have hdone := hends.1.mpr (hcount ▸ by decide)
  exact ⟨hdone, (hends.2.2 hdone).1⟩

end Discovery

end Iso15118.Sdp
