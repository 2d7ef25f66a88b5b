import Iso15118.Secc.Close

/-!
# The setup timer

`SeccConfig::setup_timeout` is how long a vehicle may take from the connection to its
`SessionSetupReq`. The timer is armed when the transport opens, and the handshake, which comes
before that request, already disarms it: **`setup_bounded_iff`**.

The invariant (`SetupTimed`) is that while there is no flow the timer runs with the deadline of the
opening, and no other does that could end the session; and that once there is a flow it does not
run. In an open session the bound then holds exactly where there is no flow yet.
-/

namespace Iso15118.Secc

open Iso15118.Lib Iso15118.Session
open Iso15118.Message (Codec Golden.codec Golden.frame Golden.reqIso2)

/-! ## The timer before the handshake and after it

The invariant, through one message, one step and one call. The handshake is the only thing that
moves it from the one half to the other. -/

/-- The state of the setup timer in an open session: running, alone, until the handshake settles,
and stopped from then on. -/
structure SetupTimed (deadline : Instant) (s : Secc) : Prop where
  running : s.flow = none → s.timers.deadline .communicationSetup = some deadline
  alone : s.flow = none → ∀ timer, timer ≠ .communicationSetup → timer ≠ .ongoing →
    s.timers.deadline timer = none
  idle : s.flow = none → s.outstanding = none
  stopped : s.flow.isSome = true → s.timers.deadline .communicationSetup = none

theorem SameOrFailed.eq_none_iff {flow flow' : Option Flow} (h : SameOrFailed flow flow') :
    flow' = none ↔ flow = none := by
  rcases h with rfl | rfl
  · exact Iff.rfl
  · exact Option.map_eq_none_iff

variable {deadline : Instant} {s s' : Secc}

/-- Another flow, with the deadlines that count as they were. -/
theorem SetupTimed.of_flow (hs : SetupTimed deadline s) (hflow : s'.flow = none ↔ s.flow = none)
    (htimers : ∀ timer, timer ≠ .ongoing → s'.timers.deadline timer = s.timers.deadline timer)
    (howed : s'.outstanding = s.outstanding) : SetupTimed deadline s' where
  running h := (htimers _ (by decide)).trans (hs.running (hflow.mp h))
  alone h timer hne hongoing :=
    (htimers timer hongoing).trans (hs.alone (hflow.mp h) timer hne hongoing)
  idle h := howed.trans (hs.idle (hflow.mp h))
  stopped h := by
    rw [Option.isSome_iff_ne_none, ne_eq, hflow, ← ne_eq, ← Option.isSome_iff_ne_none] at h
    exact (htimers _ (by decide)).trans (hs.stopped h)

/-- Once the handshake has settled, only its own deadline matters. -/
theorem SetupTimed.of_settled (hflow : s'.flow.isSome = true)
    (hstopped : s'.timers.deadline .communicationSetup = none) : SetupTimed deadline s' where
  running h := by simp [h] at hflow
  alone h := by simp [h] at hflow
  idle h := by simp [h] at hflow
  stopped _ := hstopped

theorem setupTimed_dispatched {m : Message} {evs : List Event} (hs : SetupTimed deadline s)
    (h : Dispatched s m evs (.ok (), s')) (hopen : s'.closed = false) :
    SetupTimed deadline s' := by
  cases h with
  | rejected req frame timers hm hflow => cases hopen
  | agreed req protocol set flow frame timers hm hflow hnew hsetup => exact .of_settled rfl hsetup
  | unknown due timers hm hreq hest hid => cases hopen
  | accepted flow flow' due phase timers hreq hid hflow haccept hsetup =>
    exact .of_settled rfl (hsetup.trans (hs.stopped (by simp [hflow])))
  | refused flow e event due overdue timers hreq hid hflow haccept hevent => cases hopen

theorem setupTimed_step {acts : List Act} (hs : s.closed = false → SetupTimed deadline s)
    (h : Step s acts s') (hopen : s'.closed = false) : SetupTimed deadline s' := by
  cases h with
  | received conn hopen hconn => exact (hs hopen).of_flow Iff.rfl (fun _ _ => rfl) rfl
  | read hopen' hidle h => exact setupTimed_dispatched (hs hopen') h hopen
  | faulted conn hopen' hconn => cases hopen
  | spoiled hflow => exact (hs hopen).of_flow hflow.eq_none_iff (fun _ _ => rfl) rfl
  | answered response o frame timers howed hflow hsetup =>
    -- a request that is owed an answer was read after the handshake
    have hsome : s.flow.isSome = true := by
      rw [Option.isSome_iff_ne_none]
      intro hnone
      rw [(hs hopen).idle hnone] at howed
      cases howed
    refine .of_settled ?_ (hsetup.trans ((hs hopen).stopped hsome))
    rw [Option.isSome_iff_ne_none] at hsome ⊢
    exact fun hnone => hsome (hflow.eq_none_iff.mp hnone)
  | ended response o frame why hopen' howed hflow hwhy => cases hopen

/-- Every call but another `opened` keeps the setup timer as it should be. -/
theorem setupTimed_call (codec : Codec) (s : Secc) (c : Call)
    (hs : s.closed = false → SetupTimed deadline s) (hc : ∀ t, c ≠ .opened t)
    (hopen : (s.call codec c).closed = false) : SetupTimed deadline (s.call codec c) := by
  obtain ⟨acts, heffect, -⟩ := effect_call codec s c
  generalize s.call codec c = s' at heffect hopen
  cases heffect with
  | opened now => exact absurd rfl (hc now)
  | polled => exact (hs hopen).of_flow Iff.rfl (fun _ _ => rfl) rfl
  | taken => exact (hs hopen).of_flow Iff.rfl (fun _ _ => rfl) rfl
  | ticked now h =>
    cases h with
    | kept timers overdue hflow hdue htimers =>
      exact (hs hopen).of_flow hflow.eq_none_iff (htimers hopen) rfl
    | timedOut timer timers overdue hopen' hflow hdue => cases hopen
  | joined sessionId => exact (hs hopen).of_flow Iff.rfl (fun _ _ => rfl) rfl
  | resumed flow flow' hflow hprotocol =>
    exact .of_settled rfl ((hs hopen).stopped (by simp [hflow]))
  | notResumed => exact hs hopen
  | driven hdrives h =>
    exact h.invariant (I := fun _ t => t.closed = false → SetupTimed deadline t) (g := [])
      (fun _ _ _ _ ht hstep hopen => setupTimed_step ht hstep hopen) hs hopen

theorem setupTimed_after (codec : Codec) (config : SeccConfig) (t₀ : Instant) {calls : List Call}
    (hcalls : ∀ t, .opened t ∉ calls)
    (hopen : (after codec config (.opened t₀ :: calls)).closed = false) :
    SetupTimed (t₀.saturatingAdd config.setupTimeout)
      (after codec config (.opened t₀ :: calls)) := by
  have hstart : SetupTimed (t₀.saturatingAdd config.setupTimeout) ((new config).opened t₀) := by
    refine ⟨fun _ => Timers.deadline_arm_self .., ?_, fun _ => rfl, fun h => by cases h⟩
    intro _ timer hne _
    exact Timers.deadline_arm_of_ne hne
  have hnext : ∀ (s : Secc) (c : Call),
      (s.closed = false → SetupTimed (t₀.saturatingAdd config.setupTimeout) s) →
      (∀ t, c ≠ .opened t) → (s.call codec c).closed = false →
      SetupTimed (t₀.saturatingAdd config.setupTimeout) (s.call codec c) :=
    fun s c hs hc => setupTimed_call codec s c hs hc
  have hothers : ∀ c ∈ calls, ∀ t, c ≠ .opened t := by
    rintro c hc t rfl
    exact hcalls t hc
  exact run_of_invariant (s := (new config).opened t₀)
    (I := fun s => s.closed = false → SetupTimed (t₀.saturatingAdd config.setupTimeout) s)
    hnext (fun _ => hstart) hothers hopen

/-! ## The bound

What the timer is for, and when it serves. -/

/-- The vehicle is held to `deadline`: the setup timer is running for it, and the first clock
reading that reaches it ends the session over that timer. -/
def SetupBounded (codec : Codec) (deadline : Instant) (s : Secc) : Prop :=
  s.timers.deadline .communicationSetup = some deadline
    ∧ ∀ now, deadline ≤ now →
      s.emits codec (.handleTimeout now) = [.closed (.timeout .communicationSetup)]
        ∧ (s.handleTimeout now).closed = true

/-- Until the handshake settles, the setup timer is the one that ends the session. -/
theorem SetupTimed.bounded (codec : Codec) (hs : SetupTimed deadline s) (hopen : s.closed = false)
    (hflow : s.flow = none) : SetupBounded codec deadline s := by
  refine ⟨hs.running hflow, fun now hle => ?_⟩
  have hdue : s.Overrun now .communicationSetup :=
    ⟨by decide, deadline, hs.running hflow, hle⟩
  obtain ⟨evs, h⟩ := expired_handleTimeout s now
  generalize hout : s.handleTimeout now = out at h
  cases h with
  | kept timers overdue hflow' hkept htimers => exact absurd hdue (hkept hopen _)
  | timedOut timer timers overdue hopen' hflow' htimer =>
    obtain ⟨hongoing, d, hd, -⟩ := htimer
    -- no other timer runs before the handshake has settled
    have htimer : timer = .communicationSetup := by
      by_contra hne
      rw [hs.alone hflow timer hne hongoing] at hd
      cases hd
    subst htimer
    exact ⟨emits_eq (congrArg Secc.events hout), rfl⟩

/-- **The setup timer.** After `opened` at `t₀`, however the session goes on, an open station holds
the vehicle to `t₀` plus the setup timeout exactly as long as the handshake has not settled. -/
theorem setup_bounded_iff (codec : Codec) (config : SeccConfig) (t₀ : Instant)
    (calls : List Call) (hcalls : ∀ t, .opened t ∉ calls)
    (hopen : (after codec config (.opened t₀ :: calls)).closed = false) :
    SetupBounded codec (t₀.saturatingAdd config.setupTimeout)
        (after codec config (.opened t₀ :: calls))
      ↔ (after codec config (.opened t₀ :: calls)).flow = none := by
  have hs := setupTimed_after codec config t₀ hcalls hopen
  constructor
  · intro hbounded
    by_contra hsome
    rw [← ne_eq, ← Option.isSome_iff_ne_none] at hsome
    have hrunning := hbounded.1
    rw [hs.stopped hsome] at hrunning
    cases hrunning
  · exact fun hflow => hs.bounded codec hopen hflow

/-- A vehicle that has sent half a header is still held to the timeout. -/
theorem setup_bounded_iff_before_handshake :
    SetupBounded Golden.codec (.fromMillis 18000)
      (after Golden.codec goldenConfig
        [.opened (.fromMillis 0), .handleInput (.fromMillis 100) [0x01, 0xfe, 0x80, 0x01]]) :=
  (setup_bounded_iff Golden.codec goldenConfig (.fromMillis 0)
    [.handleInput (.fromMillis 100) [0x01, 0xfe, 0x80, 0x01]] (by simp)
    (by decide +kernel)).mpr (by decide +kernel)

/-- A vehicle that has shaken hands and then goes on to nothing is not: the session is open, no
`SessionSetupReq` has been read, and the reading at 18 seconds ends nothing. -/
theorem not_setup_bounded_handshake :
    (after Golden.codec goldenConfig
        [.opened (.fromMillis 0), .handleInput (.fromMillis 100)
          (Golden.frame .exiEncodedV2gMessage Golden.reqIso2)]).closed = false
      ∧ emitted Golden.codec goldenConfig
          [.opened (.fromMillis 0), .handleInput (.fromMillis 100)
            (Golden.frame .exiEncodedV2gMessage Golden.reqIso2)] = [.protocolAgreed .iso2]
      ∧ ¬ SetupBounded Golden.codec
          ((Instant.fromMillis 0).saturatingAdd goldenConfig.setupTimeout)
          (after Golden.codec goldenConfig
            [.opened (.fromMillis 0), .handleInput (.fromMillis 100)
              (Golden.frame .exiEncodedV2gMessage Golden.reqIso2)]) := by
  refine ⟨by decide +kernel, by decide +kernel, fun h => ?_⟩
  have hrunning := h.1
  exact absurd hrunning (by decide +kernel)

end Iso15118.Secc
